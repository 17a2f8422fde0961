import SonicPins.Lib.DoubleIndex
import SonicPins.Pdpi.Messages

/-! What building the IR form of a P4Info guarantees: the maps by id and by name
hold the same definitions, and every reference is to a definition that exists. -/
namespace SonicPins.Pdpi
open Lib

/-- Formats fix their bitwidth, and only exact and optional matches use strings. -/
def IrMatchFieldDefinition.Valid (d : IrMatchFieldDefinition) : Prop :=
  (d.format = .mac → d.matchField.bitwidth = 48) ∧ (d.format = .ipv4 → d.matchField.bitwidth = 32) ∧
  (d.format = .ipv6 → d.matchField.bitwidth ≤ 128) ∧
  (d.format = .string → d.matchField.matchType = .exact ∨ d.matchField.matchType = .optional) ∧
  (d.matchField.matchType = .exact ∨ d.matchField.matchType = .lpm ∨ d.matchField.matchType = .ternary ∨
    d.matchField.matchType = .optional)

instance (d : IrMatchFieldDefinition) : Decidable d.Valid :=
  inferInstanceAs (Decidable ((_ → _) ∧ (_ → _) ∧ (_ → _) ∧ (_ → _) ∧ _))

/-- A parameter's format fixes its bitwidth. -/
def IrActionParamDefinition.Valid (d : IrActionParamDefinition) : Prop :=
  (d.format = .mac → d.param.bitwidth = 48) ∧ (d.format = .ipv4 → d.param.bitwidth = 32) ∧
  (d.format = .ipv6 → d.param.bitwidth ≤ 128)

instance (d : IrActionParamDefinition) : Decidable d.Valid := inferInstanceAs (Decidable ((_ → _) ∧ (_ → _) ∧ (_ → _)))

structure IrActionDefinition.WellFormed (a : IrActionDefinition) : Prop where
  params : DoubleIndex a.paramsById a.paramsByName (fun d => d.param.id) (fun d => d.param.name)
  valid : ∀ x ∈ a.paramsById,x.2.Valid

instance (a : IrActionDefinition) : Decidable a.WellFormed :=
  decidable_of_iff (DoubleIndex a.paramsById a.paramsByName (fun d => d.param.id) (fun d => d.param.name) ∧
    ∀ x ∈ a.paramsById,x.2.Valid) ⟨fun ⟨h,v⟩ => ⟨h,v⟩,fun ⟨h,v⟩ => ⟨h,v⟩⟩

structure IrTableDefinition.WellFormed (info : IrP4Info) (t : IrTableDefinition) : Prop where
  matchFields : DoubleIndex t.matchFieldsById t.matchFieldsByName (fun d => d.matchField.id) (fun d => d.matchField.name)
  valid : ∀ x ∈ t.matchFieldsById,x.2.Valid
  entryActions : ∀ a ∈ t.entryActions,(a.preamble.id,a) ∈ info.actionsById
  oneshot : t.usesOneshot = t.actionProfileId.isSome
  profile : ∀ id ∈ t.actionProfileId,(info.actionProfilesById.lookup id).isSome

instance (info : IrP4Info) (t : IrTableDefinition) : Decidable (t.WellFormed info) :=
  decidable_of_iff
    (DoubleIndex t.matchFieldsById t.matchFieldsByName (fun d => d.matchField.id) (fun d => d.matchField.name) ∧
      (∀ x ∈ t.matchFieldsById,x.2.Valid) ∧ (∀ a ∈ t.entryActions,(a.preamble.id,a) ∈ info.actionsById) ∧
      t.usesOneshot = t.actionProfileId.isSome ∧
      t.actionProfileId.all (fun id => (info.actionProfilesById.lookup id).isSome) = true)
    ⟨fun ⟨a,b,c,d,e⟩ => ⟨a,b,c,d,fun id hid => (Option.all_eq_true _ _).mp e id hid⟩,
      fun ⟨a,b,c,d,e⟩ => ⟨a,b,c,d,(Option.all_eq_true _ _).mpr fun id hid => e id hid⟩⟩

structure IrP4Info.WellFormed (info : IrP4Info) : Prop where
  tables : DoubleIndex info.tablesById info.tablesByName (fun t => t.preamble.id) (fun t => t.preamble.aliasName)
  table : ∀ x ∈ info.tablesById,x.2.WellFormed info
  actions : DoubleIndex info.actionsById info.actionsByName (fun a => a.preamble.id) (fun a => a.preamble.aliasName)
  action : ∀ x ∈ info.actionsById,x.2.WellFormed
  profiles : DoubleIndex info.actionProfilesById info.actionProfilesByName (fun p => p.preamble.id)
    (fun p => p.preamble.aliasName)

instance (info : IrP4Info) : Decidable info.WellFormed :=
  decidable_of_iff
    (DoubleIndex info.tablesById info.tablesByName (fun t => t.preamble.id) (fun t => t.preamble.aliasName) ∧
      (∀ x ∈ info.tablesById,x.2.WellFormed info) ∧
      DoubleIndex info.actionsById info.actionsByName (fun a => a.preamble.id) (fun a => a.preamble.aliasName) ∧
      (∀ x ∈ info.actionsById,x.2.WellFormed) ∧
      DoubleIndex info.actionProfilesById info.actionProfilesByName (fun p => p.preamble.id) (fun p => p.preamble.aliasName))
    ⟨fun ⟨a,b,c,d,e⟩ => ⟨a,b,c,d,e⟩,fun ⟨a,b,c,d,e⟩ => ⟨a,b,c,d,e⟩⟩

/-- The P4Info of a pipeline that was accepted. -/
structure AcceptedP4Info extends IrP4Info where
  wellFormed : toIrP4Info.WellFormed

namespace IrP4Info.WellFormed
variable {info : IrP4Info} (h : info.WellFormed)
include h

theorem table_of_id {id : UInt32} {t : IrTableDefinition} (ht : info.tablesById.lookup id = some t) :
    t.preamble.id = id ∧ info.tablesByName.lookup t.preamble.aliasName = some t ∧ t.WellFormed info := by
  obtain ⟨hid,hname⟩ := h.tables.lookup_name ht
  exact ⟨hid,hname,h.table _ (mem_of_lookup_eq_some ht)⟩

theorem table_of_name {name : String} {t : IrTableDefinition} (ht : info.tablesByName.lookup name = some t) :
    t.preamble.aliasName = name ∧ info.tablesById.lookup t.preamble.id = some t ∧ t.WellFormed info := by
  obtain ⟨hname,hid⟩ := h.tables.lookup_id ht
  exact ⟨hname,hid,h.table _ (mem_of_lookup_eq_some hid)⟩

theorem action_of_id {id : UInt32} {a : IrActionDefinition} (ha : info.actionsById.lookup id = some a) :
    a.preamble.id = id ∧ info.actionsByName.lookup a.preamble.aliasName = some a ∧ a.WellFormed := by
  obtain ⟨hid,hname⟩ := h.actions.lookup_name ha
  exact ⟨hid,hname,h.action _ (mem_of_lookup_eq_some ha)⟩

end IrP4Info.WellFormed
end SonicPins.Pdpi
