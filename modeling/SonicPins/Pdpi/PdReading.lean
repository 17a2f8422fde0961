import SonicPins.Lib.PointUpdates
import SonicPins.Pdpi.P4InfoConsistency
import SonicPins.Pdpi.PdToIr
import SonicPins.Pdpi.TranslationSpecs

/-! Which fields of a PD message a translation to IR reads. -/
namespace SonicPins.Pdpi
open Lib Packetlib

theorem priority_mem_pdFields {table : IrTableDefinition} : "priority" ∈ table.pdFields ↔ table.hasPriority = true := by
  unfold IrTableDefinition.pdFields
  split_ifs <;> simp_all

theorem irValueString_formatted (text : String) (format : Format) :
    irValueString (formattedStringToIrValue text format) = text := by cases format <;> rfl

theorem protobufFieldNameToP4Name_eq_ok {fieldName p4Name : String} :
    protobufFieldNameToP4Name fieldName = .ok p4Name ↔ fieldName = tableFieldName p4Name := by
  unfold protobufFieldNameToP4Name tableFieldName
  rw [← strDropSuffix_eq_some]
  cases strDropSuffix "_entry" fieldName <;> simp

theorem tableFieldName_inj {p4Name p4Name' : String} : tableFieldName p4Name = tableFieldName p4Name' ↔ p4Name = p4Name' := by
  constructor
  · intro h
    exact Except.ok.inj ((protobufFieldNameToP4Name_eq_ok.mpr rfl).symm.trans (protobufFieldNameToP4Name_eq_ok.mpr h))
  · exact congrArg _

private theorem tableFieldName_eq_multicastGroup {p4Name : String} :
    tableFieldName p4Name = "multicast_group_table_entry" ↔ p4Name = "multicast_group_table" :=
  show tableFieldName p4Name = tableFieldName "multicast_group_table" ↔ _ from tableFieldName_inj

theorem pdTableEntryToIrEntity_table {gen : PdGenOptions} {info : IrP4Info} {options : TranslationOptions} {p4Name : String}
    {pd : PdTable} {e : IrTableEntry} :
    pdTableEntryToIrEntity gen info (.table (tableFieldName p4Name) pd) options = .ok (.tableEntry e) ↔
      p4Name ≠ "multicast_group_table" ∧ pdTableEntryToIrTableEntry info (tableFieldName p4Name) pd options = .ok e := by
  unfold pdTableEntryToIrEntity
  simp only [tableFieldName_eq_multicastGroup]
  split_ifs with hname <;> simp [hname,map_eq_ok]

/-- No full translation of a table's message is a multicast group. -/
theorem pdTableEntryToIrEntity_full {gen : PdGenOptions} {info : IrP4Info} {options : TranslationOptions} {fieldName : String}
    {pd : PdTable} {ir : IrEntity} (hfull : ¬ options.keyOnly = true)
    (h : pdTableEntryToIrEntity gen info (.table fieldName pd) options = .ok ir) :
    fieldName ≠ "multicast_group_table_entry" ∧ ∃ e,pdTableEntryToIrTableEntry info fieldName pd options = .ok e := by
  unfold pdTableEntryToIrEntity at h
  simp only at h
  split_ifs at h with hname
  · obtain ⟨e,he,-⟩ := map_eq_ok.mp h
    unfold pdTableAsMulticastGroupToIr at he
    split_ifs at he <;> simp [bind_eq_ok] at he
  · obtain ⟨e,he,-⟩ := map_eq_ok.mp h
    exact ⟨hname,e,he⟩

variable {options : TranslationOptions} {info : IrP4Info} {table : IrTableDefinition} {pd : PdMatch}

theorem mem_matchNames (htable : table.WellFormed info) {name : String} :
    name ∈ matchNames table ↔ ∃ d,table.matchFieldsByName.lookup name = some d := by
  unfold matchNames
  rw [List.mem_map]
  simp only [(List.perm_insertionSort _ _).mem_iff]
  constructor
  · rintro ⟨x,hx,rfl⟩
    exact ⟨x.2,lookup_eq_some_of_mem htable.matchFields.nameNodup (htable.matchFields.ofId x hx).2⟩
  · rintro ⟨d,hd⟩
    obtain ⟨hname,hid⟩ := htable.matchFields.ofName _ (mem_of_lookup_eq_some hd)
    exact ⟨_,hid,hname⟩

theorem mem_pdMatchFields (htable : table.WellFormed info) {name : String} {d : IrMatchFieldDefinition}
    (hd : table.matchFieldsByName.lookup name = some d) : name ∈ table.pdMatchFields := by
  obtain ⟨hname,hid⟩ := htable.matchFields.ofName _ (mem_of_lookup_eq_some hd)
  unfold IrTableDefinition.pdMatchFields
  rw [List.mem_map]
  exact ⟨_,(List.perm_insertionSort _ _).mem_iff.mpr hid,hname⟩

private theorem matchNames_nodup (htable : table.WellFormed info) : (matchNames table).Nodup :=
  (((List.perm_insertionSort _ _).map _).nodup_iff).mpr htable.matchFields.nodup_names

structure ReadField (table : IrTableDefinition) (pd : PdMatch) (x : String × IrMatchFieldDefinition) : Prop where
  found : table.matchFieldsByName.lookup x.1 = some x.2
  read : isRead pd x = true

/-- The fields of a message that are read, with their definitions. -/
def readFields (table : IrTableDefinition) (pd : PdMatch) : List (String × IrMatchFieldDefinition) :=
  ((matchNames table).filterMap fun name => (table.matchFieldsByName.lookup name).map (Prod.mk name)).filter (isRead pd)

theorem mem_readFields (htable : table.WellFormed info) {x : String × IrMatchFieldDefinition} :
    x ∈ readFields table pd ↔ ReadField table pd x := by
  unfold readFields
  simp only [List.mem_filter,List.mem_filterMap,Option.map_eq_some_iff,mem_matchNames htable]
  constructor
  · rintro ⟨⟨name,-,d,hd,rfl⟩,hread⟩
    exact ⟨hd,hread⟩
  · rintro ⟨hfound,hread⟩
    exact ⟨⟨x.1,⟨x.2,hfound⟩,x.2,hfound,rfl⟩,hread⟩

theorem pdMatchDefinitions_eq (htable : table.WellFormed info) : (matchNames table).mapM (pdMatchDefinition table) =
    .ok ((matchNames table).filterMap fun name => (table.matchFieldsByName.lookup name).map (Prod.mk name)) := by
  have hknown : ∀ name ∈ matchNames table,∃ d,table.matchFieldsByName.lookup name = some d := fun name =>
    (mem_matchNames htable).mp
  generalize matchNames table = names at hknown
  rw [mapM_eq_ok]
  induction names with
  | nil => exact .nil
  | cons name names ih =>
    obtain ⟨⟨d,hd⟩,hrest⟩ := List.forall_mem_cons.mp hknown
    rw [List.filterMap_cons_some (by rw [hd]; rfl)]
    exact .cons (by rw [pdMatchDefinition,hd]) (ih hrest)

theorem readFields_nodup (htable : table.WellFormed info) : ((readFields table pd).map Prod.fst).Nodup := by
  have hnames : ((matchNames table).filterMap fun name => (table.matchFieldsByName.lookup name).map (Prod.mk name)).map Prod.fst =
      matchNames table := by
    have hmap := map_eq_of_forall₂ (f := id) (g := Prod.fst) (mapM_eq_ok.mp (pdMatchDefinitions_eq htable)) ?_
    · rw [hmap,List.map_id]
    · intro name x hx
      unfold pdMatchDefinition at hx
      split at hx
      · cases hx
        rfl
      · cases hx
  have hnodup := matchNames_nodup htable
  rw [← hnames] at hnodup
  exact hnodup.sublist (List.filter_sublist.map _)

theorem pdMatchEntryToIr_eq_ok (htable : table.WellFormed info) {ms : List IrMatch} : pdMatchEntryToIr options table pd = .ok ms ↔
    List.Forall₂ (fun x m => pdMatchToIr options pd x = .ok m) (readFields table pd) ms := by
  have hunknown : (table.pdMatchFields.filter fun name => pd.has name && name ∉ matchNames table) = [] := by
    refine List.filter_eq_nil_iff.mpr fun name hname => ?_
    have hmem : name ∈ matchNames table := by
      unfold IrTableDefinition.pdMatchFields at hname
      unfold matchNames
      rw [List.mem_map] at hname ⊢
      simpa only [(List.perm_insertionSort _ _).mem_iff] using hname
    simp [hmem]
  unfold pdMatchEntryToIr
  rw [pdMatchDefinitions_eq htable,bind_eq_ok]
  simp only [Except.ok.injEq,exists_eq_left',hunknown,List.map_nil,List.nil_append,List.isEmpty_iff]
  constructor
  · intro h
    split_ifs at h with hreasons
    cases h
    exact partitionResults_nil hreasons
  · intro h
    have hall := partitionResults_eq h
    unfold readFields at hall
    rw [hall]
    rfl

end SonicPins.Pdpi
