import Mathlib.Data.List.ReduceOption
import SonicPins.Pdpi.Sequencing
import SonicPins.Pdpi.TranslationSpecs

/-! The order that references impose on updates, and that the batches are its
earliest layers. -/
namespace SonicPins.Pdpi
open Lib

variable {value : MatchValue} {x : ReferencedValue} {m : FieldMatch} {d : IrMatchFieldDefinition}

/-- The references of a P4Info are listed, and lead to existing match fields. -/
structure IrP4Info.ReferencesListed (info : IrP4Info) : Prop where
  matchFields : ∀ t ∈ info.tablesById,∀ m ∈ t.2.matchFieldsById,∀ r ∈ m.2.references,r ∈ info.references
  params : ∀ a ∈ info.actionsById,∀ p ∈ a.2.paramsById,∀ r ∈ p.2.references,r ∈ info.references
  exist : ∀ r ∈ info.references,∀ table,info.tablesByName.lookup r.table = some table →
    (table.matchFieldsByName.lookup r.matchField).isSome

def TableEntry.actions (e : TableEntry) : List Action :=
  match e.action with
  | some (.action a) => [a]
  | some (.actionProfileActionSet actions) => actions.map ActionProfileAction.action
  | _ => []

/-- A match field or an action parameter of the entry has a reference and a value. -/
inductive Mentions (info : IrP4Info) (e : TableEntry) : IrMatchFieldReference → Bytes → Prop
  | matchField {table : IrTableDefinition} {d : IrMatchFieldDefinition} {m : FieldMatch} {r : IrMatchFieldReference}
      {value : Bytes} : info.tablesById.lookup e.tableId = some table → m ∈ e.matches_ →
      table.matchFieldsById.lookup m.fieldId = some d → r ∈ d.references → m.value.referable = some value →
      Mentions info e r value
  | param {a : Action} {action : IrActionDefinition} {p : ActionParamValue} {d : IrActionParamDefinition}
      {r : IrMatchFieldReference} : a ∈ e.actions → info.actionsById.lookup a.actionId = some action → p ∈ a.params →
      action.paramsById.lookup p.paramId = some d → r ∈ d.references → Mentions info e r p.value

/-- The entry is in the referenced table and has the value in the referenced match field. -/
def HasValue (info : IrP4Info) (e : TableEntry) (r : IrMatchFieldReference) (value : Bytes) : Prop :=
  ∃ table d,info.tablesById.lookup e.tableId = some table ∧ table.preamble.aliasName = r.table ∧
    table.matchFieldsByName.lookup r.matchField = some d ∧
    ∃ m ∈ e.matches_,m.fieldId = d.matchField.id ∧ m.value.referable = some value

def RefersTo (info : IrP4Info) (e e' : TableEntry) : Prop := ∃ r value,Mentions info e r value ∧ HasValue info e' r value

/-- The update at `i` has to be sent before the one at `j`: an entry is inserted before
the entries that refer to it, and deleted after them. -/
def MustPrecede (info : IrP4Info) (updates : List Update) (i j : Nat) : Prop :=
  ∃ u v,updates[i]? = some u ∧ updates[j]? = some v ∧
    (((v.type = .insert ∨ v.type = .modify) ∧ u.type = .insert ∧
        RefersTo info (entityTableEntry v.entity) (entityTableEntry u.entity)) ∨
      (u.type = .delete ∧ v.type = .delete ∧ RefersTo info (entityTableEntry u.entity) (entityTableEntry v.entity)))

/-- Entries that sequencing supports: references only from exact and optional matches,
and an action or an action set. -/
structure Sequenceable (info : IrP4Info) (e : TableEntry) : Prop where
  references : ∀ table,info.tablesById.lookup e.tableId = some table → ∀ m ∈ e.matches_,∀ d,
    table.matchFieldsById.lookup m.fieldId = some d → d.references ≠ [] →
    d.matchField.matchType = .exact ∨ d.matchField.matchType = .optional
  action : (∃ a,e.action = some (.action a)) ∨ ∃ actions,e.action = some (.actionProfileActionSet actions)

section Values

theorem tableOf_eq_ok {info : IrP4Info} {e : TableEntry} {table : IrTableDefinition} :
    tableOf info e = .ok table ↔ info.tablesById.lookup e.tableId = some table := by
  rw [tableOf,mapError_eq_ok,findPtrOrStatus_eq_ok]

variable [InetText] {info : IrP4Info} {options : TranslationOptions} {e : TableEntry} {ir : IrTableEntry}

/-- What a translated entry consists of, as far as references read it. -/
structure Translates (info : IrP4Info) (e : TableEntry) (table : IrTableDefinition) : Prop where
  found : info.tablesById.lookup e.tableId = some table
  nodup : (e.matches_.map FieldMatch.fieldId).Nodup
  matches_ : ∀ m ∈ e.matches_,∃ d,table.matchFieldsById.lookup m.fieldId = some d ∧
    (d.matchField.matchType = .exact → ∃ v,m.value = .exact v) ∧
    (d.matchField.matchType = .optional → ∃ v,m.value = .optional v)
  actions : ∀ a ∈ e.actions,∃ d,info.actionsById.lookup a.actionId = some d ∧
    ∀ p ∈ a.params,∃ pd,d.paramsById.lookup p.paramId = some pd

private theorem piMatchValueToIr_kind {v : IrMatchValue}
    (h : piMatchValueToIr d value = .ok v) : (d.matchField.matchType = .exact → ∃ b,value = .exact b) ∧
      (d.matchField.matchType = .optional → ∃ b,value = .optional b) := by
  unfold piMatchValueToIr at h
  constructor
  · intro htype
    rw [htype] at h
    cases value <;> simp_all
  · intro htype
    rw [htype] at h
    cases value <;> simp_all

theorem piActionToIr_known {validActions : List IrActionDefinition} {a : Action} {ir : IrActionInvocation}
    (h : piActionToIr info options validActions a = .ok ir) : ∃ d,info.actionsById.lookup a.actionId = some d ∧
      ∀ p ∈ a.params,∃ pd,d.paramsById.lookup p.paramId = some pd := by
  obtain ⟨d,hd,-,-,hparams,-⟩ := piActionToIr_spec h
  refine ⟨d,hd,fun p hp => ?_⟩
  obtain ⟨hrel,-,-⟩ := partitionDistinct_nil [] hparams
  obtain ⟨r,-,hr⟩ := exists_of_forall₂_left hrel hp
  obtain ⟨pd,hpd,-⟩ := piParamToIr_spec hr
  exact ⟨pd,hpd⟩

private theorem piTableEntryToIr_translates (hoptions : options.keyOnly = false) (h : piTableEntryToIr info e options = .ok ir) :
    ∃ table,Translates info e table := by
  obtain ⟨table,hspec⟩ := piTableEntryToIr_spec h
  obtain ⟨hrel,hnodup,-⟩ := partitionDistinct_nil [] hspec.matchReasons
  refine ⟨table,hspec.found,hnodup,fun m hm => ?_,?_⟩
  · obtain ⟨r,-,hr⟩ := exists_of_forall₂_left hrel hm
    obtain ⟨hd,-,-,hvalue⟩ := piMatchToIr_spec hr
    exact ⟨r.1,hd,piMatchValueToIr_kind hvalue⟩
  · have haction := piTableActionToIr_spec (hspec.actionReasons hoptions)
    unfold TableEntry.actions
    generalize (piTableActionToIr info options table e.action).2 = type at haction
    generalize e.action = action at haction
    cases haction with
    | notSet _ => simp
    | action _ _ ha =>
      rintro a (_ | ⟨_,hmem⟩)
      · exact piActionToIr_known ha
      · cases hmem
    | actionSet _ _ hrel =>
      intro a ha
      obtain ⟨member,hmember,rfl⟩ := List.mem_map.mp ha
      obtain ⟨b,-,hb⟩ := exists_of_forall₂_left hrel hmember
      exact piActionToIr_known (piActionProfileActionToIr_spec hb).1

end Values

section Loops
variable {info : IrP4Info} {e : TableEntry} {table : IrTableDefinition}

theorem findSome_referable (h : (e.matches_.map FieldMatch.fieldId).Nodup) {id : UInt32} {v : Bytes} :
    (e.matches_.findSome? fun m => if m.fieldId = id then m.value.referable else none) = some v ↔
      ∃ m ∈ e.matches_,m.fieldId = id ∧ m.value.referable = some v := by
  generalize e.matches_ = ms at h ⊢
  induction ms with
  | nil => simp
  | cons m ms ih =>
    obtain ⟨hm,hms⟩ := List.nodup_cons.mp h
    by_cases hid : m.fieldId = id
    · have hnone : ¬ ∃ m' ∈ ms,m'.fieldId = id ∧ m'.value.referable = some v := by
        rintro ⟨m',hm',hid',-⟩
        exact hm (List.mem_map.mpr ⟨m',hm',hid'.trans hid.symm⟩)
      cases hvalue : m.value.referable with
      | none => simpa [hid,hvalue] using ih hms
      | some v' => simpa [hid,hvalue] using fun m' hm' hid' hv' => absurd ⟨m',hm',hid',hv'⟩ hnone
    · simpa [hid] using ih hms

theorem getMatchFieldValue_eq_ok {matchField : String}
    (hd : table.matchFieldsByName.lookup matchField = some d) : getMatchFieldValue table e matchField =
      .ok (e.matches_.findSome? fun m => if m.fieldId = d.matchField.id then m.value.referable else none) := by
  refine map_eq_ok.mpr ⟨d,?_,rfl⟩
  rw [mapError_eq_ok,findPtrOrStatus_eq_ok]
  exact hd

theorem referableValues_spec (hinfo : info.WellFormed) (hrefs : info.ReferencesListed) (h : Translates info e table) :
    ∃ values,referableValues info e = .ok values ∧
      ∀ r ∈ info.references,∀ v,(r.table,r.matchField,v) ∈ values ↔ HasValue info e r v := by
  have hname : info.tablesByName.lookup table.preamble.aliasName = some table := (hinfo.table_of_id h.found).2.1
  have hfield : ∀ r ∈ info.references.filter fun r => table.preamble.aliasName = r.table,
      ∃ d,table.matchFieldsByName.lookup r.matchField = some d := by
    intro r hr
    obtain ⟨hr,htable⟩ := List.mem_filter.mp hr
    exact Option.isSome_iff_exists.mp (hrefs.exist r hr table (of_decide_eq_true htable ▸ hname))
  have hok : ∀ r ∈ info.references.filter fun r => table.preamble.aliasName = r.table,∃ b,
      (getMatchFieldValue table e r.matchField).map (fun value => value.map fun v => (r.table,r.matchField,v)) = .ok b := by
    intro r hr
    obtain ⟨d,hd⟩ := hfield r hr
    exact ⟨_,map_eq_ok.mpr ⟨_,getMatchFieldValue_eq_ok hd,rfl⟩⟩
  obtain ⟨values,hvalues⟩ := exists_mapM_eq_ok.mpr hok
  refine ⟨values.reduceOption,?_,?_⟩
  · exact bind_eq_ok.mpr ⟨table,tableOf_eq_ok.mpr h.found,bind_eq_ok.mpr ⟨values,hvalues,rfl⟩⟩
  · intro r hr v
    rw [List.reduceOption_mem_iff]
    have hrel := mapM_eq_ok.mp hvalues
    constructor
    · intro hmem
      obtain ⟨r',hr',heq⟩ := exists_of_forall₂_right hrel hmem
      obtain ⟨d,hd⟩ := hfield r' hr'
      obtain ⟨value,hvalue,hsome⟩ := map_eq_ok.mp heq
      obtain ⟨v',rfl,hv'⟩ := Option.map_eq_some_iff.mp hsome
      obtain ⟨htable',hmatch',rfl⟩ : r'.table = r.table ∧ r'.matchField = r.matchField ∧ v' = v := by simpa using hv'
      obtain rfl : r' = r := by
        cases r'
        cases r
        simp_all
      rw [getMatchFieldValue_eq_ok hd,Except.ok.injEq,findSome_referable h.nodup] at hvalue
      exact ⟨table,d,h.found,of_decide_eq_true (List.mem_filter.mp hr').2,hd,hvalue⟩
    · rintro ⟨table',d,htable',hname',hd,hm⟩
      cases h.found.symm.trans htable'
      obtain ⟨b,hb,heq⟩ := exists_of_forall₂_left hrel (List.mem_filter.mpr ⟨hr,decide_eq_true hname'⟩)
      rw [getMatchFieldValue_eq_ok hd,(findSome_referable h.nodup).mpr hm] at heq
      cases heq
      exact hb

theorem matchReference_eq_ok {r : IrMatchFieldReference}
    (hexact : d.matchField.matchType = .exact → ∃ v,value = .exact v)
    (hoptional : d.matchField.matchType = .optional → ∃ v,value = .optional v) :
    matchReference d value r = .ok x ↔ (d.matchField.matchType = .exact ∨ d.matchField.matchType = .optional) ∧
      ∃ v,value.referable = some v ∧ x = (r.table,r.matchField,v) := by
  unfold matchReference
  cases hkind : d.matchField.matchType with
  | exact =>
    obtain ⟨v,rfl⟩ := hexact hkind
    simp [MatchValue.exactValue,MatchValue.referable,eq_comm]
  | optional =>
    obtain ⟨v,rfl⟩ := hoptional hkind
    simp [MatchValue.optionalValue,MatchValue.referable,eq_comm]
  | _ => simp

theorem matchReferences_eq (hd : table.matchFieldsById.lookup m.fieldId = some d) :
    matchReferences table m = d.references.mapM (matchReference d m.value) := by
  rw [matchReferences,mapError_eq_ok.mpr (findPtrOrStatus_eq_ok.mpr hd)]
  rfl

theorem matchReferences_ok_iff (h : Translates info e table) (hm : m ∈ e.matches_)
    (hd : table.matchFieldsById.lookup m.fieldId = some d) :
    (∃ values,matchReferences table m = .ok values) ↔
      (d.references ≠ [] → d.matchField.matchType = .exact ∨ d.matchField.matchType = .optional) := by
  obtain ⟨d',hd',hexact,hoptional⟩ := h.matches_ m hm
  cases hd.symm.trans hd'
  rw [matchReferences_eq hd,exists_mapM_eq_ok]
  constructor
  · intro hall hne
    obtain ⟨r,hr⟩ := List.exists_mem_of_ne_nil _ hne
    obtain ⟨x,hx⟩ := hall r hr
    exact ((matchReference_eq_ok hexact hoptional).mp hx).1
  · intro hkind r hr
    have hkind := hkind (List.ne_nil_of_mem hr)
    have hvalue : ∃ v,m.value.referable = some v := by
      rcases hkind with hkind | hkind
      · obtain ⟨v,hv⟩ := hexact hkind
        exact ⟨v,by rw [hv]; rfl⟩
      · obtain ⟨v,hv⟩ := hoptional hkind
        exact ⟨v,by rw [hv]; rfl⟩
    obtain ⟨v,hv⟩ := hvalue
    exact ⟨_,(matchReference_eq_ok hexact hoptional).mpr ⟨hkind,v,hv,rfl⟩⟩

theorem mem_matchReferences (h : Translates info e table) (hm : m ∈ e.matches_)
    (hd : table.matchFieldsById.lookup m.fieldId = some d) {values : List ReferencedValue}
    (hvalues : matchReferences table m = .ok values) :
    x ∈ values ↔ ∃ r ∈ d.references,∃ v,m.value.referable = some v ∧ x = (r.table,r.matchField,v) := by
  obtain ⟨d',hd',hexact,hoptional⟩ := h.matches_ m hm
  cases hd.symm.trans hd'
  rw [matchReferences_eq hd] at hvalues
  have hrel := mapM_eq_ok.mp hvalues
  constructor
  · intro hx
    obtain ⟨r,hr,hrx⟩ := exists_of_forall₂_right hrel hx
    exact ⟨r,hr,((matchReference_eq_ok hexact hoptional).mp hrx).2⟩
  · rintro ⟨r,hr,v,hv,rfl⟩
    obtain ⟨y,hy,hry⟩ := exists_of_forall₂_left hrel hr
    obtain ⟨-,v',hv',rfl⟩ := (matchReference_eq_ok hexact hoptional).mp hry
    cases hv.symm.trans hv'
    exact hy

theorem paramReferences_eq {action : IrActionDefinition} {p : ActionParamValue} {d : IrActionParamDefinition}
    (hd : action.paramsById.lookup p.paramId = some d) :
    paramReferences action p = .ok (d.references.map fun r => (r.table,r.matchField,p.value)) :=
  map_eq_ok.mpr ⟨d,mapError_eq_ok.mpr (findPtrOrStatus_eq_ok.mpr hd),rfl⟩

theorem actionReferences_spec {a : Action} {d : IrActionDefinition} (hd : info.actionsById.lookup a.actionId = some d)
    (hparams : ∀ p ∈ a.params,∃ pd,d.paramsById.lookup p.paramId = some pd) :
    ∃ values,actionReferences info a = .ok values ∧ ∀ x,x ∈ values ↔ ∃ p ∈ a.params,∃ pd,
      d.paramsById.lookup p.paramId = some pd ∧ ∃ r ∈ pd.references,x = (r.table,r.matchField,p.value) := by
  have hok : ∀ p ∈ a.params,∃ b,paramReferences d p = .ok b := by
    intro p hp
    obtain ⟨pd,hpd⟩ := hparams p hp
    exact ⟨_,paramReferences_eq hpd⟩
  obtain ⟨values,hvalues⟩ := exists_mapM_eq_ok.mpr hok
  refine ⟨values.flatten,?_,fun x => ?_⟩
  · exact bind_eq_ok.mpr ⟨d,mapError_eq_ok.mpr (findPtrOrStatus_eq_ok.mpr hd),map_eq_ok.mpr ⟨values,hvalues,rfl⟩⟩
  · rw [mem_flatten_of_mapM hvalues]
    constructor
    · rintro ⟨p,hp,b,hb,hx⟩
      obtain ⟨pd,hpd⟩ := hparams p hp
      rw [paramReferences_eq hpd] at hb
      cases hb
      obtain ⟨r,hr,rfl⟩ := List.mem_map.mp hx
      exact ⟨p,hp,pd,hpd,r,hr,rfl⟩
    · rintro ⟨p,hp,pd,hpd,r,hr,rfl⟩
      exact ⟨p,hp,_,paramReferences_eq hpd,List.mem_map.mpr ⟨r,hr,rfl⟩⟩

theorem actionsReferences_eq_ok {values : List (List ReferencedValue)} : actionsReferences info e = .ok values ↔
    ((∃ a,e.action = some (.action a)) ∨ ∃ actions,e.action = some (.actionProfileActionSet actions)) ∧
      e.actions.mapM (actionReferences info) = .ok values := by
  unfold actionsReferences TableEntry.actions
  match e.action with
  | some (.action a) =>
    simp only [map_eq_ok,mapM_eq_ok]
    constructor
    · rintro ⟨b,hb,rfl⟩
      exact ⟨.inl ⟨a,rfl⟩,.cons hb .nil⟩
    · rintro ⟨-,_ | ⟨hb,_ | _⟩⟩
      exact ⟨_,hb,rfl⟩
  | some (.actionProfileActionSet actions) =>
    simp only [mapM_eq_ok,List.forall₂_map_left_iff]
    exact ⟨fun h => ⟨.inr ⟨actions,rfl⟩,h⟩,fun h => h.2⟩
  | some (.actionProfileMemberId _) => simp
  | some (.actionProfileGroupId _) => simp
  | some .notSet => simp
  | none => simp

theorem entryReferences_ok_iff (h : Translates info e table) :
    (∃ values,entryReferences info e = .ok values) ↔ Sequenceable info e := by
  have htable := tableOf_eq_ok.mpr h.found
  have hmatches : (∃ values,e.matches_.mapM (matchReferences table) = .ok values) ↔ ∀ m ∈ e.matches_,∀ d,
      table.matchFieldsById.lookup m.fieldId = some d → d.references ≠ [] →
        d.matchField.matchType = .exact ∨ d.matchField.matchType = .optional := by
    rw [exists_mapM_eq_ok]
    refine forall₂_congr fun m hm => ⟨fun hok d hd => (matchReferences_ok_iff h hm hd).mp hok,fun hall => ?_⟩
    obtain ⟨d,hd,-⟩ := h.matches_ m hm
    exact (matchReferences_ok_iff h hm hd).mpr (hall d hd)
  have hactions : ∃ values,e.actions.mapM (actionReferences info) = .ok values := by
    refine exists_mapM_eq_ok.mpr fun a ha => ?_
    obtain ⟨d,hd,hparams⟩ := h.actions a ha
    obtain ⟨values,hvalues,-⟩ := actionReferences_spec hd hparams
    exact ⟨values,hvalues⟩
  constructor
  · rintro ⟨values,hvalues⟩
    obtain ⟨table',htable',hvalues⟩ := bind_eq_ok.mp hvalues
    cases htable.symm.trans htable'
    obtain ⟨fromMatches,hfromMatches,hvalues⟩ := bind_eq_ok.mp hvalues
    obtain ⟨fromActions,hfromActions,-⟩ := bind_eq_ok.mp hvalues
    refine ⟨fun table' htable' => ?_,(actionsReferences_eq_ok.mp hfromActions).1⟩
    cases h.found.symm.trans htable'
    exact hmatches.mp ⟨_,hfromMatches⟩
  · intro hseq
    obtain ⟨fromMatches,hfromMatches⟩ := hmatches.mpr (hseq.references table h.found)
    obtain ⟨fromActions,hfromActions⟩ := hactions
    exact ⟨_,bind_eq_ok.mpr ⟨table,htable,bind_eq_ok.mpr ⟨fromMatches,hfromMatches,
      bind_eq_ok.mpr ⟨fromActions,actionsReferences_eq_ok.mpr ⟨hseq.action,hfromActions⟩,rfl⟩⟩⟩⟩

theorem mem_entryReferences (h : Translates info e table) {values : List ReferencedValue}
    (hvalues : entryReferences info e = .ok values) :
    x ∈ values ↔ ∃ r v,Mentions info e r v ∧ x = (r.table,r.matchField,v) := by
  obtain ⟨table',htable',hvalues⟩ := bind_eq_ok.mp hvalues
  cases (tableOf_eq_ok.mpr h.found).symm.trans htable'
  obtain ⟨fromMatches,hfromMatches,hvalues⟩ := bind_eq_ok.mp hvalues
  obtain ⟨fromActions,hfromActions,hvalues⟩ := bind_eq_ok.mp hvalues
  cases hvalues
  rw [List.mem_append,mem_flatten_of_mapM hfromMatches,mem_flatten_of_mapM (actionsReferences_eq_ok.mp hfromActions).2]
  constructor
  · rintro (⟨m,hm,b,hb,hx⟩ | ⟨a,ha,b,hb,hx⟩)
    · obtain ⟨d,hd,-⟩ := h.matches_ m hm
      obtain ⟨r,hr,v,hv,rfl⟩ := (mem_matchReferences h hm hd hb).mp hx
      exact ⟨r,v,.matchField h.found hm hd hr hv,rfl⟩
    · obtain ⟨d,hd,hparams⟩ := h.actions a ha
      obtain ⟨b',hb',hmem⟩ := actionReferences_spec hd hparams
      cases hb.symm.trans hb'
      obtain ⟨p,hp,pd,hpd,r,hr,rfl⟩ := (hmem x).mp hx
      exact ⟨r,p.value,.param ha hd hp hpd hr,rfl⟩
  · rintro ⟨r,v,hmentions,rfl⟩
    cases hmentions with
    | matchField htable hm hd hr hv =>
      cases h.found.symm.trans htable
      obtain ⟨b,-,hb⟩ := exists_of_forall₂_left (mapM_eq_ok.mp hfromMatches) hm
      exact .inl ⟨_,hm,b,hb,(mem_matchReferences h hm hd hb).mpr ⟨r,hr,v,hv,rfl⟩⟩
    | param ha hd hp hpd hr =>
      obtain ⟨b,-,hb⟩ := exists_of_forall₂_left (mapM_eq_ok.mp (actionsReferences_eq_ok.mp hfromActions).2) ha
      obtain ⟨d',hd',hparams⟩ := h.actions _ ha
      cases hd.symm.trans hd'
      obtain ⟨b',hb',hmem⟩ := actionReferences_spec hd hparams
      cases hb.symm.trans hb'
      exact .inr ⟨_,ha,b,hb,(hmem _).mpr ⟨_,hp,_,hpd,r,hr,rfl⟩⟩

end Loops

section Graph
variable {info : IrP4Info} {updates : List Update}

def AllTranslate (info : IrP4Info) (updates : List Update) : Prop :=
  ∀ u ∈ updates,∃ table,Translates info (entityTableEntry u.entity) table

def AllSequenceable (info : IrP4Info) (updates : List Update) : Prop :=
  ∀ u ∈ updates,Sequenceable info (entityTableEntry u.entity)

theorem mem_of_mem_zipIdx {u : Update × Nat} (hu : u ∈ updates.zipIdx) : u.1 ∈ updates :=
  List.mem_of_getElem? (List.mem_zipIdx_iff_getElem?.mp hu)

theorem dependencyEdge_eq_some {current referred : UpdateType} {c r i j : Nat} :
    dependencyEdge current referred c r = some (i,j) ↔
      ((current = .insert ∨ current = .modify) ∧ referred = .insert ∧ i = r ∧ j = c) ∨
        (current = .delete ∧ referred = .delete ∧ i = c ∧ j = r) := by
  unfold dependencyEdge
  split_ifs with hinsert hdelete
  · have hnot : current ≠ .delete := by
      rintro rfl
      simp at hinsert
    simp [hinsert,hnot,eq_comm]
  · simp [hdelete,eq_comm]
  · simp only [false_iff]
    rintro (⟨hcurrent,hreferred,-⟩ | ⟨hcurrent,hreferred,-⟩)
    · exact hinsert ⟨hcurrent,hreferred⟩
    · exact hdelete ⟨hcurrent,hreferred⟩

theorem typeAt_eq {i : Nat} {u : Update} (h : updates[i]? = some u) : typeAt updates i = u.type := by
  simp [typeAt,h]

theorem Mentions.listed {e : TableEntry} {r : IrMatchFieldReference} {v : Bytes} (hrefs : info.ReferencesListed)
    (h : Mentions info e r v) : r ∈ info.references := by
  cases h with
  | matchField htable _ hd hr _ =>
    exact hrefs.matchFields _ (mem_of_lookup_eq_some htable) _ (mem_of_lookup_eq_some hd) r hr
  | param _ hd _ hpd hr => exact hrefs.params _ (mem_of_lookup_eq_some hd) _ (mem_of_lookup_eq_some hpd) r hr

private theorem indices_spec (hinfo : info.WellFormed) (hrefs : info.ReferencesListed) (h : AllTranslate info updates) :
    ∃ indices,(updates.zipIdx.mapM fun u =>
        (referableValues info (entityTableEntry u.1.entity)).map fun values => values.map fun v => (v,u.2)) = .ok indices ∧
      ∀ r ∈ info.references,∀ v i,((r.table,r.matchField,v),i) ∈ indices.flatten ↔
        ∃ u,updates[i]? = some u ∧ HasValue info (entityTableEntry u.entity) r v := by
  have hok : ∀ u ∈ updates.zipIdx,∃ b,((referableValues info (entityTableEntry u.1.entity)).map fun values =>
      values.map fun v => (v,u.2)) = .ok b := by
    intro u hu
    obtain ⟨table,htable⟩ := h u.1 (mem_of_mem_zipIdx hu)
    obtain ⟨values,hvalues,-⟩ := referableValues_spec hinfo hrefs htable
    exact ⟨_,map_eq_ok.mpr ⟨values,hvalues,rfl⟩⟩
  obtain ⟨indices,hindices⟩ := exists_mapM_eq_ok.mpr hok
  refine ⟨indices,hindices,fun r hr v i => ?_⟩
  rw [mem_flatten_of_mapM hindices]
  constructor
  · rintro ⟨u,hu,b,hb,hmem⟩
    obtain ⟨values,hvalues,rfl⟩ := map_eq_ok.mp hb
    obtain ⟨v',hv',heq⟩ := List.mem_map.mp hmem
    obtain ⟨rfl,rfl⟩ := Prod.mk.inj heq
    obtain ⟨table,htable⟩ := h u.1 (mem_of_mem_zipIdx hu)
    obtain ⟨values',hvalues',hspec⟩ := referableValues_spec hinfo hrefs htable
    cases hvalues.symm.trans hvalues'
    exact ⟨u.1,List.mem_zipIdx_iff_getElem?.mp hu,(hspec r hr v).mp hv'⟩
  · rintro ⟨u,hu,hvalue⟩
    obtain ⟨table,htable⟩ := h u (List.mem_of_getElem? hu)
    obtain ⟨values,hvalues,hspec⟩ := referableValues_spec hinfo hrefs htable
    exact ⟨(u,i),List.mem_zipIdx_iff_getElem?.mpr hu,_,map_eq_ok.mpr ⟨values,hvalues,rfl⟩,
      List.mem_map.mpr ⟨_,(hspec r hr v).mpr hvalue,rfl⟩⟩

theorem mem_recordDependencies {current : Nat} {indices : List (ReferencedValue × Nat)} {value : ReferencedValue} {i j : Nat} :
    (i,j) ∈ recordDependenciesForReferencedValue updates current indices value ↔
      ∃ referred,(value,referred) ∈ indices ∧
        dependencyEdge (typeAt updates current) (typeAt updates referred) current referred = some (i,j) := by
  unfold recordDependenciesForReferencedValue
  rw [List.mem_filterMap]
  constructor
  · rintro ⟨x,hx,hedge⟩
    obtain ⟨hmem,hvalue⟩ := List.mem_filter.mp hx
    obtain rfl : x.1 = value := of_decide_eq_true hvalue
    exact ⟨x.2,hmem,hedge⟩
  · rintro ⟨referred,hmem,hedge⟩
    exact ⟨(value,referred),List.mem_filter.mpr ⟨hmem,by simp⟩,hedge⟩

private theorem buildDependencyGraph_spec (hinfo : info.WellFormed) (hrefs : info.ReferencesListed) (h : AllTranslate info updates) :
    ((∃ graph,buildDependencyGraph info updates = .ok graph) ↔ AllSequenceable info updates) ∧
      ∀ graph,buildDependencyGraph info updates = .ok graph → ∀ i j,(i,j) ∈ graph ↔ MustPrecede info updates i j := by
  obtain ⟨indices,hindices,hindex⟩ := indices_spec hinfo hrefs h
  have hedges : (∃ edges,(updates.zipIdx.mapM fun u => (entryReferences info (entityTableEntry u.1.entity)).map fun values =>
      values.flatMap (recordDependenciesForReferencedValue updates u.2 indices.flatten)) = .ok edges) ↔
        AllSequenceable info updates := by
    rw [exists_mapM_eq_ok]
    constructor
    · intro hall u hu
      obtain ⟨i,hi⟩ := List.mem_iff_getElem?.mp hu
      obtain ⟨b,hb⟩ := hall (u,i) (List.mem_zipIdx_iff_getElem?.mpr hi)
      obtain ⟨values,hvalues,-⟩ := map_eq_ok.mp hb
      obtain ⟨table,htable⟩ := h u hu
      exact (entryReferences_ok_iff htable).mp ⟨values,hvalues⟩
    · intro hall u hu
      obtain ⟨table,htable⟩ := h u.1 (mem_of_mem_zipIdx hu)
      obtain ⟨values,hvalues⟩ := (entryReferences_ok_iff htable).mpr (hall u.1 (mem_of_mem_zipIdx hu))
      exact ⟨_,map_eq_ok.mpr ⟨values,hvalues,rfl⟩⟩
  refine ⟨⟨?_,?_⟩,?_⟩
  · rintro ⟨graph,hgraph⟩
    obtain ⟨indices',hindices',hgraph⟩ := bind_eq_ok.mp hgraph
    cases hindices.symm.trans hindices'
    obtain ⟨edges,hedges',-⟩ := bind_eq_ok.mp hgraph
    exact hedges.mp ⟨edges,hedges'⟩
  · intro hall
    obtain ⟨edges,hedges'⟩ := hedges.mpr hall
    exact ⟨_,bind_eq_ok.mpr ⟨indices,hindices,bind_eq_ok.mpr ⟨edges,hedges',rfl⟩⟩⟩
  · intro graph hgraph i j
    obtain ⟨indices',hindices',hgraph⟩ := bind_eq_ok.mp hgraph
    cases hindices.symm.trans hindices'
    obtain ⟨edges,hedges',hgraph⟩ := bind_eq_ok.mp hgraph
    cases hgraph
    rw [List.mem_toFinset,mem_flatten_of_mapM hedges']
    constructor
    · rintro ⟨u,hu,b,hb,hmem⟩
      obtain ⟨values,hvalues,rfl⟩ := map_eq_ok.mp hb
      obtain ⟨value,hvalue,hmem⟩ := List.mem_flatMap.mp hmem
      obtain ⟨table,htable⟩ := h u.1 (mem_of_mem_zipIdx hu)
      obtain ⟨r,v,hmentions,rfl⟩ := (mem_entryReferences htable hvalues).mp hvalue
      obtain ⟨referred,hreferred,hedge⟩ := mem_recordDependencies.mp hmem
      obtain ⟨u',hu',hhas⟩ := (hindex r (hmentions.listed hrefs) v referred).mp hreferred
      have hcurrent := List.mem_zipIdx_iff_getElem?.mp hu
      rw [typeAt_eq hcurrent,typeAt_eq hu'] at hedge
      rcases dependencyEdge_eq_some.mp hedge with ⟨htype,htype',rfl,rfl⟩ | ⟨htype,htype',rfl,rfl⟩
      · exact ⟨u',u.1,hu',hcurrent,.inl ⟨htype,htype',r,v,hmentions,hhas⟩⟩
      · exact ⟨u.1,u',hcurrent,hu',.inr ⟨htype,htype',r,v,hmentions,hhas⟩⟩
    · have hmem : ∀ current referred u u',updates[current]? = some u → updates[referred]? = some u' →
          RefersTo info (entityTableEntry u.entity) (entityTableEntry u'.entity) →
          dependencyEdge u.type u'.type current referred = some (i,j) →
          ∃ a ∈ updates.zipIdx,∃ b,((entryReferences info (entityTableEntry a.1.entity)).map fun values =>
            values.flatMap (recordDependenciesForReferencedValue updates a.2 indices.flatten)) = .ok b ∧ (i,j) ∈ b := by
        rintro current referred u u' hu hu' ⟨r,v,hmentions,hhas⟩ hedge
        have hzip := List.mem_zipIdx_iff_getElem?.mpr (show updates[((u,current) : Update × Nat).2]? = some u from hu)
        obtain ⟨b,-,hb⟩ := exists_of_forall₂_left (mapM_eq_ok.mp hedges') hzip
        obtain ⟨values,hvalues,rfl⟩ := map_eq_ok.mp hb
        obtain ⟨table,htable⟩ := h u (List.mem_of_getElem? hu)
        refine ⟨(u,current),hzip,_,hb,List.mem_flatMap.mpr ⟨_,(mem_entryReferences htable hvalues).mpr ⟨r,v,hmentions,rfl⟩,?_⟩⟩
        refine mem_recordDependencies.mpr ⟨referred,(hindex r (hmentions.listed hrefs) v referred).mpr ⟨u',hu',hhas⟩,?_⟩
        rw [typeAt_eq hu,typeAt_eq hu']
        exact hedge
      rintro ⟨u,u',hu,hu',⟨htype,htype',hrefers⟩ | ⟨htype,htype',hrefers⟩⟩
      · exact hmem j i u' u hu' hu hrefers (dependencyEdge_eq_some.mpr (.inl ⟨htype,htype',rfl,rfl⟩))
      · exact hmem i j u u' hu hu' hrefers (dependencyEdge_eq_some.mpr (.inr ⟨htype,htype',rfl,rfl⟩))

end Graph

section Batches
variable {info : IrP4Info} {updates : List Update} {batches : List (List Nat)}

/-- Batches that hold every update once, in order, each as early as the constraints allow. -/
structure EarliestBatches (info : IrP4Info) (updates : List Update) (batches : List (List Nat)) : Prop where
  partition : batches.flatten.Perm (List.range updates.length)
  ascending : ∀ batch ∈ batches,batch.Pairwise (· < ·)
  ordered : ∀ i j,MustPrecede info updates i j → ∃ (k l : Nat) (b b' : List Nat),k < l ∧ batches[k]? = some b ∧ i ∈ b ∧
    batches[l]? = some b' ∧ j ∈ b'
  earliest : ∀ f : Nat → Nat,(∀ i j,MustPrecede info updates i j → f i < f j) → ∀ k batch,batches[k]? = some batch →
    ∀ i ∈ batch,k ≤ f i

def CyclicConstraints (info : IrP4Info) (updates : List Update) : Prop :=
  ∃ i,Relation.TransGen (MustPrecede info updates) i i

theorem MustPrecede.lt_length {i j : Nat} (h : MustPrecede info updates i j) : i < updates.length ∧ j < updates.length := by
  obtain ⟨u,v,hu,hv,-⟩ := h
  exact ⟨(List.getElem?_eq_some_iff.mp hu).1,(List.getElem?_eq_some_iff.mp hv).1⟩

theorem cyclicGraph_code : cyclicGraph.code = .invalidArgument := rfl

private theorem peel_constraints {graph : Finset (Nat × Nat)} (hgraph : ∀ i j,(i,j) ∈ graph ↔ MustPrecede info updates i j)
    {rounds : Nat} (hrounds : updates.length < rounds) :
    ∃ batches left,peel rounds ((List.range updates.length).filter fun v => inDegree graph v = 0) graph = some (batches,left) ∧
      (left = ∅ ↔ ¬ CyclicConstraints info updates) ∧ (left = ∅ → EarliestBatches info updates batches) := by
  have hends : ∀ i j,(i,j) ∈ graph → i ∈ Finset.range updates.length ∧ j ∈ Finset.range updates.length := by
    intro i j hedge
    simpa using ((hgraph i j).mp hedge).lt_length
  have hstart : Frontier (Finset.range updates.length) graph ∅
      ((List.range updates.length).filter fun v => inDegree graph v = 0) graph :=
    Frontier.start (by simp) (List.nodup_range.filter _)
  obtain ⟨batches,final,hpeel,hlayers⟩ := peel_spec hends hstart (by simpa using hrounds)
  have hacyclic := hlayers.left_eq_empty_iff hends
  have hcyclic : Cyclic graph ↔ CyclicConstraints info updates := by
    unfold Cyclic CyclicConstraints
    simp only [hgraph]
  refine ⟨batches,_,hpeel,hacyclic.trans (not_congr hcyclic),fun hempty => ?_⟩
  have hsome : ∀ i,i ∈ Finset.range updates.length → i ∈ batches.flatten := by
    intro i hi
    refine (hlayers.partition.2 i).mpr ⟨?_,by simp⟩
    by_contra hnew
    obtain ⟨w,hw,hleft⟩ := hlayers.pred_of_not_final hi hnew
    exact Finset.filter_eq_empty_iff.mp hempty hw hleft
  refine ⟨?_,hlayers.sorted,?_,?_⟩
  · refine (List.perm_ext_iff_of_nodup hlayers.partition.1 List.nodup_range).mpr fun i => ?_
    rw [List.mem_range,← Finset.mem_range]
    exact ⟨fun hi => hlayers.mem_vertices (by simp) hi,hsome i⟩
  · intro i j hij
    obtain ⟨b',hb',hj⟩ := List.mem_flatten.mp (hsome j (hends i j ((hgraph i j).mpr hij)).2)
    obtain ⟨l,hl⟩ := List.mem_iff_getElem?.mp hb'
    obtain ⟨k,hk,b,hb,hi⟩ := (hlayers.ordered ((hgraph i j).mpr hij) hl hj).resolve_left (by simp)
    exact ⟨k,l,b,b',hk,hb,hi,hl,hj⟩
  · intro f hf k batch hk i hi
    have hle := hlayers.earliest hends (fun u v huv => hf u v ((hgraph u v).mp huv)) (fun v _ _ => Nat.zero_le (f v)) hk hi
    simpa using hle

def NotCyclic (s : Status) : Prop := s ≠ cyclicGraph

private theorem matchReference_error (r : IrMatchFieldReference) : FailsWith NotCyclic (matchReference d value r) := by
  have hkind : NotCyclic (invalidArgument "Only exact or optional match fields can use @refers_to.") := by
    unfold NotCyclic
    decide
  unfold matchReference
  cases d.matchField.matchType <;> simp [hkind]

theorem lookup_error {κ α : Type} [DecidableEq κ] (m : List (κ × α)) (k : κ) (what : String) :
    FailsWith NotCyclic ((findPtrOrStatus m k).mapError (graphError what)) := by
  unfold findPtrOrStatus
  cases m.lookup k with
  | some v => simp [Except.mapError]
  | none =>
    simp only [Except.mapError,failsWith_error]
    intro heq
    have hcode := (congrArg Status.code heq).trans cyclicGraph_code
    cases hcode

theorem actionReferences_error (info : IrP4Info) (a : Action) : FailsWith NotCyclic (actionReferences info a) :=
  (lookup_error _ _ _).bind fun _ => (FailsWith.mapM (fun _ => (lookup_error _ _ _).map _) _).map _

private theorem actionsReferences_error (info : IrP4Info) (e : TableEntry) : FailsWith NotCyclic (actionsReferences info e) := by
  have hunsupported : unsupportedAction ≠ cyclicGraph := by
    intro heq
    have hcode : StatusCode.unimplemented = .invalidArgument := (congrArg Status.code heq).trans cyclicGraph_code
    cases hcode
  have hmembers : ∀ a : ActionProfileAction,FailsWith NotCyclic (actionReferences info a.action) :=
    fun a => actionReferences_error info a.action
  unfold actionsReferences
  match e.action with
  | some (.action a) => exact (actionReferences_error info a).map _
  | some (.actionProfileActionSet actions) => exact FailsWith.mapM hmembers actions
  | some (.actionProfileMemberId _) => exact (failsWith_error _).mpr hunsupported
  | some (.actionProfileGroupId _) => exact (failsWith_error _).mpr hunsupported
  | some .notSet => exact (failsWith_error _).mpr hunsupported
  | none => exact (failsWith_error _).mpr hunsupported

private theorem buildDependencyGraph_error (info : IrP4Info) (updates : List Update) :
    FailsWith NotCyclic (buildDependencyGraph info updates) := by
  have hreferable : ∀ e,FailsWith NotCyclic (referableValues info e) := fun e =>
    (lookup_error _ _ _).bind fun table => (FailsWith.mapM (fun r => ((lookup_error _ _ _).map _).map _) _).bind fun _ =>
      failsWith_ok _
  have hreferences : ∀ e,FailsWith NotCyclic (entryReferences info e) := fun e =>
    (lookup_error _ _ _).bind fun table =>
      (FailsWith.mapM (fun m => (lookup_error _ _ _).bind fun d => FailsWith.mapM matchReference_error _) _).bind fun _ =>
        (actionsReferences_error info e).bind fun _ => failsWith_ok _
  exact (FailsWith.mapM (fun u => (hreferable _).map _) _).bind fun _ =>
    (FailsWith.mapM (fun u => (hreferences _).map _) _).bind fun _ => failsWith_ok _

variable [InetText] {options : TranslationOptions}

omit [InetText] in
private theorem sequencePiUpdatesInPlace_spec (hinfo : info.WellFormed) (hrefs : info.ReferencesListed)
    (h : AllTranslate info updates) {rounds : Nat} (hrounds : updates.length < rounds) :
    ∃ r,sequencePiUpdatesInPlace rounds info updates = some r ∧
      (∀ batches,r = .ok batches → EarliestBatches info updates batches) ∧
      ((∃ batches,r = .ok batches) ↔ AllSequenceable info updates ∧ ¬ CyclicConstraints info updates) ∧
      (r = .error cyclicGraph ↔ AllSequenceable info updates ∧ CyclicConstraints info updates) := by
  obtain ⟨hexists,hspec⟩ := buildDependencyGraph_spec hinfo hrefs h
  unfold sequencePiUpdatesInPlace
  cases hgraph : buildDependencyGraph info updates with
  | error status =>
    have hnot : ¬ AllSequenceable info updates := by
      rw [← hexists,hgraph]
      simp
    have hstatus : status ≠ cyclicGraph := buildDependencyGraph_error info updates status hgraph
    exact ⟨.error status,rfl,by simp,by simp [hnot],by simp [hnot,hstatus]⟩
  | ok graph =>
    have hall : AllSequenceable info updates := hexists.mp ⟨graph,hgraph⟩
    obtain ⟨batches,left,hpeel,hleft,hbatches⟩ := peel_constraints (hspec graph hgraph) hrounds
    simp only [hpeel,Option.map_some]
    refine ⟨_,rfl,?_⟩
    by_cases hempty : left = ∅
    · have hacyclic := hleft.mp hempty
      rw [if_neg (by simp [hempty])]
      refine ⟨?_,by simp [hall,hacyclic],by simp [hacyclic]⟩
      rintro _ ⟨⟩
      exact hbatches hempty
    · have hcyclic : CyclicConstraints info updates := by
        by_contra hacyclic
        exact hempty (hleft.mpr hacyclic)
      rw [if_pos (by simpa using hempty)]
      exact ⟨by simp,by simp [hcyclic],by simp [hall,hcyclic]⟩

/-- Updates of entries that translate are put into the earliest batches, unless an entry
is not sequenceable or the constraints are cyclic. -/
theorem sequenced_in_earliest_batches (hinfo : info.WellFormed) (hrefs : info.ReferencesListed)
    (hoptions : options.keyOnly = false)
    (htranslate : ∀ u ∈ updates,∃ e ir,u.entity = .tableEntry e ∧ piTableEntryToIr info e options = .ok ir)
    {rounds : Nat} (hrounds : updates.length < rounds) :
    ∃ r,sequencePiUpdatesInPlace rounds info updates = some r ∧
      (∀ batches,r = .ok batches → EarliestBatches info updates batches) ∧
      ((∃ batches,r = .ok batches) ↔ AllSequenceable info updates ∧ ¬ CyclicConstraints info updates) ∧
      (r = .error cyclicGraph ↔ AllSequenceable info updates ∧ CyclicConstraints info updates) := by
  refine sequencePiUpdatesInPlace_spec hinfo hrefs (fun u hu => ?_) hrounds
  obtain ⟨e,ir,hentity,hir⟩ := htranslate u hu
  rw [hentity]
  exact piTableEntryToIr_translates hoptions hir

end Batches

attribute [local instance] uncompressedInet

/-- A table whose only match field, of eight bits, has the given references. -/
def sampleTable (id : UInt32) (name : String) (references : List IrMatchFieldReference)
    (entryActions : List IrActionDefinition) : IrTableDefinition where
  preamble := { id := id,aliasName := name }
  matchFieldsById := [(1,{ matchField := { id := 1,name := "id",bitwidth := 8,matchType := .exact },references := references })]
  matchFieldsByName := [("id",{ matchField := { id := 1,name := "id",bitwidth := 8,matchType := .exact },references := references })]
  entryActions := entryActions

def sampleInfo (tables : List IrTableDefinition) (actions : List IrActionDefinition)
    (references : List IrMatchFieldReference) : IrP4Info where
  tablesById := tables.map fun t => (t.preamble.id,t)
  tablesByName := tables.map fun t => (t.preamble.aliasName,t)
  actionsById := actions.map fun a => (a.preamble.id,a)
  actionsByName := actions.map fun a => (a.preamble.aliasName,a)
  references := references

def sampleInsert (tableId : UInt32) (action : Option TableAction) : Update :=
  ⟨.insert,.tableEntry { tableId := tableId,matches_ := [⟨1,.exact [7]⟩],action := action }⟩

/-- The entries of this table refer to themselves and have no action. -/
def loopInfo : IrP4Info := sampleInfo [sampleTable 1 "node" [⟨"node","id"⟩] []] [] [⟨"node","id"⟩]

/-- The constraints are cyclic, and it is the missing action that is reported. -/
theorem cycle_not_reported : loopInfo.WellFormed ∧ loopInfo.ReferencesListed ∧
    (∃ ir,piTableEntryToIr loopInfo (entityTableEntry (sampleInsert 1 none).entity) {} = .ok ir) ∧
    CyclicConstraints loopInfo [sampleInsert 1 none] ∧
    sequencePiUpdatesInPlace 2 loopInfo [sampleInsert 1 none] = some (.error unsupportedAction) ∧
    unsupportedAction ≠ cyclicGraph := by
  refine ⟨by decide,⟨by decide,by decide,?_⟩,?_,⟨0,.single ⟨_,_,rfl,rfl,.inl ⟨.inl rfl,rfl,⟨"node","id"⟩,[7],?_,?_⟩⟩⟩,by decide,by decide⟩
  · intro r hr table htable
    obtain rfl := List.mem_singleton.mp hr
    cases htable
    rfl
  · have hok : (piTableEntryToIr loopInfo (entityTableEntry (sampleInsert 1 none).entity) {}).map (fun _ => ()) = .ok () := by
      decide
    obtain ⟨ir,hir,-⟩ := map_eq_ok.mp hok
    exact ⟨ir,hir⟩
  · exact .matchField rfl (List.mem_singleton.mpr rfl) rfl (List.mem_singleton.mpr rfl) rfl
  · exact ⟨_,_,rfl,rfl,rfl,_,List.mem_singleton.mpr rfl,rfl,rfl⟩

def noActionDefinition : IrActionDefinition := { preamble := { id := 9,aliasName := "no_action" } }

/-- Entries of the second table refer to those of the first. -/
def chainInfo : IrP4Info :=
  sampleInfo [sampleTable 1 "neighbor" [] [noActionDefinition],sampleTable 2 "nexthop" [⟨"neighbor","id"⟩] [noActionDefinition]]
    [noActionDefinition] [⟨"neighbor","id"⟩]

def chainUpdates : List Update :=
  [sampleInsert 2 (some (.action ⟨9,[]⟩)),sampleInsert 1 (some (.action ⟨9,[]⟩))]

private theorem chainInfo_references : chainInfo.ReferencesListed where
  matchFields := by decide
  params := by decide
  exist := by
    intro r hr table htable
    obtain rfl := List.mem_singleton.mp hr
    cases htable
    rfl

/-- A nexthop and the neighbor it refers to come in two batches, the neighbor first. -/
theorem nexthop_after_neighbor :
    ∃ batches,sequencePiUpdatesInPlace 3 chainInfo chainUpdates = some (.ok batches) ∧ batches = [[1],[0]] ∧
      EarliestBatches chainInfo chainUpdates batches := by
  have htranslate : ∀ u ∈ chainUpdates,∃ e ir,u.entity = .tableEntry e ∧ piTableEntryToIr chainInfo e {} = .ok ir := by
    have hok : ∀ u ∈ chainUpdates,u.entity = .tableEntry (entityTableEntry u.entity) ∧
        (piTableEntryToIr chainInfo (entityTableEntry u.entity) {}).map (fun _ => ()) = .ok () := by decide
    intro u hu
    obtain ⟨hentity,hok⟩ := hok u hu
    obtain ⟨ir,hir,-⟩ := map_eq_ok.mp hok
    exact ⟨_,ir,hentity,hir⟩
  obtain ⟨r,hr,hbatches,-⟩ := sequenced_in_earliest_batches (by decide) chainInfo_references rfl htranslate
    (show chainUpdates.length < 3 by decide)
  have hrun : sequencePiUpdatesInPlace 3 chainInfo chainUpdates = some (.ok [[1],[0]]) := by decide +kernel
  cases hr.symm.trans hrun
  exact ⟨_,hrun,rfl,hbatches _ rfl⟩

end SonicPins.Pdpi
