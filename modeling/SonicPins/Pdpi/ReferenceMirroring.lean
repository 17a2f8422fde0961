import SonicPins.Pdpi.DefinitionIndexing

/-! Every reference of a P4Info is attached to its source and to its destination table, once each. -/
namespace SonicPins.Pdpi
open Lib References

variable {name : String} {t : IrTableDefinition} {e' : ReferenceEnd}

section Loops
variable {α ε : Type}

theorem forM_eq_ok {f : α → Except ε Unit} {l : List α} (h : l.forM f = .ok ()) : ∀ a ∈ l,f a = .ok () := by
  induction l with
  | nil => exact nofun
  | cons a l ih =>
    obtain ⟨ha,hl⟩ := then_eq_ok.mp h
    exact List.forall_mem_cons.mpr ⟨ha,ih hl⟩

end Loops

section Frame
variable {info info' : IrP4Info}

def IrTableDefinition.withoutReferences (t : IrTableDefinition) : IrTableDefinition :=
  { t with incomingReferences := [],outgoingReferences := [] }

/-- The P4Info as it is before references are attached to its tables. -/
def IrP4Info.withoutReferences (info : IrP4Info) : IrP4Info :=
  { info with
    tablesById := info.tablesById.map fun x => (x.1,x.2.withoutReferences)
    tablesByName := info.tablesByName.map fun x => (x.1,x.2.withoutReferences)
    builtInTables := info.builtInTables.map fun x => (x.1,{}) }

theorem lookup_tablesByName_of_same (h : info'.withoutReferences = info.withoutReferences)
    (ht : info.tablesByName.lookup name = some t) :
    ∃ t',info'.tablesByName.lookup name = some t' ∧ t'.withoutReferences = t.withoutReferences := by
  have hlookup := congrArg (fun i => i.tablesByName.lookup name) h
  simp only [IrP4Info.withoutReferences,lookup_mapValues,ht] at hlookup
  exact Option.map_eq_some_iff.mp hlookup

theorem lookup_tablesById_of_same (h : info'.withoutReferences = info.withoutReferences) {id : UInt32}
    (ht : info.tablesById.lookup id = some t) :
    ∃ t',info'.tablesById.lookup id = some t' ∧ t'.withoutReferences = t.withoutReferences := by
  have hlookup := congrArg (fun i => i.tablesById.lookup id) h
  simp only [IrP4Info.withoutReferences,lookup_mapValues,ht] at hlookup
  exact Option.map_eq_some_iff.mp hlookup

private theorem actions_of_same (h : info'.withoutReferences = info.withoutReferences) : info'.actionsByName = info.actionsByName := by
  have hactions := congrArg IrP4Info.actionsByName h
  exact hactions

theorem IrTable.Known.of_same (h : info'.withoutReferences = info.withoutReferences) {table : IrTable} (htable : table.Known info) :
    table.Known info' := by
  cases table with
  | notSet => exact htable
  | builtInTable => exact htable
  | p4Table name id =>
    obtain ⟨hname,t,ht,hid⟩ := htable
    obtain ⟨t',ht',hsame⟩ := lookup_tablesByName_of_same h ht
    exact ⟨hname,t',ht',(congrArg (fun t => t.preamble.id) hsame).trans hid⟩

theorem IrTable.HasField.of_same (h : info'.withoutReferences = info.withoutReferences) {table : IrTable} {m : IrMatchField}
    (hfield : table.HasField info m) : table.HasField info' m := by
  cases table with
  | notSet => exact hfield
  | builtInTable => cases m <;> exact hfield
  | p4Table name id =>
    cases m with
    | notSet => exact hfield
    | builtInMatchField => exact hfield
    | p4MatchField f =>
      obtain ⟨t,d,ht,hd,hid,hoptional⟩ := hfield
      obtain ⟨t',ht',hsame⟩ := lookup_tablesByName_of_same h ht
      have hfields := congrArg (fun t => t.matchFieldsByName.lookup f.fieldName) hsame
      exact ⟨t',d,ht',hfields.trans hd,hid,hoptional⟩

theorem IrActionField.Known.of_same (h : info'.withoutReferences = info.withoutReferences) {a : IrActionField}
    (ha : a.Known info) : a.Known info' := by
  cases a with
  | notSet => exact ha
  | builtInActionField => exact ha
  | p4ActionField f =>
    obtain ⟨action,haction,hid⟩ := ha
    exact ⟨action,(actions_of_same h).symm ▸ haction,hid⟩

theorem IrTableReference.Sound.of_same (h : info'.withoutReferences = info.withoutReferences) {r : IrTableReference}
    (hr : r.Sound info) : r.Sound info' := by
  refine ⟨hr.source.of_same h,hr.destination.of_same h,hr.nonempty,fun f hf => ?_⟩
  obtain ⟨⟨m,hm,hfield⟩,hrequired,hsource⟩ := hr.fields f hf
  refine ⟨⟨m,hm,hfield.of_same h⟩,hrequired,?_⟩
  rcases hsource with ⟨m,hm,hfield⟩ | ⟨a,ha,hknown⟩
  · exact .inl ⟨m,hm,hfield.of_same h⟩
  · exact .inr ⟨a,ha,hknown.of_same h⟩

end Frame

section Insertion
variable {info info' : IrP4Info} {e : ReferenceEnd} {r : IrTableReference}

private theorem addTo_keeps (e : ReferenceEnd) (r : IrTableReference) : KeepsDefinition (e.addTo r) := by
  cases e with
  | source => exact ⟨fun _ => rfl,fun _ _ h =>
      ⟨h.matchFields,h.valid,h.entryActions,h.defaultOnlyActions,h.constDefaultAction,h.oneshot⟩⟩
  | destination => exact ⟨fun _ => rfl,fun _ _ h =>
      ⟨h.matchFields,h.valid,h.entryActions,h.defaultOnlyActions,h.constDefaultAction,h.oneshot⟩⟩

@[simp] theorem withoutReferences_addTo (e : ReferenceEnd) (r : IrTableReference) (t : IrTableDefinition) :
    (e.addTo r t).withoutReferences = t.withoutReferences := by
  cases e <;> rfl

@[simp] theorem references_addTo (e : ReferenceEnd) (r : IrTableReference) (t : IrTableDefinition) :
    e.references (e.addTo r t) = e.references t ++ [r] := by
  cases e <;> rfl

private theorem references_addTo_of_ne (h : e' ≠ e) (r : IrTableReference) (t : IrTableDefinition) :
    e'.references (e.addTo r t) = e'.references t := by
  cases e <;> cases e' <;> first | rfl | exact absurd rfl h

@[simp] theorem builtInReferences_addToBuiltIn (e : ReferenceEnd) (r : IrTableReference) (t : IrBuiltInTableDefinition) :
    e.builtInReferences (e.addToBuiltIn r t) = e.builtInReferences t ++ [r] := by
  cases e <;> rfl

private theorem builtInReferences_addToBuiltIn_of_ne (h : e' ≠ e) (r : IrTableReference) (t : IrBuiltInTableDefinition) :
    e'.builtInReferences (e.addToBuiltIn r t) = e'.builtInReferences t := by
  cases e <;> cases e' <;> first | rfl | exact absurd rfl h

theorem insertReferenceInfo_cases (h : insertReferenceInfo e r info = .ok info') :
    (∃ name id,e.table r = .p4Table name id ∧ info' = { info with
      tablesByName := changeAt name (e.addTo r) info.tablesByName
      tablesById := changeAt id (e.addTo r) info.tablesById }) ∨
    ∃ table name,e.table r = .builtInTable table ∧ irBuiltInTableToString table = .ok name ∧
      info' = { info with builtInTables := changeAt name (e.addToBuiltIn r) info.builtInTables } := by
  unfold insertReferenceInfo at h
  split at h
  · rename_i name id htable
    split at h
    · cases h
    · split at h
      · cases h
      · exact .inl ⟨name,id,htable,(Except.ok.inj h).symm⟩
  · rename_i table htable
    obtain ⟨name,hname,rfl⟩ := map_eq_ok.mp h
    exact .inr ⟨table,name,htable,hname,rfl⟩
  · cases h

theorem mapValues_changeAt {κ α β : Type} [DecidableEq κ] {f : α → β} {g : α → α} (hfg : ∀ v,f (g v) = f v) (key : κ)
    (m : List (κ × α)) : (changeAt key g m).map (fun x => (x.1,f x.2)) = m.map fun x => (x.1,f x.2) := by
  rw [changeAt,List.map_map]
  refine List.map_congr_left fun x _ => ?_
  simp only [Function.comp_apply]
  split
  · rw [hfg]
  · rfl

theorem insertReferenceInfo_same (h : insertReferenceInfo e r info = .ok info') :
    info'.withoutReferences = info.withoutReferences := by
  rcases insertReferenceInfo_cases h with ⟨name,id,-,rfl⟩ | ⟨table,name,-,-,rfl⟩
  · simp only [IrP4Info.withoutReferences,mapValues_changeAt (withoutReferences_addTo e r)]
  · have hbuiltIn := mapValues_changeAt (f := fun _ : IrBuiltInTableDefinition => ({} : IrBuiltInTableDefinition))
      (g := e.addToBuiltIn r) (fun _ => rfl) name info.builtInTables
    simp only [IrP4Info.withoutReferences,hbuiltIn]

theorem insertReferenceInfo_defined (h : info.Defined) (hknown : (e.table r).Known info)
    (hinfo : insertReferenceInfo e r info = .ok info') : info'.Defined := by
  rcases insertReferenceInfo_cases hinfo with ⟨name,id,htable,rfl⟩ | ⟨table,name,-,-,rfl⟩
  · rw [htable] at hknown
    obtain ⟨-,t,ht,rfl⟩ := hknown
    obtain ⟨rfl,hid⟩ := h.tables.lookup_id ht
    exact h.changeAt (addTo_keeps e r) (mem_of_lookup_eq_some hid)
  · exact ⟨h.tables,fun x hx => (h.table x hx).mono fun _ => id,h.actions,h.action,h.profiles,h.packetIn,h.packetOut⟩

end Insertion

section Attachment
variable {info info' : IrP4Info} {e : ReferenceEnd} {r : IrTableReference} {references done : List IrTableReference}

def IrTable.p4Name? : IrTable → Option String
  | .p4Table name _ => some name
  | _ => none

def IrTable.builtInName? : IrTable → Option String
  | .builtInTable table => (irBuiltInTableToString table).toOption
  | _ => none

/-- Each table has the references whose table it is, in their order. -/
structure Attached (e : ReferenceEnd) (references : List IrTableReference) (info : IrP4Info) : Prop where
  tables : ∀ x ∈ info.tablesByName,e.references x.2 = references.filter fun r => (e.table r).p4Name? = some x.1
  builtInTables : ∀ x ∈ info.builtInTables,e.builtInReferences x.2 = references.filter fun r => (e.table r).builtInName? = some x.1

theorem Attached.insert (h : Attached e references info) (hinfo : insertReferenceInfo e r info = .ok info') :
    Attached e (references ++ [r]) info' := by
  rcases insertReferenceInfo_cases hinfo with ⟨name,id,htable,rfl⟩ | ⟨table,name,htable,hname,rfl⟩
  · constructor
    · intro x hx
      rcases mem_changeAt.mp hx with ⟨hne,hx⟩ | ⟨t,rfl,ht⟩
      · rw [h.tables x hx,List.filter_append]
        simp [htable,IrTable.p4Name?,hne.symm]
      · rw [references_addTo,h.tables _ ht,List.filter_append]
        simp [htable,IrTable.p4Name?]
    · intro x hx
      rw [h.builtInTables x hx,List.filter_append]
      simp [htable,IrTable.builtInName?]
  · constructor
    · intro x hx
      rw [h.tables x hx,List.filter_append]
      simp [htable,IrTable.p4Name?]
    · intro x hx
      rcases mem_changeAt.mp hx with ⟨hne,hx⟩ | ⟨t,rfl,ht⟩
      · rw [h.builtInTables x hx,List.filter_append]
        simp [htable,IrTable.builtInName?,hname,hne.symm]
      · rw [builtInReferences_addToBuiltIn,h.builtInTables _ ht,List.filter_append]
        simp [htable,IrTable.builtInName?,hname]

theorem Attached.insert_other (h : Attached e' references info) (hne : e' ≠ e)
    (hinfo : insertReferenceInfo e r info = .ok info') : Attached e' references info' := by
  rcases insertReferenceInfo_cases hinfo with ⟨name,id,-,rfl⟩ | ⟨table,name,-,-,rfl⟩
  · refine ⟨fun x hx => ?_,h.builtInTables⟩
    rcases mem_changeAt.mp hx with ⟨-,hx⟩ | ⟨t,rfl,ht⟩
    · exact h.tables x hx
    · rw [references_addTo_of_ne hne]
      exact h.tables _ ht
  · refine ⟨h.tables,fun x hx => ?_⟩
    rcases mem_changeAt.mp hx with ⟨-,hx⟩ | ⟨t,rfl,ht⟩
    · exact h.builtInTables x hx
    · rw [builtInReferences_addToBuiltIn_of_ne hne]
      exact h.builtInTables _ ht

private theorem addTableReference_attached (h : ∀ e,Attached e references info) (hinfo : addTableReference info r = .ok info') :
    ∀ e,Attached e (references ++ [r]) info' := by
  obtain ⟨middle,hsource,hdestination⟩ := bind_eq_ok.mp hinfo
  intro e
  cases e with
  | source => exact ((h .source).insert hsource).insert_other (by decide) hdestination
  | destination => exact ((h .destination).insert_other (by decide) hsource).insert hdestination

private theorem addTableReferences_attached (h : ∀ e,Attached e done info) (hinfo : references.foldlM addTableReference info = .ok info') :
    ∀ e,Attached e (done ++ references) info' := by
  induction references generalizing done info with
  | nil =>
    cases hinfo
    simpa using h
  | cons r references ih =>
    rw [List.foldlM_cons] at hinfo
    obtain ⟨next,hnext,hinfo⟩ := bind_eq_ok.mp hinfo
    have hdone := ih (addTableReference_attached h hnext) hinfo
    rwa [List.append_assoc] at hdone

private theorem addTableReference_defined (h : info.Defined) (hr : r.Sound info) (hinfo : addTableReference info r = .ok info') :
    info'.Defined ∧ info'.withoutReferences = info.withoutReferences := by
  obtain ⟨middle,hsource,hdestination⟩ := bind_eq_ok.mp hinfo
  have hsame := insertReferenceInfo_same hsource
  have hmiddle : middle.Defined := insertReferenceInfo_defined (e := .source) h hr.source hsource
  exact ⟨insertReferenceInfo_defined (e := .destination) hmiddle (hr.destination.of_same hsame) hdestination,
    (insertReferenceInfo_same hdestination).trans hsame⟩

end Attachment

section Result
variable [UniqueInsertion] {p4Info : P4Info} {info : IrP4Info}

/-- Tables and action profiles name each other. -/
def IrP4Info.ProfilesMatch (info : IrP4Info) : Prop := ∀ tableId profileId,
  (∃ table,info.tablesById.lookup tableId = some table ∧ table.actionProfileId = some profileId) ↔
    ∃ profile,info.actionProfilesById.lookup profileId = some profile ∧ tableId ∈ profile.tableIds

/-- The IR form, with the references that are attached to its tables. -/
structure IrP4Info.Referenced (references : List IrTableReference) (info : IrP4Info) : Prop where
  defined : info.Defined
  profilesMatch : info.ProfilesMatch
  sound : ∀ r ∈ references,r.Sound info
  names : (references.map IrTableReference.names).Nodup
  attached : ∀ e,Attached e references info
  builtInTables : info.builtInTables.map Prod.fst = [getMulticastGroupTableName,getCloneSessionTableName]
  ranks : info.dependencyRankByTableName = []

omit [UniqueInsertion] in
private theorem validateDefinitions_eq_ok (h : validateDefinitions info = .ok ()) : info.ProfilesMatch := by
  obtain ⟨-,h⟩ := then_eq_ok.mp h
  obtain ⟨himplementations,hprofiles⟩ := then_eq_ok.mp h
  intro tableId profileId
  constructor
  · rintro ⟨table,htable,hprofile⟩
    have hvalid := forM_eq_ok himplementations _ (mem_of_lookup_eq_some htable)
    unfold validateImplementation at hvalid
    rw [hprofile] at hvalid
    obtain ⟨profile,hlookup,hvalid⟩ := bind_eq_ok.mp hvalid
    split at hvalid
    · rename_i hmem
      exact ⟨profile,findPtrOrStatus_eq_ok.mp (mapError_eq_ok.mp hlookup),hmem⟩
    · cases hvalid
  · rintro ⟨profile,hprofile,hmem⟩
    have hvalid := forM_eq_ok (forM_eq_ok hprofiles _ (mem_of_lookup_eq_some hprofile)) _ hmem
    obtain ⟨table,hlookup,hvalid⟩ := bind_eq_ok.mp hvalid
    split at hvalid
    · rename_i himplementation
      exact ⟨table,findPtrOrStatus_eq_ok.mp (mapError_eq_ok.mp hlookup),himplementation⟩
    · cases hvalid

omit [UniqueInsertion] in
theorem IrP4Info.ProfilesMatch.of_same {info' : IrP4Info} (h : info.ProfilesMatch)
    (hsame : info'.withoutReferences = info.withoutReferences) : info'.ProfilesMatch := by
  intro tableId profileId
  have hprofiles := congrArg (fun i => i.actionProfilesById.lookup profileId) hsame
  change info'.actionProfilesById.lookup profileId = info.actionProfilesById.lookup profileId at hprofiles
  rw [hprofiles,← h tableId profileId]
  constructor
  · rintro ⟨table,htable,hid⟩
    obtain ⟨t,ht,hwithout⟩ := lookup_tablesById_of_same hsame.symm htable
    exact ⟨t,ht,(congrArg IrTableDefinition.actionProfileId hwithout).trans hid⟩
  · rintro ⟨table,htable,hid⟩
    obtain ⟨t,ht,hwithout⟩ := lookup_tablesById_of_same hsame htable
    exact ⟨t,ht,(congrArg IrTableDefinition.actionProfileId hwithout).trans hid⟩

private theorem createUnranked_referenced (h : createUnranked p4Info = .ok info) : ∃ references,info.Referenced references := by
  obtain ⟨definitions,hdefinitions,h⟩ := bind_eq_ok.mp h
  obtain ⟨hvalid,h⟩ := then_eq_ok.mp h
  obtain ⟨references,hreferences,h⟩ := bind_eq_ok.mp (orFail_eq_ok.mp h)
  obtain ⟨hdefined,hnone⟩ := createDefinitions_defined hdefinitions
  obtain ⟨hsound,hnames⟩ := parseIrTableReferences_spec hreferences
  let before : IrP4Info := { definitions with builtInTables := [(getMulticastGroupTableName,{}),(getCloneSessionTableName,{})] }
  have hbefore : before.Defined := ⟨hdefined.tables,fun x hx => (hdefined.table x hx).mono fun _ => id,hdefined.actions,
    hdefined.action,hdefined.profiles,hdefined.packetIn,hdefined.packetOut⟩
  obtain ⟨hafter,hsame⟩ : info.Defined ∧ info.withoutReferences = before.withoutReferences := by
    refine foldlM_invariant (P := fun i : IrP4Info => i.Defined ∧ i.withoutReferences = before.withoutReferences)
      (fun i r i' hr hi hstep => ?_) ⟨hbefore,rfl⟩ h
    obtain ⟨hdefined,hstill⟩ := addTableReference_defined hi.1 ((hsound r hr).of_same hi.2) hstep
    exact ⟨hdefined,hstill.trans hi.2⟩
  have hempty : ∀ e,Attached e [] before := by
    intro e
    refine ⟨fun x hx => hnone.references x hx e,fun x hx => ?_⟩
    rcases List.mem_pair.mp hx with rfl | rfl <;> cases e <;> rfl
  refine ⟨references,hafter,?_,fun r hr => (hsound r hr).of_same hsame,hnames,addTableReferences_attached hempty h,?_,?_⟩
  · have hmatch : before.ProfilesMatch := validateDefinitions_eq_ok (orFail_eq_ok.mp hvalid)
    exact hmatch.of_same hsame
  · have hkeys := congrArg (fun i : IrP4Info => i.builtInTables.map Prod.fst) hsame
    simpa [IrP4Info.withoutReferences,before,Function.comp_def] using hkeys
  · have hranks := congrArg IrP4Info.dependencyRankByTableName hsame
    exact hranks.trans hnone.ranks

end Result

section Consistency

/-- The references of a table of the P4Info, or of a built-in table, at one of their ends. -/
def IrP4Info.referencesAt (info : IrP4Info) (e : ReferenceEnd) : IrTable → List IrTableReference
  | .p4Table name id => match info.tablesByName.lookup name with
    | some t => if t.preamble.id = id then e.references t else []
    | none => []
  | .builtInTable table => match irBuiltInTableToString table with
    | .ok name => ((info.builtInTables.lookup name).map e.builtInReferences).getD []
    | .error _ => []
  | .notSet => []

/-- The maps by id and by name hold the same objects, under their own ids and names; tables and
action profiles name each other; and the references of a table are those of the other tables. -/
structure IrP4Info.Consistent (info : IrP4Info) : Prop where
  tables : DoubleIndex info.tablesById info.tablesByName (fun t => t.preamble.id) (fun t => t.preamble.aliasName)
  matchFields : ∀ x ∈ info.tablesById,DoubleIndex x.2.matchFieldsById x.2.matchFieldsByName (fun d => d.matchField.id)
    (fun d => d.matchField.name)
  actions : DoubleIndex info.actionsById info.actionsByName (fun a => a.preamble.id) (fun a => a.preamble.aliasName)
  params : ∀ x ∈ info.actionsById,DoubleIndex x.2.paramsById x.2.paramsByName (fun d => d.param.id) (fun d => d.param.name)
  profiles : DoubleIndex info.actionProfilesById info.actionProfilesByName (fun p => p.preamble.id) (fun p => p.preamble.aliasName)
  packetIn : DoubleIndex info.packetInMetadataById info.packetInMetadataByName (fun d => d.metadata.id) (fun d => d.metadata.name)
  packetOut : DoubleIndex info.packetOutMetadataById info.packetOutMetadataByName (fun d => d.metadata.id)
    (fun d => d.metadata.name)
  profilesMatch : info.ProfilesMatch
  ownReferences : ∀ (e : ReferenceEnd),∀ x ∈ info.tablesByName,∀ r ∈ e.references x.2,e.table r = .p4Table x.1 x.2.preamble.id
  ownBuiltInReferences : ∀ (e : ReferenceEnd),∀ x ∈ info.builtInTables,∀ r ∈ e.builtInReferences x.2,
    (e.table r).builtInName? = some x.1
  mirrored : ∀ r,r ∈ info.referencesAt .source r.sourceTable ↔ r ∈ info.referencesAt .destination r.destinationTable
  once : ∀ e table,(info.referencesAt e table).Nodup

variable {info : IrP4Info} {references : List IrTableReference}

private theorem lookup_isSome_of_mem_keys {κ α : Type} [DecidableEq κ] {m : List (κ × α)} {k : κ} (h : k ∈ m.map Prod.fst) :
    ∃ v,m.lookup k = some v := by
  refine Option.isSome_iff_exists.mp (Option.isSome_iff_ne_none.mpr fun hnone => ?_)
  obtain ⟨x,hx,rfl⟩ := List.mem_map.mp h
  simpa using List.lookup_eq_none_iff.mp hnone x hx

theorem IrP4Info.Referenced.lookup_builtIn (h : info.Referenced references)
    (hname : name = getMulticastGroupTableName ∨ name = getCloneSessionTableName) :
    ∃ t,info.builtInTables.lookup name = some t := by
  refine lookup_isSome_of_mem_keys ?_
  rw [h.builtInTables]
  simpa using hname

theorem irBuiltInTableToString_of_known {table : IrBuiltInTable} (h : table ≠ .unspecified) :
    ∃ name,irBuiltInTableToString table = .ok name ∧ (name = getMulticastGroupTableName ∨ name = getCloneSessionTableName) := by
  cases table with
  | unspecified => exact absurd rfl h
  | multicastGroupTable => exact ⟨_,rfl,.inl rfl⟩
  | cloneSessionTable => exact ⟨_,rfl,.inr rfl⟩

theorem IrP4Info.Referenced.known (h : info.Referenced references) (e : ReferenceEnd) {r : IrTableReference} (hr : r ∈ references) :
    (e.table r).Known info := by
  cases e with
  | source => exact (h.sound r hr).source
  | destination => exact (h.sound r hr).destination

theorem IrP4Info.Referenced.mem_referencesAt (h : info.Referenced references) (e : ReferenceEnd) (r : IrTableReference) :
    r ∈ info.referencesAt e (e.table r) ↔ r ∈ references := by
  constructor
  · intro hr
    unfold IrP4Info.referencesAt at hr
    split at hr
    · split at hr
      · rename_i t ht
        split at hr
        · rw [(h.attached e).tables _ (mem_of_lookup_eq_some ht)] at hr
          exact (List.mem_filter.mp hr).1
        · cases hr
      · cases hr
    · split at hr
      · rename_i name hname
        cases ht : info.builtInTables.lookup name with
        | none => simp [ht] at hr
        | some t =>
          rw [ht,Option.map_some,Option.getD_some,(h.attached e).builtInTables _ (mem_of_lookup_eq_some ht)] at hr
          exact (List.mem_filter.mp hr).1
      · cases hr
    · cases hr
  · intro hr
    have hknown := h.known e hr
    cases htable : e.table r with
    | notSet =>
      rw [htable] at hknown
      exact hknown.elim
    | p4Table name id =>
      rw [htable] at hknown
      obtain ⟨-,t,ht,hid⟩ := hknown
      have hmem : r ∈ e.references t := by
        rw [(h.attached e).tables _ (mem_of_lookup_eq_some ht)]
        exact List.mem_filter.mpr ⟨hr,by simp [htable,IrTable.p4Name?]⟩
      simpa [IrP4Info.referencesAt,ht,hid] using hmem
    | builtInTable table =>
      rw [htable] at hknown
      obtain ⟨name,hname,hbuiltIn⟩ := irBuiltInTableToString_of_known hknown
      obtain ⟨t,ht⟩ := h.lookup_builtIn hbuiltIn
      have hmem : r ∈ e.builtInReferences t := by
        rw [(h.attached e).builtInTables _ (mem_of_lookup_eq_some ht)]
        exact List.mem_filter.mpr ⟨hr,by simp [htable,IrTable.builtInName?,hname]⟩
      simpa [IrP4Info.referencesAt,hname,ht] using hmem

theorem IrP4Info.Referenced.nodup_referencesAt (h : info.Referenced references) (e : ReferenceEnd) (table : IrTable) :
    (info.referencesAt e table).Nodup := by
  have hnodup : references.Nodup := h.names.of_map
  unfold IrP4Info.referencesAt
  split
  · split
    · rename_i t ht
      split
      · rw [(h.attached e).tables _ (mem_of_lookup_eq_some ht)]
        exact hnodup.filter _
      · exact List.nodup_nil
    · exact List.nodup_nil
  · split
    · rename_i name hname
      cases ht : info.builtInTables.lookup name with
      | none => exact List.nodup_nil
      | some t =>
        rw [Option.map_some,Option.getD_some,(h.attached e).builtInTables _ (mem_of_lookup_eq_some ht)]
        exact hnodup.filter _
    · exact List.nodup_nil
  · exact List.nodup_nil

theorem IrP4Info.Referenced.own (h : info.Referenced references) (e : ReferenceEnd) {x : String × IrTableDefinition}
    (hx : x ∈ info.tablesByName) {r : IrTableReference} (hr : r ∈ e.references x.2) : e.table r = .p4Table x.1 x.2.preamble.id := by
  rw [(h.attached e).tables x hx] at hr
  obtain ⟨hmem,hname⟩ := List.mem_filter.mp hr
  have hknown := h.known e hmem
  cases htable : e.table r with
  | notSet => simp [htable,IrTable.p4Name?] at hname
  | builtInTable => simp [htable,IrTable.p4Name?] at hname
  | p4Table name id =>
    rw [htable] at hknown
    obtain ⟨-,t,ht,rfl⟩ := hknown
    obtain rfl : name = x.1 := by simpa [htable,IrTable.p4Name?] using hname
    obtain rfl : x.2 = t := h.defined.tables.symm.eq_of_id hx (mem_of_lookup_eq_some ht)
    rfl

/-- References are never attached to a table that has the name of a built-in one. -/
theorem IrP4Info.Referenced.not_builtIn (h : info.Referenced references) (e : ReferenceEnd) {x : String × IrTableDefinition}
    (hx : x ∈ info.tablesByName) {r : IrTableReference} (hr : r ∈ e.references x.2) : isBuiltInTable x.1 = false := by
  have hmem := hr
  rw [(h.attached e).tables x hx] at hmem
  have hknown := h.known e (List.mem_filter.mp hmem).1
  rw [h.own e hx hr] at hknown
  exact hknown.1

theorem IrP4Info.Referenced.consistent (h : info.Referenced references) : info.Consistent where
  tables := h.defined.tables
  matchFields x hx := (h.defined.table x hx).matchFields
  actions := h.defined.actions
  params x hx := (h.defined.action x hx).params
  profiles := h.defined.profiles
  packetIn := h.defined.packetIn
  packetOut := h.defined.packetOut
  profilesMatch := h.profilesMatch
  ownReferences e x hx r hr := h.own e hx hr
  ownBuiltInReferences e x hx r hr := by
    rw [(h.attached e).builtInTables x hx] at hr
    simpa using (List.mem_filter.mp hr).2
  mirrored r := (h.mem_referencesAt .source r).trans (h.mem_referencesAt .destination r).symm
  once := h.nodup_referencesAt

end Consistency

variable {info : IrP4Info} {references : List IrTableReference}

theorem isKnownTable_of_builtIn (h : info.Referenced references)
    (hname : name = getMulticastGroupTableName ∨ name = getCloneSessionTableName) : isKnownTable info name = true := by
  obtain ⟨t,ht⟩ := h.lookup_builtIn hname
  refine isKnownTable_iff.mpr ⟨t.outgoingReferences,?_⟩
  have hbuiltIn : isBuiltInTable name = true := by
    rcases hname with rfl | rfl <;> rfl
  rw [outgoingReferences,if_pos hbuiltIn,map_eq_ok]
  exact ⟨t,findPtrOrStatus_eq_ok.mpr ht,rfl⟩

theorem isKnownTable_of_lookup (h : info.Referenced references)
    (ht : info.tablesByName.lookup name = some t) : isKnownTable info name = true := by
  by_cases hbuiltIn : isBuiltInTable name = true
  · refine isKnownTable_of_builtIn h ?_
    unfold isBuiltInTable stringToIrBuiltInTable at hbuiltIn
    split at hbuiltIn
    · exact .inl ‹_›
    · split at hbuiltIn
      · exact .inr ‹_›
      · cases hbuiltIn
  · refine isKnownTable_iff.mpr ⟨t.outgoingReferences,?_⟩
    rw [outgoingReferences,if_neg hbuiltIn,map_eq_ok]
    exact ⟨t,findPtrOrStatus_eq_ok.mpr ht,rfl⟩

theorem leadsToKnownTable_of_sound (h : info.Referenced references) {r : IrTableReference} (hr : r ∈ references) :
    leadsToKnownTable info r = true := by
  refine leadsToKnownTable_iff.mpr ?_
  have hknown := (h.sound r hr).destination
  cases htable : r.destinationTable with
  | notSet =>
    rw [htable] at hknown
    exact hknown.elim
  | p4Table name id =>
    rw [htable] at hknown
    obtain ⟨-,t,ht,-⟩ := hknown
    exact ⟨name,rfl,isKnownTable_of_lookup h ht⟩
  | builtInTable table =>
    rw [htable] at hknown
    obtain ⟨name,hname,hbuiltIn⟩ := irBuiltInTableToString_of_known hknown
    exact ⟨name,hname,isKnownTable_of_builtIn h hbuiltIn⟩

theorem IrP4Info.Referenced.tablesKnown (h : info.Referenced references) : info.TablesKnown where
  tables x hx := isKnownTable_of_lookup h (lookup_eq_some_of_mem h.defined.tables.nameNodup hx)
  builtInTables x hx := by
    have hkey : x.1 ∈ info.builtInTables.map Prod.fst := List.mem_map_of_mem hx
    rw [h.builtInTables] at hkey
    exact isKnownTable_of_builtIn h (by simpa using hkey)
  references x hx r hr := by
    have hr : r ∈ ReferenceEnd.source.references x.2 := hr
    rw [(h.attached .source).tables x hx] at hr
    exact leadsToKnownTable_of_sound h (List.mem_filter.mp hr).1
  builtInReferences x hx r hr := by
    have hr : r ∈ ReferenceEnd.source.builtInReferences x.2 := hr
    rw [(h.attached .source).builtInTables x hx] at hr
    exact leadsToKnownTable_of_sound h (List.mem_filter.mp hr).1

/-- The ranks of an IR form that is otherwise complete. -/
theorem IrP4Info.Referenced.ranked (h : info.Referenced references) : ∃ result,
    constructDependencyRankByTableName (info.tableNames.length + 1) (info.tablesByName.map Prod.fst)
        (info.builtInTables.map Prod.fst) info =
      some result ∧
    ∀ info',result = .ok info' → (∃ ranks,info' = { info with dependencyRankByTableName := ranks }) ∧
      ∀ source destination,RefersToTable info source destination → ∃ low high,
        info'.dependencyRankByTableName.lookup source = some low ∧ info'.dependencyRankByTableName.lookup destination =
          some high ∧ low < high := by
  have hdepth : (info.tablesByName.map Prod.fst).length + (info.builtInTables.map Prod.fst).length < info.tableNames.length + 1 := by
    rw [IrP4Info.tableNames,List.length_append]
    exact Nat.lt_succ_self _
  obtain ⟨result,hresult,-,hranks⟩ := constructDependencyRankByTableName_spec h.tablesKnown h.ranks (info.tablesByName.map Prod.fst)
    (info.builtInTables.map Prod.fst) (fun _ => Iff.rfl) (fun _ => Iff.rfl) _ hdepth
  refine ⟨result,hresult,fun info' hinfo => ?_⟩
  obtain ⟨hsame,-,hincrease⟩ := hranks info' hinfo
  exact ⟨hsame,hincrease⟩

variable [UniqueInsertion] {p4Info : P4Info}

theorem createIrP4Info_spec (p4Info : P4Info) : ∃ result,createIrP4Info p4Info = some result ∧
    ∀ info,result = .ok info → ∃ unranked references,createUnranked p4Info = .ok unranked ∧ unranked.Referenced references ∧
      ∃ ranks,info = { unranked with dependencyRankByTableName := ranks } := by
  unfold createIrP4Info
  cases hunranked : createUnranked p4Info with
  | error failure => exact ⟨_,rfl,nofun⟩
  | ok unranked =>
    obtain ⟨references,hreferences⟩ := createUnranked_referenced hunranked
    obtain ⟨result,hresult,hranks⟩ := hreferences.ranked
    refine ⟨orFail result,by simp only [hresult,Option.map_some],fun info hinfo => ?_⟩
    obtain ⟨hsame,-⟩ := hranks info (orFail_eq_ok.mp hinfo)
    exact ⟨unranked,references,rfl,hreferences,hsame⟩

/-- The translations rely on no more than what building the IR form checks. -/
theorem createIrP4Info_wellFormed (h : createIrP4Info p4Info = some (.ok info)) : info.WellFormed := by
  obtain ⟨result,hresult,hinfo⟩ := createIrP4Info_spec p4Info
  obtain rfl := Option.some.inj (h.symm.trans hresult)
  obtain ⟨unranked,references,-,hreferenced,ranks,rfl⟩ := hinfo info rfl
  refine ⟨hreferenced.defined.tables,fun x hx => ?_,hreferenced.defined.actions,hreferenced.defined.action,hreferenced.defined.profiles⟩
  have hbuilt := hreferenced.defined.table x hx
  refine ⟨hbuilt.matchFields,hbuilt.valid,hbuilt.entryActions,hbuilt.oneshot,fun id hid => ?_⟩
  have htable : unranked.tablesById.lookup x.1 = some x.2 := lookup_eq_some_of_mem hreferenced.defined.tables.idNodup hx
  obtain ⟨profile,hprofile,-⟩ := (hreferenced.profilesMatch x.1 id).mp ⟨x.2,htable,hid⟩
  exact Option.isSome_iff_exists.mpr ⟨profile,hprofile⟩

/-- An insertion that fails for keys in use. -/
@[reducible] def plainInsertion : UniqueInsertion where
  insertIfUnique m key value message := if key ∈ m.map Prod.fst then .error (invalidArgument message) else .ok (m ++ [(key,value)])
  insertIfUnique_eq_ok := by
    intro κ α _ m m' key value message
    split_ifs with hkey
    · simp [hkey]
    · simp [hkey,eq_comm]

/-- Two tables, of which the second refers to the first. -/
def referringSample : P4Info where
  tables := [
    { preamble := { id := 1,aliasName := "t" },matchFields := [{ id := 1,name := "f",bitwidth := 8,matchType := .exact }],
      actionRefs := [{ id := 2,annotations := ["@proto_id(1)"] }] },
    { preamble := { id := 3,aliasName := "s" },
      matchFields := [{ id := 1,name := "g",bitwidth := 8,matchType := .exact,annotations := ["@refers_to(t,f)"] }],
      actionRefs := [{ id := 2,annotations := ["@proto_id(1)"] }] }]
  actions := [{ preamble := { id := 2,aliasName := "a" } }]

def referringInfo : IrP4Info :=
  match @createIrP4Info plainInsertion referringSample with
  | some (.ok info) => info
  | _ => {}

def referringReference : IrTableReference :=
  ⟨.p4Table "s" 3,.p4Table "t" 1,[⟨.matchField (.p4MatchField ⟨"g",1,false⟩),.matchField (.p4MatchField ⟨"f",1,false⟩)⟩]⟩

omit [UniqueInsertion] in
theorem createIrP4Info_wellFormed_sample :
    @createIrP4Info plainInsertion referringSample = some (.ok referringInfo) ∧ referringInfo.WellFormed := by
  let _ := plainInsertion
  have h : createIrP4Info referringSample = some (.ok referringInfo) := rfl
  exact ⟨h,createIrP4Info_wellFormed h⟩

/-- A P4Info that is built is consistent. -/
theorem created_ir_p4info_consistent (p4Info : P4Info) : ∃ result,createIrP4Info p4Info = some result ∧
    ∀ info,result = .ok info → info.Consistent := by
  obtain ⟨result,hresult,hinfo⟩ := createIrP4Info_spec p4Info
  refine ⟨result,hresult,fun info hok => ?_⟩
  obtain ⟨unranked,references,-,hreferenced,ranks,rfl⟩ := hinfo info hok
  have h := hreferenced.consistent
  exact ⟨h.tables,h.matchFields,h.actions,h.params,h.profiles,h.packetIn,h.packetOut,h.profilesMatch,h.ownReferences,
    h.ownBuiltInReferences,h.mirrored,h.once⟩

omit [UniqueInsertion] in
theorem created_ir_p4info_consistent_referring :
    referringInfo.Consistent ∧ referringInfo.referencesAt .source (.p4Table "s" 3) = [referringReference] ∧
      referringInfo.referencesAt .destination (.p4Table "t" 1) = [referringReference] := by
  let _ := plainInsertion
  obtain ⟨result,hresult,hconsistent⟩ := created_ir_p4info_consistent referringSample
  have hcreated : createIrP4Info referringSample = some (.ok referringInfo) := rfl
  exact ⟨hconsistent referringInfo (Option.some.inj (hresult.symm.trans hcreated)),rfl,rfl⟩

end SonicPins.Pdpi
