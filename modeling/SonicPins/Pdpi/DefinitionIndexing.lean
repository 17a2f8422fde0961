import SonicPins.Pdpi.IrP4InfoCreation
import SonicPins.Pdpi.P4InfoConsistency

/-! The definitions of a P4Info are indexed by id and by name, whatever order its loops
insert them in. -/
namespace SonicPins.Pdpi
open Lib References Sonic

variable {set : IrTableDefinition → IrTableDefinition}

/-- What the conversion of a table has checked, given the actions that were converted before. -/
structure IrTableDefinition.Built (info : IrP4Info) (t : IrTableDefinition) : Prop where
  matchFields : DoubleIndex t.matchFieldsById t.matchFieldsByName (fun d => d.matchField.id) (fun d => d.matchField.name)
  valid : ∀ x ∈ t.matchFieldsById,x.2.Valid
  entryActions : ∀ a ∈ t.entryActions,(a.preamble.id,a) ∈ info.actionsById
  defaultOnlyActions : ∀ a ∈ t.defaultOnlyActions,(a.preamble.id,a) ∈ info.actionsById
  constDefaultAction : ∀ a ∈ t.constDefaultAction,a ∈ t.defaultOnlyActions ∨ a ∈ t.entryActions
  oneshot : t.usesOneshot = t.actionProfileId.isSome

/-- The definitions so far, each under its own id and name. -/
structure IrP4Info.Defined (info : IrP4Info) : Prop where
  tables : DoubleIndex info.tablesById info.tablesByName (fun t => t.preamble.id) (fun t => t.preamble.aliasName)
  table : ∀ x ∈ info.tablesById,x.2.Built info
  actions : DoubleIndex info.actionsById info.actionsByName (fun a => a.preamble.id) (fun a => a.preamble.aliasName)
  action : ∀ x ∈ info.actionsById,x.2.WellFormed
  profiles : DoubleIndex info.actionProfilesById info.actionProfilesByName (fun p => p.preamble.id) (fun p => p.preamble.aliasName)
  packetIn : DoubleIndex info.packetInMetadataById info.packetInMetadataByName (fun d => d.metadata.id) (fun d => d.metadata.name)
  packetOut : DoubleIndex info.packetOutMetadataById info.packetOutMetadataByName (fun d => d.metadata.id)
    (fun d => d.metadata.name)

/-- No references are attached to the tables yet, and no table has a rank. -/
structure IrP4Info.Unreferenced (info : IrP4Info) : Prop where
  references : ∀ x ∈ info.tablesByName,∀ e : ReferenceEnd,e.references x.2 = []
  ranks : info.dependencyRankByTableName = []

section Elements
variable {typeInfo : P4Info.TypeInfo} {typeName : String} {texts : List String} {bitwidth : Nat} {format : Format}

theorem getFormatForP4InfoElement_valid (h : getFormatForP4InfoElement typeInfo typeName texts bitwidth = .ok format) :
    (format = .mac → bitwidth = 48) ∧ (format = .ipv4 → bitwidth = 32) ∧ (format = .ipv6 → bitwidth ≤ 128) := by
  obtain ⟨isString,-,h⟩ := bind_eq_ok.mp h
  obtain ⟨format',-,h⟩ := bind_eq_ok.mp h
  split_ifs at h with hmac hipv4 hipv6
  cases h
  refine ⟨fun heq => ?_,fun heq => ?_,fun heq => ?_⟩
  · by_contra hne
    exact hmac ⟨heq,hne⟩
  · by_contra hne
    exact hipv4 ⟨heq,hne⟩
  · by_contra hne
    exact hipv6 ⟨heq,Nat.lt_of_not_le hne⟩

private theorem validateMatchFieldDefinition_eq_ok {d : IrMatchFieldDefinition} (h : validateMatchFieldDefinition d = .ok ()) :
    (d.format = .string → d.matchField.matchType = .exact ∨ d.matchField.matchType = .optional) ∧
      (d.matchField.matchType = .exact ∨ d.matchField.matchType = .lpm ∨ d.matchField.matchType = .ternary ∨
        d.matchField.matchType = .optional) := by
  unfold validateMatchFieldDefinition at h
  cases htype : d.matchField.matchType <;> simp_all

end Elements

section Actions
variable [UniqueInsertion] {p4Info : P4Info} {typeInfo : P4Info.TypeInfo} {info info' : IrP4Info}

private theorem addParam_wellFormed {action : P4Info.Action} {s s' : IrActionDefinition × List IrMatchFieldReference} {param : ActionParam}
    (h : s.1.WellFormed) (hs : addParam p4Info typeInfo action s param = .ok s') :
    s'.1.WellFormed ∧ s'.1.preamble = s.1.preamble := by
  obtain ⟨format,hformat,hs⟩ := bind_eq_ok.mp hs
  obtain ⟨references,-,hs⟩ := bind_eq_ok.mp hs
  obtain ⟨maps,hmaps,hs⟩ := bind_eq_ok.mp hs
  cases hs
  refine ⟨⟨h.params.insertTwice hmaps rfl rfl,?_⟩,rfl⟩
  obtain ⟨-,rfl⟩ := insertTwice_eq_ok.mp hmaps
  intro x hx
  rcases List.mem_append.mp hx with hx | hx
  · exact h.valid x hx
  · cases List.mem_singleton.mp hx
    exact getFormatForP4InfoElement_valid hformat

omit [UniqueInsertion] in
theorem IrTableDefinition.Built.mono {t : IrTableDefinition} (h : t.Built info)
    (hactions : ∀ x ∈ info.actionsById,x ∈ info'.actionsById) : t.Built info' :=
  { h with
    entryActions := fun a ha => hactions _ (h.entryActions a ha)
    defaultOnlyActions := fun a ha => hactions _ (h.defaultOnlyActions a ha) }

private theorem addAction_defined {action : P4Info.Action} (h : info.Defined) (hinfo : addAction p4Info typeInfo info action = .ok info') :
    info'.Defined := by
  obtain ⟨s,hs,hinfo⟩ := bind_eq_ok.mp hinfo
  obtain ⟨maps,hmaps,hinfo⟩ := bind_eq_ok.mp hinfo
  cases hinfo
  obtain ⟨hwf,hpreamble⟩ : s.1.WellFormed ∧ s.1.preamble = action.preamble := by
    refine foldlM_invariant (P := fun s => s.1.WellFormed ∧ s.1.preamble = action.preamble) (fun s param s' _ hs hstep => ?_)
      ⟨⟨.empty,nofun⟩,rfl⟩ hs
    obtain ⟨hwf,hsame⟩ := addParam_wellFormed hs.1 hstep
    exact ⟨hwf,hsame.trans hs.2⟩
  have hactions := h.actions.insertTwice hmaps (congrArg Preamble.id hpreamble) (congrArg Preamble.aliasName hpreamble)
  obtain ⟨-,rfl⟩ := insertTwice_eq_ok.mp hmaps
  refine ⟨h.tables,fun x hx => ?_,hactions,fun x hx => ?_,h.profiles,h.packetIn,h.packetOut⟩
  · exact (h.table x hx).mono fun x hx => List.mem_append_left _ hx
  · rcases List.mem_append.mp hx with hx | hx
    · exact h.action x hx
    · cases List.mem_singleton.mp hx
      exact hwf

private theorem addActionProfile_defined {profile : ActionProfile} (h : info.Defined) (hinfo : addActionProfile info profile = .ok info') :
    info'.Defined := by
  obtain ⟨maps,hmaps,hinfo⟩ := bind_eq_ok.mp hinfo
  cases hinfo
  exact ⟨h.tables,fun x hx => (h.table x hx).mono fun _ => id,h.actions,h.action,h.profiles.insertTwice hmaps rfl rfl,
    h.packetIn,h.packetOut⟩

end Actions

section Tables
variable [UniqueInsertion] {p4Info : P4Info} {typeInfo : P4Info.TypeInfo} {info info' : IrP4Info} {table : P4Info.Table}

/-- A table of which only match fields were converted. -/
structure IrTableDefinition.Begun (preamble : Preamble) (t : IrTableDefinition) : Prop where
  preamble : t.preamble = preamble
  matchFields : DoubleIndex t.matchFieldsById t.matchFieldsByName (fun d => d.matchField.id) (fun d => d.matchField.name)
  valid : ∀ x ∈ t.matchFieldsById,x.2.Valid
  references : ∀ e : ReferenceEnd,e.references t = []

private theorem addMatchField_begun {preamble : Preamble} {s s' : IrTableDefinition × List IrMatchFieldReference} {matchField : MatchField}
    (h : s.1.Begun preamble) (hs : addMatchField p4Info typeInfo table s matchField = .ok s') : s'.1.Begun preamble := by
  obtain ⟨format,hformat,hs⟩ := bind_eq_ok.mp hs
  obtain ⟨hvalidate,hs⟩ := then_eq_ok.mp hs
  obtain ⟨references,-,hs⟩ := bind_eq_ok.mp hs
  obtain ⟨maps,hmaps,hs⟩ := bind_eq_ok.mp hs
  cases hs
  refine ⟨h.preamble,h.matchFields.insertTwice hmaps rfl rfl,?_,fun e => ?_⟩
  rotate_left
  · cases e with
    | source => exact h.references .source
    | destination => exact h.references .destination
  obtain ⟨-,rfl⟩ := insertTwice_eq_ok.mp hmaps
  intro x hx
  rcases List.mem_append.mp hx with hx | hx
  · exact h.valid x hx
  · cases List.mem_singleton.mp hx
    obtain ⟨hmac,hipv4,hipv6⟩ := getFormatForP4InfoElement_valid hformat
    obtain ⟨hstring,htype⟩ := validateMatchFieldDefinition_eq_ok (mapError_eq_ok.mp hvalidate)
    exact ⟨hmac,hipv4,hipv6,hstring,htype⟩

def TableActions.Defined (info : IrP4Info) (actions : TableActions) : Prop :=
  ∀ x ∈ actions.entryActions ++ actions.defaultOnlyActions,(x.2.preamble.id,x.2) ∈ info.actionsById

omit [UniqueInsertion] in
private theorem addActionReference_defined (h : info.Defined) {actions actions' : TableActions} {ref : P4Info.ActionRef}
    (hactions : actions.Defined info) (h' : addActionReference info table actions ref = .ok actions') : actions'.Defined info := by
  obtain ⟨action,haction,h'⟩ := bind_eq_ok.mp h'
  have hlookup := findPtrOrStatus_eq_ok.mp (mapError_eq_ok.mp (orFail_eq_ok.mp haction))
  have hmem : (action.preamble.id,action) ∈ info.actionsById := by
    have hentry := mem_of_lookup_eq_some hlookup
    rwa [(h.actions.ofId _ hentry).1]
  intro x hx
  split at h'
  · cases h'
    rcases List.mem_append.mp hx with hx | hx
    · exact hactions x (List.mem_append_left _ hx)
    · rcases List.mem_append.mp hx with hx | hx
      · exact hactions x (List.mem_append_right _ hx)
      · cases List.mem_singleton.mp hx
        exact hmem
  · obtain ⟨_,-,h'⟩ := bind_eq_ok.mp h'
    cases h'
    rcases List.mem_append.mp hx with hx | hx
    · rcases List.mem_append.mp hx with hx | hx
      · exact hactions x (List.mem_append_left _ hx)
      · cases List.mem_singleton.mp hx
        exact hmem
    · exact hactions x (List.mem_append_right _ hx)

omit [UniqueInsertion] in
private theorem findConstDefaultAction_eq_ok {actions : TableActions} {result : Option IrActionDefinition}
    (h : findConstDefaultAction table actions = .ok result) {a : IrActionDefinition} (ha : a ∈ result) :
    a ∈ actions.defaultOnlyActions.map Prod.snd ∨ a ∈ actions.entryActions.map Prod.snd := by
  unfold findConstDefaultAction at h
  split at h
  · cases h
    cases ha
  · split at h
    · rename_i action hfind
      cases h
      cases ha
      have hmem := List.mem_of_find?_eq_some hfind
      rcases List.mem_append.mp hmem with hmem | hmem
      · exact .inl (List.mem_map_of_mem hmem)
      · exact .inr (List.mem_map_of_mem hmem)
    · cases h

omit [UniqueInsertion] in
private theorem checkOneshot_eq_ok (h : checkOneshot table = .ok ()) : hasOneshot table = isWcmp table := by
  unfold checkOneshot at h
  split at h
  · cases h
  · rename_i hsame
    exact (not_not.mp hsame).symm

theorem irTableDefinition_built (h : info.Defined) {s : IrTableDefinition × List IrMatchFieldReference}
    (hs : irTableDefinition p4Info typeInfo info table = .ok s) :
    s.1.Built info ∧ s.1.preamble = table.preamble ∧ ∀ e : ReferenceEnd,e.references s.1 = [] := by
  obtain ⟨begun,hbegun,hs⟩ := bind_eq_ok.mp hs
  obtain ⟨honeshot,hs⟩ := then_eq_ok.mp hs
  obtain ⟨actions,hactions,hs⟩ := bind_eq_ok.mp hs
  obtain ⟨constDefaultAction,hconst,hs⟩ := bind_eq_ok.mp hs
  cases hs
  have hfields : begun.1.Begun table.preamble :=
    foldlM_invariant (P := fun s => s.1.Begun table.preamble) (fun s matchField s' _ hs hstep => addMatchField_begun hs hstep)
      ⟨rfl,.empty,nofun,fun e => by cases e <;> rfl⟩ (orFail_eq_ok.mp hbegun)
  have hdefined : actions.Defined info :=
    foldlM_invariant (fun actions ref actions' _ hactions hstep => addActionReference_defined h hactions hstep)
      (fun x hx => by cases hx) hactions
  refine ⟨⟨hfields.matchFields,hfields.valid,fun a ha => ?_,fun a ha => ?_,fun a ha => ?_,?_⟩,hfields.preamble,fun e => ?_⟩
  · obtain ⟨x,hx,rfl⟩ := List.mem_map.mp ha
    exact hdefined x (List.mem_append_left _ hx)
  · obtain ⟨x,hx,rfl⟩ := List.mem_map.mp ha
    exact hdefined x (List.mem_append_right _ hx)
  · exact findConstDefaultAction_eq_ok (orFail_eq_ok.mp hconst) ha
  · rw [checkOneshot_eq_ok (orFail_eq_ok.mp honeshot)]
    cases isWcmp table <;> rfl
  · cases e with
    | source => exact hfields.references .source
    | destination => exact hfields.references .destination

private theorem addTable_defined (h : info.Defined) (hinfo : addTable p4Info typeInfo info table = .ok info') : info'.Defined := by
  obtain ⟨s,hs,hinfo⟩ := bind_eq_ok.mp hinfo
  obtain ⟨maps,hmaps,hinfo⟩ := bind_eq_ok.mp hinfo
  cases hinfo
  obtain ⟨hbuilt,hpreamble,-⟩ := irTableDefinition_built h hs
  have hmaps := orFail_eq_ok.mp hmaps
  have htables := h.tables.insertTwice hmaps (congrArg Preamble.id hpreamble) (congrArg Preamble.aliasName hpreamble)
  obtain ⟨-,rfl⟩ := insertTwice_eq_ok.mp hmaps
  refine ⟨htables,fun x hx => ?_,h.actions,h.action,h.profiles,h.packetIn,h.packetOut⟩
  rcases List.mem_append.mp hx with hx | hx
  · exact (h.table x hx).mono fun _ => id
  · cases List.mem_singleton.mp hx
    exact hbuilt.mono fun _ => id

private theorem addTable_unreferenced (h : info.Defined) (hreferences : info.Unreferenced)
    (hinfo : addTable p4Info typeInfo info table = .ok info') : info'.Unreferenced := by
  obtain ⟨s,hs,hinfo⟩ := bind_eq_ok.mp hinfo
  obtain ⟨maps,hmaps,hinfo⟩ := bind_eq_ok.mp hinfo
  cases hinfo
  obtain ⟨-,rfl⟩ := insertTwice_eq_ok.mp (orFail_eq_ok.mp hmaps)
  refine ⟨fun x hx e => ?_,hreferences.ranks⟩
  rcases List.mem_append.mp hx with hx | hx
  · exact hreferences.references x hx e
  · cases List.mem_singleton.mp hx
    exact (irTableDefinition_built h hs).2.2 e

end Tables

section PacketIo
variable [UniqueInsertion] {typeInfo : P4Info.TypeInfo} {info info' : IrP4Info} {data : P4Info.ControllerPacket}

theorem processPacketIoMetadataDefinition_indexed {maps maps' : PacketIoMaps}
    (h : DoubleIndex maps.1 maps.2 (fun d => d.metadata.id) (fun d => d.metadata.name))
    (hmaps : processPacketIoMetadataDefinition typeInfo data maps = .ok maps') :
    DoubleIndex maps'.1 maps'.2 (fun d => d.metadata.id) (fun d => d.metadata.name) := by
  unfold processPacketIoMetadataDefinition at hmaps
  split at hmaps
  · refine foldlM_invariant (P := fun maps : PacketIoMaps =>
      DoubleIndex maps.1 maps.2 (fun d => d.metadata.id) (fun d => d.metadata.name)) (fun maps metadata maps' _ h hstep => ?_) h hmaps
    obtain ⟨format,-,hstep⟩ := bind_eq_ok.mp hstep
    exact h.insertTwice hstep rfl rfl
  · cases hmaps

theorem addControllerPacketMetadata_defined (h : info.Defined) (hinfo : addControllerPacketMetadata typeInfo info data = .ok info') :
    info'.Defined ∧ info'.tablesByName = info.tablesByName ∧ info'.dependencyRankByTableName = info.dependencyRankByTableName := by
  unfold addControllerPacketMetadata at hinfo
  split at hinfo
  · obtain ⟨maps,hmaps,rfl⟩ := map_eq_ok.mp hinfo
    exact ⟨⟨h.tables,fun x hx => (h.table x hx).mono fun _ => id,h.actions,h.action,h.profiles,h.packetIn,
      processPacketIoMetadataDefinition_indexed h.packetOut hmaps⟩,rfl,rfl⟩
  · split at hinfo
    · obtain ⟨maps,hmaps,rfl⟩ := map_eq_ok.mp hinfo
      exact ⟨⟨h.tables,fun x hx => (h.table x hx).mono fun _ => id,h.actions,h.action,h.profiles,
        processPacketIoMetadataDefinition_indexed h.packetIn hmaps,h.packetOut⟩,rfl,rfl⟩
    · cases hinfo

end PacketIo

section Changes
variable {info info' : IrP4Info}

/-- A change that is made to both definitions of a table. -/
structure KeepsDefinition (set : IrTableDefinition → IrTableDefinition) : Prop where
  preamble : ∀ t,(set t).preamble = t.preamble
  built : ∀ (info : IrP4Info) t,t.Built info → (set t).Built info

theorem IrP4Info.Defined.changeAt (h : info.Defined) (hset : KeepsDefinition set)
    {t : IrTableDefinition} (ht : (t.preamble.id,t) ∈ info.tablesById) :
    IrP4Info.Defined { info with
      tablesById := changeAt t.preamble.id set info.tablesById
      tablesByName := changeAt t.preamble.aliasName set info.tablesByName } where
  tables := h.tables.changeAt ht (congrArg Preamble.id (hset.preamble t)) (congrArg Preamble.aliasName (hset.preamble t))
  table := by
    intro x hx
    rcases mem_changeAt.mp hx with ⟨-,hx⟩ | ⟨v,rfl,hv⟩
    · exact (h.table x hx).mono fun _ => id
    · exact (hset.built info v (h.table _ hv)).mono fun _ => id
  actions := h.actions
  action := h.action
  profiles := h.profiles
  packetIn := h.packetIn
  packetOut := h.packetOut

theorem setOnTable_defined {resource : String} {resourceId tableId : UInt32}
    (hset : KeepsDefinition set) (h : info.Defined) (hinfo : setOnTable resource resourceId tableId set info = .ok info') :
    info'.Defined := by
  obtain ⟨table,htable,hinfo⟩ := bind_eq_ok.mp hinfo
  cases hinfo
  have hmem := mem_of_lookup_eq_some (findPtrOrStatus_eq_ok.mp (mapError_eq_ok.mp htable))
  have hid : table.preamble.id = tableId := (h.tables.ofId _ hmem).1
  subst hid
  exact h.changeAt hset hmem

theorem setOnTable_unreferenced {resource : String} {resourceId tableId : UInt32}
    (hset : ∀ (t : IrTableDefinition) (e : ReferenceEnd),e.references (set t) = e.references t) (h : info.Unreferenced)
    (hinfo : setOnTable resource resourceId tableId set info = .ok info') : info'.Unreferenced := by
  obtain ⟨table,-,hinfo⟩ := bind_eq_ok.mp hinfo
  cases hinfo
  refine ⟨fun x hx e => ?_,h.ranks⟩
  rcases mem_changeAt.mp hx with ⟨-,hx⟩ | ⟨v,rfl,hv⟩
  · exact h.references x hx e
  · exact (hset v e).trans (h.references _ hv e)

private theorem setCounter_keeps (unit : CounterUnit) : KeepsDefinition (.setCounter unit) where
  preamble _ := rfl
  built _ _ ht := ⟨ht.matchFields,ht.valid,ht.entryActions,ht.defaultOnlyActions,ht.constDefaultAction,ht.oneshot⟩

private theorem setMeter_keeps (unit : MeterUnit) : KeepsDefinition (.setMeter unit) where
  preamble _ := rfl
  built _ _ ht := ⟨ht.matchFields,ht.valid,ht.entryActions,ht.defaultOnlyActions,ht.constDefaultAction,ht.oneshot⟩

private theorem addDirectCounter_defined {counter : P4Info.DirectCounter} (h : info.Defined ∧ info.Unreferenced)
    (hinfo : addDirectCounter info counter = .ok info') : info'.Defined ∧ info'.Unreferenced := by
  refine ⟨setOnTable_defined (setCounter_keeps _) h.1 hinfo,setOnTable_unreferenced (fun t e => ?_) h.2 hinfo⟩
  cases e <;> rfl

private theorem addDirectMeter_defined {meter : P4Info.DirectMeter} (h : info.Defined ∧ info.Unreferenced)
    (hinfo : addDirectMeter info meter = .ok info') : info'.Defined ∧ info'.Unreferenced := by
  refine ⟨setOnTable_defined (setMeter_keeps _) h.1 hinfo,setOnTable_unreferenced (fun t e => ?_) h.2 hinfo⟩
  cases e <;> rfl

end Changes

private theorem noDefinitions_defined (properties : PlatformProperties) : IrP4Info.Defined { platformProperties := properties } where
  tables := .empty
  table := fun x hx => by cases hx
  actions := .empty
  action := fun x hx => by cases hx
  profiles := .empty
  packetIn := .empty
  packetOut := .empty

variable [UniqueInsertion] {p4Info : P4Info} {info : IrP4Info}

theorem createDefinitions_defined (h : createDefinitions p4Info = .ok info) : info.Defined ∧ info.Unreferenced := by
  obtain ⟨withActions,hactions,h⟩ := bind_eq_ok.mp h
  obtain ⟨withProfiles,hprofiles,h⟩ := bind_eq_ok.mp h
  obtain ⟨withTables,htables,h⟩ := bind_eq_ok.mp h
  obtain ⟨withMetadata,hmetadata,h⟩ := bind_eq_ok.mp h
  obtain ⟨withCounters,hcounters,hmeters⟩ := bind_eq_ok.mp h
  have h1 : withActions.Defined ∧ withActions.Unreferenced := by
    refine foldlM_invariant (P := fun info => info.Defined ∧ info.Unreferenced) (fun info action info' _ h hstep => ?_)
      ⟨noDefinitions_defined _,fun x hx => (by cases hx),rfl⟩ (orFail_eq_ok.mp hactions)
    refine ⟨addAction_defined h.1 hstep,?_⟩
    obtain ⟨s,-,hstep⟩ := bind_eq_ok.mp hstep
    obtain ⟨maps,-,hstep⟩ := bind_eq_ok.mp hstep
    cases hstep
    exact ⟨h.2.references,h.2.ranks⟩
  have h2 : withProfiles.Defined ∧ withProfiles.Unreferenced := by
    refine foldlM_invariant (P := fun info => info.Defined ∧ info.Unreferenced) (fun info profile info' _ h hstep => ?_) h1
      (orFail_eq_ok.mp hprofiles)
    refine ⟨addActionProfile_defined h.1 hstep,?_⟩
    obtain ⟨maps,-,hstep⟩ := bind_eq_ok.mp hstep
    cases hstep
    exact ⟨h.2.references,h.2.ranks⟩
  have h3 : withTables.Defined ∧ withTables.Unreferenced :=
    foldlM_invariant (P := fun info => info.Defined ∧ info.Unreferenced) (fun info table info' _ h hstep =>
      ⟨addTable_defined h.1 hstep,addTable_unreferenced h.1 h.2 hstep⟩) h2 htables
  have h4 : withMetadata.Defined ∧ withMetadata.Unreferenced := by
    refine foldlM_invariant (P := fun info => info.Defined ∧ info.Unreferenced) (fun info data info' _ h hstep => ?_) h3
      (orFail_eq_ok.mp hmetadata)
    obtain ⟨hdefined,htables,hranks⟩ := addControllerPacketMetadata_defined h.1 hstep
    exact ⟨hdefined,htables ▸ h.2.references,hranks.trans h.2.ranks⟩
  have h5 : withCounters.Defined ∧ withCounters.Unreferenced :=
    foldlM_invariant (P := fun info => info.Defined ∧ info.Unreferenced) (fun info counter info' _ h hstep =>
      addDirectCounter_defined h hstep) h4 (orFail_eq_ok.mp hcounters)
  exact foldlM_invariant (P := fun info => info.Defined ∧ info.Unreferenced) (fun info meter info' _ h hstep =>
    addDirectMeter_defined h hstep) h5 (orFail_eq_ok.mp hmeters)

end SonicPins.Pdpi
