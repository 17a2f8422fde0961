import Mathlib.Data.List.ReduceOption
import SonicPins.Lib.Status
import SonicPins.Lib.DoubleIndex
import SonicPins.Pdpi.P4InfoConsistency
import SonicPins.Pdpi.References
import SonicPins.Pdpi.ValueCodec

/-! The references of an entity are those that another entity can satisfy exactly when
the values agree. -/
namespace SonicPins.Pdpi.References
open Lib

variable {r : FieldReference} {p : PartialConcreteTableReference} {x : ConcreteTableReference}
  {matchRefs refs : List FieldReference} {groups : List (List FieldReference)} {c : ConcreteFieldReference}
  {inc : Finset ConcreteTableReference} {name : String} {value : FieldReference → StatusOr Bytes} {part : SourcePart}
  {entity : Entity}

/-- What the fields of a reference come from besides the match fields: an action, a replica,
or nothing when the entity has neither. -/
inductive SourcePart where
  | matchOnly
  | action (a : Action)
  | replica (r : Replica)

def sourceActions : Entity → List SourcePart
  | .tableEntry e => match e.action with
    | some (.action a) => [.action a]
    | some (.actionProfileActionSet actions) => actions.map fun a => .action a.action
    | _ => []
  | .packetReplicationEngineEntry (.multicastGroupEntry e) => (allReplicas e).map .replica
  | _ => []

/-- One part for every action or replica, and one for the match fields when there is none. -/
def sourceParts (entity : Entity) : List SourcePart :=
  if (sourceActions entity).isEmpty then [.matchOnly] else sourceActions entity

/-- The value of the parameter of an action or replica, none for other actions. -/
def actionFieldValue : SourcePart → IrActionField → Option Bytes
  | .action a,.p4ActionField f => if f.actionId = a.actionId then (getActionFieldValue f a).toOption else none
  | .replica r,.builtInActionField f => (getReplicaFieldValue f r).toOption
  | _,_ => none

/-- The value that an entity refers to, none when the field is absent or of another action. -/
def sourceValue (entity : Entity) (part : SourcePart) (r : FieldReference) : Option Bytes :=
  match r.source with
  | .matchField f => (getMatchFieldValue f entity).toOption.join
  | .actionField f => actionFieldValue part f
  | .notSet => none

def destinationValue (entity : Entity) (r : FieldReference) : Option Bytes :=
  (getMatchFieldValue (irMatchField r.destination) entity).toOption.join

def fieldName (f : IrField) : String := (getNameOfField f).toOption.getD ""

def nameOfTable (t : IrTable) : String := (getNameOfTable t).toOption.getD ""

def referredFields (info : IrTableReference) (entity : Entity) (part : SourcePart) : PartialConcreteTableReference :=
  (info.fieldReferences.filterMap fun r =>
    (sourceValue entity part r).map fun v => ⟨fieldName r.source,fieldName r.destination,v⟩).toFinset

def referenceOf (info : IrTableReference) (entity : Entity) (part : SourcePart) : ConcreteTableReference :=
  ⟨nameOfTable info.sourceTable,nameOfTable info.destinationTable,referredFields info entity part⟩

/-- An entity has every value that the part of another refers to. -/
def Satisfies (info : IrTableReference) (source : Entity) (part : SourcePart) (destination : Entity) : Prop :=
  ∀ r ∈ info.fieldReferences,∀ v,sourceValue source part r = some v → destinationValue destination r = some v

/-- The action that a parameter belongs to: its id, none for replicas. -/
def actionKey : IrActionField → Option UInt32
  | .p4ActionField f => some f.actionId
  | _ => none

/-- Names identify what they are the names of: the fields of a reference come from the same
P4Info. -/
structure Consistent (info : IrTableReference) : Prop where
  destinations : ∀ r ∈ info.fieldReferences,∀ s ∈ info.fieldReferences,
    fieldName r.destination = fieldName s.destination → r.destination = s.destination
  actions : ∀ r ∈ info.fieldReferences,∀ s ∈ info.fieldReferences,∀ a b,r.source = .actionField a → s.source = .actionField b →
    (getNameOfAction a = getNameOfAction b ↔ actionKey a = actionKey b)

/-- A reference between two tables whose fields the P4Info has. -/
structure ParsedFrom (p4info : IrP4Info) (info : IrTableReference) : Prop where
  source : ∃ table,createIrTable p4info table = .ok info.sourceTable ∧ ∀ r ∈ info.fieldReferences,
    (∃ name f,createIrMatchField p4info table name = .ok f ∧ r.source = .matchField f) ∨
      ∃ action param f,createIrActionField p4info action param = .ok f ∧ r.source = .actionField f
  destination : ∃ table,createIrTable p4info table = .ok info.destinationTable ∧ ∀ r ∈ info.fieldReferences,
    ∃ name f,createIrMatchField p4info table name = .ok f ∧ r.destination = .matchField f

section Creation
variable {p4info : IrP4Info}

theorem createIrMatchField_name {table : String} {f : IrMatchField} (h : createIrMatchField p4info table name = .ok f) :
    fieldName (.matchField f) = name := by
  unfold createIrMatchField at h
  split_ifs at h
  · obtain ⟨t,-,h⟩ := bind_eq_ok.mp h
    obtain ⟨field,hfield,h⟩ := bind_eq_ok.mp h
    split_ifs at h
    cases h
    unfold stringToIrBuiltInMatchField at hfield
    split_ifs at hfield with hname
    cases hfield
    exact hname.symm
  · obtain ⟨t,-,h⟩ := bind_eq_ok.mp h
    obtain ⟨d,-,h⟩ := bind_eq_ok.mp h
    split at h
    all_goals cases h
    all_goals rfl

theorem createIrActionField_action {action param : String} {f : IrActionField} (h : createIrActionField p4info action param = .ok f) :
    getNameOfAction f = .ok action ∧
      if isBuiltInAction action then action = "builtin::replica" ∧ actionKey f = none
      else ∃ d,p4info.actionsByName.lookup action = some d ∧ actionKey f = some d.preamble.id := by
  unfold createIrActionField at h
  split_ifs at h with hbuiltIn
  · obtain ⟨a,ha,h⟩ := bind_eq_ok.mp h
    obtain ⟨p,-,h⟩ := bind_eq_ok.mp h
    split_ifs at h
    cases h
    unfold stringToIrBuiltInAction at ha
    split_ifs at ha with hname
    cases ha
    rw [if_pos hbuiltIn]
    exact ⟨by rw [hname]; rfl,hname,rfl⟩
  · obtain ⟨d,hd,h⟩ := bind_eq_ok.mp h
    obtain ⟨p,-,h⟩ := bind_eq_ok.mp h
    cases h
    rw [if_neg hbuiltIn]
    exact ⟨rfl,d,findPtrOrStatus_eq_ok.mp hd,rfl⟩

theorem ParsedFrom.actionField {info : IrTableReference} (h : ParsedFrom p4info info)
    (hr : r ∈ info.fieldReferences) {f : IrActionField} (hf : r.source = .actionField f) :
    ∃ action param,createIrActionField p4info action param = .ok f := by
  obtain ⟨_,-,hfields⟩ := h.source
  obtain ⟨_,_,-,hg⟩ | ⟨action,param,g,hg,hsource⟩ := hfields r hr
  · rw [hf] at hg
    cases hg
  · rw [hf] at hsource
    cases hsource
    exact ⟨action,param,hg⟩

theorem ParsedFrom.consistent {info : IrTableReference} (hp4info : p4info.WellFormed) (h : ParsedFrom p4info info) :
    Consistent info where
  destinations r hr s hs hname := by
    obtain ⟨_,-,hfields⟩ := h.destination
    obtain ⟨n,f,hf,hrf⟩ := hfields r hr
    obtain ⟨m,g,hg,hsg⟩ := hfields s hs
    rw [hrf,hsg,createIrMatchField_name hf,createIrMatchField_name hg] at hname
    subst hname
    rw [hrf,hsg,Except.ok.inj (hf.symm.trans hg)]
  actions r hr s hs a b ha hb := by
    obtain ⟨action,_,hr⟩ := h.actionField hr ha
    obtain ⟨action',_,hs⟩ := h.actionField hs hb
    obtain ⟨hname,hkey⟩ := createIrActionField_action hr
    obtain ⟨hname',hkey'⟩ := createIrActionField_action hs
    rw [hname,hname',Except.ok.injEq]
    constructor
    · rintro rfl
      split_ifs at hkey hkey'
      · rw [hkey.2,hkey'.2]
      · obtain ⟨d,hd,hsome⟩ := hkey
        obtain ⟨d',hd',hsome'⟩ := hkey'
        rw [hsome,hsome',Option.some.inj (hd.symm.trans hd')]
    · intro heq
      split_ifs at hkey hkey'
      · rw [hkey.1,hkey'.1]
      · obtain ⟨d,-,hsome⟩ := hkey'
        rw [hkey.2,hsome] at heq
        cases heq
      · obtain ⟨d,-,hsome⟩ := hkey
        rw [hkey'.2,hsome] at heq
        cases heq
      · obtain ⟨d,hd,hsome⟩ := hkey
        obtain ⟨d',hd',hsome'⟩ := hkey'
        rw [hsome,hsome',Option.some_inj] at heq
        obtain ⟨hn,hid⟩ := hp4info.actions.lookup_id hd
        obtain ⟨hn',hid'⟩ := hp4info.actions.lookup_id hd'
        rw [← heq] at hid'
        rw [← hn,← hn',Option.some.inj (hid.symm.trans hid')]

end Creation

private theorem mem_withOptionals {parts : List PartialConcreteTableReference} {optionals : List ConcreteFieldReference} :
    p ∈ withOptionals parts optionals ↔ ∃ q ∈ parts,∃ t ⊆ optionals.toFinset,p = q ∪ t := by
  unfold withOptionals
  induction optionals generalizing parts with
  | nil => simp
  | cons o os ih =>
    rw [List.foldl_cons,ih]
    constructor
    · rintro ⟨q,hq,t,ht,rfl⟩
      rcases List.mem_append.mp hq with hq | hq
      · exact ⟨q,hq,t,ht.trans (by simp),rfl⟩
      · obtain ⟨q',hq',rfl⟩ := List.mem_map.mp hq
        exact ⟨q',hq',insert o t,by simpa using Finset.insert_subset_insert o ht,by rw [Finset.insert_union,Finset.union_insert]⟩
    · rintro ⟨q,hq,t,ht,rfl⟩
      rw [List.toFinset_cons] at ht
      by_cases ho : o ∈ t
      · refine ⟨insert o q,List.mem_append_right _ (List.mem_map_of_mem hq),t.erase o,?_,?_⟩
        · exact Finset.subset_insert_iff.mp ht
        · rw [Finset.insert_union,← Finset.union_insert,Finset.insert_erase ho]
      · exact ⟨q,List.mem_append_left _ hq,t,(Finset.subset_insert_iff_of_notMem ho).mp ht,rfl⟩

theorem mem_nonemptyReferences {source destination : String} {parts : List PartialConcreteTableReference}
    : x ∈ nonemptyReferences source destination parts ↔
      ∃ p ∈ parts,p ≠ ∅ ∧ x = ⟨source,destination,p⟩ := by
  unfold nonemptyReferences
  simp only [List.mem_toFinset,List.mem_map,List.mem_filter,decide_eq_true_eq]
  constructor
  · rintro ⟨p,⟨hp,hne⟩,rfl⟩
    exact ⟨p,hp,hne,rfl⟩
  · rintro ⟨p,hp,hne,rfl⟩
    exact ⟨p,⟨hp,hne⟩,rfl⟩

/-- A field reference with its names and a value. -/
def named (r : FieldReference) (v : Bytes) : ConcreteFieldReference := ⟨fieldName r.source,fieldName r.destination,v⟩

theorem fieldName_of_ok {f : IrField} (h : getNameOfField f = .ok name) : fieldName f = name := by
  rw [fieldName,h]
  rfl

theorem nameOfTable_of_ok {t : IrTable} (h : getNameOfTable t = .ok name) : nameOfTable t = name := by
  rw [nameOfTable,h]
  rfl

theorem mapM_named {f : FieldReference → StatusOr ConcreteFieldReference} {value : FieldReference → Option Bytes}
    (hf : ∀ r c,f r = .ok c → value r = some c.value ∧ c = named r c.value)
    {fields : List ConcreteFieldReference} (h : refs.mapM f = .ok fields) :
    (∀ r ∈ refs,∃ v,value r = some v) ∧ ∀ c,c ∈ fields ↔ ∃ r ∈ refs,∃ v,value r = some v ∧ c = named r v := by
  have hrel := mapM_eq_ok.mp h
  refine ⟨fun r hr => ?_,fun c => ?_⟩
  · obtain ⟨c,-,hc⟩ := exists_of_forall₂_left hrel hr
    exact ⟨_,(hf r c hc).1⟩
  · rw [mem_of_mapM h]
    constructor
    · rintro ⟨r,hr,hc⟩
      exact ⟨r,hr,c.value,hf r c hc⟩
    · rintro ⟨r,hr,v,hv,rfl⟩
      obtain ⟨c,-,hc⟩ := exists_of_forall₂_left hrel hr
      obtain ⟨hvalue,heq⟩ := hf r c hc
      rw [hv] at hvalue
      rw [Option.some.inj hvalue,← heq]
      exact ⟨r,hr,hc⟩

private theorem concreteFieldReference_ok (r : FieldReference) (c : ConcreteFieldReference)
    (h : concreteFieldReference value r = .ok c) : (value r).toOption = some c.value ∧ c = named r c.value := by
  obtain ⟨source,hsource,h⟩ := bind_eq_ok.mp h
  obtain ⟨destination,hdestination,h⟩ := bind_eq_ok.mp h
  obtain ⟨v,hv,h⟩ := bind_eq_ok.mp h
  cases h
  exact ⟨toOption_eq_some.mpr hv,by rw [named,fieldName_of_ok hsource,fieldName_of_ok hdestination]⟩

theorem destinationField_ok (r : FieldReference) (c : ConcreteFieldReference)
    (h : concreteFieldReferenceFromDestinationMatchField entity r = .ok c) :
    destinationValue entity r = some c.value ∧ c = named r c.value := by
  obtain ⟨value,hvalue,h⟩ := bind_eq_ok.mp h
  cases value with
  | none => cases h
  | some v =>
    obtain ⟨source,hsource,h⟩ := bind_eq_ok.mp h
    obtain ⟨destination,hdestination,h⟩ := bind_eq_ok.mp h
    cases h
    refine ⟨?_,by rw [named,fieldName_of_ok hsource,fieldName_of_ok hdestination]⟩
    rw [destinationValue,hvalue]
    rfl

private theorem partialReference_ok (h : partialReference value refs = .ok p) :
    (∀ r ∈ refs,∃ v,value r = .ok v) ∧ ∀ c,c ∈ p ↔ ∃ r ∈ refs,∃ v,value r = .ok v ∧ c = named r v := by
  obtain ⟨fields,hfields,rfl⟩ := map_eq_ok.mp h
  obtain ⟨hall,hmem⟩ := mapM_named concreteFieldReference_ok hfields
  simp only [toOption_eq_some] at hall hmem
  exact ⟨hall,fun c => by rw [List.mem_toFinset,hmem]⟩

private theorem matchFieldPartialReference_ok (h : matchFieldPartialReference refs entity = .ok p) :
    (∀ r ∈ refs,∃ value,getMatchFieldValue (irMatchField r.source) entity = .ok value) ∧
      ∀ c,c ∈ p ↔ ∃ r ∈ refs,∃ v,getMatchFieldValue (irMatchField r.source) entity = .ok (some v) ∧ c = named r v := by
  obtain ⟨fields,hfields,rfl⟩ := map_eq_ok.mp h
  have hrel := mapM_eq_ok.mp hfields
  have hfield (r : FieldReference) (c : Option ConcreteFieldReference) (hc : matchFieldReference entity r = .ok c) :
      ∃ value,getMatchFieldValue (irMatchField r.source) entity = .ok value ∧ c = value.map (named r) := by
    obtain ⟨source,hsource,hc⟩ := bind_eq_ok.mp hc
    obtain ⟨destination,hdestination,hc⟩ := bind_eq_ok.mp hc
    obtain ⟨value,hvalue,hc⟩ := bind_eq_ok.mp hc
    cases hc
    refine ⟨value,hvalue,congrArg (Option.map · value) ?_⟩
    funext v
    rw [named,fieldName_of_ok hsource,fieldName_of_ok hdestination]
  refine ⟨fun r hr => ?_,fun c => ?_⟩
  · obtain ⟨c,-,hc⟩ := exists_of_forall₂_left hrel hr
    obtain ⟨value,hvalue,-⟩ := hfield r c hc
    exact ⟨value,hvalue⟩
  · rw [List.mem_toFinset,List.reduceOption_mem_iff,mem_of_mapM hfields]
    constructor
    · rintro ⟨r,hr,hc⟩
      obtain ⟨value,hvalue,heq⟩ := hfield r _ hc
      obtain ⟨v,rfl,hv⟩ := Option.map_eq_some_iff.mp heq.symm
      exact ⟨r,hr,v,hvalue,hv.symm⟩
    · rintro ⟨r,hr,v,hv,rfl⟩
      obtain ⟨c,-,hc⟩ := exists_of_forall₂_left hrel hr
      obtain ⟨value,hvalue,heq⟩ := hfield r c hc
      cases hv.symm.trans hvalue
      rw [heq] at hc
      exact ⟨r,hr,hc⟩

theorem supportedReferenceType_ok {type : FieldReferenceType} (h : supportedReferenceType r = .ok type) :
    (type = .matchFieldToMatchField ∧ ∃ f,r.source = .matchField f) ∨
      (type = .actionParamToMatchField ∧ ∃ f,r.source = .actionField f) := by
  unfold supportedReferenceType at h
  split_ifs at h
  unfold getReferenceType at h
  split at h
  · rename_i f g hsource hdestination
    cases h
    exact .inl ⟨rfl,f,hsource⟩
  · rename_i f g hsource hdestination
    cases h
    exact .inr ⟨rfl,f,hsource⟩
  · cases h

private theorem groupByType_ok {actionRefs : List FieldReference} (h : groupByType refs = .ok (matchRefs,actionRefs)) :
    (∀ r,r ∈ matchRefs ↔ r ∈ refs ∧ ∃ f,r.source = .matchField f) ∧
      ∀ r,r ∈ actionRefs ↔ r ∈ refs ∧ ∃ f,r.source = .actionField f := by
  obtain ⟨types,htypes,h⟩ := bind_eq_ok.mp h
  cases h
  have hrel := mapM_eq_ok.mp htypes
  have htype (r : FieldReference) (hr : r ∈ refs) : (supportedReferenceType r = .ok .matchFieldToMatchField ∧
      ∃ f,r.source = .matchField f) ∨ (supportedReferenceType r = .ok .actionParamToMatchField ∧ ∃ f,r.source = .actionField f) := by
    obtain ⟨type,-,hok⟩ := exists_of_forall₂_left hrel hr
    rcases supportedReferenceType_ok hok with ⟨rfl,hf⟩ | ⟨rfl,hf⟩
    · exact .inl ⟨hok,hf⟩
    · exact .inr ⟨hok,hf⟩
  constructor
  · intro r
    rw [mem_filter_zip_mapM hrel]
    refine and_congr_right fun hr => ?_
    rcases htype r hr with ⟨hok,f,hf⟩ | ⟨hok,f,hf⟩ <;> simp [hok,hf]
  · intro r
    rw [mem_filter_zip_mapM hrel]
    refine and_congr_right fun hr => ?_
    rcases htype r hr with ⟨hok,f,hf⟩ | ⟨hok,f,hf⟩ <;> simp [hok,hf]

private theorem groupByActionName_ok (h : groupByActionName refs = .ok (matchRefs,groups)) :
    (∀ r,r ∈ matchRefs ↔ r ∈ refs ∧ ∃ f,r.source = .matchField f) ∧
      (∀ r ∈ refs,∀ a,r.source = .actionField a → ∃ group ∈ groups,∀ s,s ∈ group ↔
        s ∈ refs ∧ ∃ b,s.source = .actionField b ∧ getNameOfAction b = getNameOfAction a) ∧
      ∀ group ∈ groups,∀ r ∈ group,r ∈ refs := by
  obtain ⟨names,hnames,h⟩ := bind_eq_ok.mp h
  cases h
  have hrel := mapM_eq_ok.mp hnames
  have hname (r : FieldReference) (name : Option String) (hok : sourceActionName r = .ok name) :
      (name = none ∧ ∃ f,r.source = .matchField f) ∨
        ∃ a action,name = some action ∧ r.source = .actionField a ∧ getNameOfAction a = .ok action := by
    obtain ⟨type,htype,hok⟩ := bind_eq_ok.mp hok
    rcases supportedReferenceType_ok htype with ⟨rfl,hf⟩ | ⟨rfl,a,ha⟩
    · cases hok
      exact .inl ⟨rfl,hf⟩
    · obtain ⟨action,haction,rfl⟩ := map_eq_ok.mp hok
      rw [ha] at haction
      exact .inr ⟨a,action,rfl,ha,haction⟩
  refine ⟨fun r => ?_,fun r hr a ha => ?_,fun group hgroup r hr => ?_⟩
  · rw [mem_filter_zip_mapM hrel]
    refine and_congr_right fun hr => ?_
    obtain ⟨name,-,hok⟩ := exists_of_forall₂_left hrel hr
    rcases hname r name hok with ⟨rfl,f,hf⟩ | ⟨b,action,rfl,hb,-⟩
    · simp [hok,hf]
    · simp [hok,hb]
  · obtain ⟨name,hmem,hok⟩ := exists_of_forall₂_left hrel hr
    obtain ⟨action,rfl,haction⟩ : ∃ action,name = some action ∧ getNameOfAction a = .ok action := by
      rcases hname r name hok with ⟨rfl,f,hf⟩ | ⟨b,action,rfl,hb,haction⟩
      · cases ha.symm.trans hf
      · cases ha.symm.trans hb
        exact ⟨action,rfl,haction⟩
    refine ⟨_,List.mem_map.mpr ⟨action,List.mem_dedup.mpr (List.reduceOption_mem_iff.mpr hmem),rfl⟩,fun s => ?_⟩
    rw [mem_filter_zip_mapM hrel,haction]
    refine and_congr_right fun hs => ?_
    obtain ⟨name,-,hsok⟩ := exists_of_forall₂_left hrel hs
    rcases hname s name hsok with ⟨rfl,f,hf⟩ | ⟨b,other,rfl,hb,hother⟩
    · simp [hsok,hf]
    · simp [hsok,hb,hother]
  · obtain ⟨name,-,rfl⟩ := List.mem_map.mp hgroup
    exact ((mem_filter_zip_mapM hrel).mp hr).1

section Outgoing
variable {info : IrTableReference} {source : Entity}

/-- The action whose parameters a part has, none without one. -/
def SourcePart.key : SourcePart → Option (Option UInt32)
  | .matchOnly => none
  | .action a => some (some a.actionId)
  | .replica _ => some none

theorem actionFieldValue_key {f : IrActionField} {v : Bytes} (h : actionFieldValue part f = some v) :
    part.key = some (actionKey f) := by
  unfold actionFieldValue at h
  split at h
  · split_ifs at h with hid
    rw [SourcePart.key,actionKey,hid]
  · rfl
  · cases h

/-- What is known of the parameters that one action or replica refers with. -/
structure PartFields (source : Entity) (refs : List FieldReference) (part : SourcePart) (p : PartialConcreteTableReference) : Prop where
  defined : ∀ r ∈ refs,∀ f,r.source = .actionField f → part.key = some (actionKey f) → ∃ v,actionFieldValue part f = some v
  fields : ∀ c,c ∈ p ↔ ∃ r ∈ refs,∃ v,sourceValue source part r = some v ∧ c = named r v

/-- The parameters of one action or replica, among those of all actions. -/
theorem partFields_of_partialReference {sub : List FieldReference} (hrefs : ∀ r ∈ refs,∃ f,r.source = .actionField f)
    (hsub : ∀ r ∈ refs,∀ f,r.source = .actionField f → (r ∈ sub ↔ part.key = some (actionKey f)))
    (hsubset : ∀ r ∈ sub,r ∈ refs)
    (hvalue : ∀ r f,r.source = .actionField f → part.key = some (actionKey f) →
      ∀ v,value r = .ok v ↔ actionFieldValue part f = some v)
    (h : partialReference value sub = .ok p) : PartFields source refs part p := by
  obtain ⟨hall,hmem⟩ := partialReference_ok h
  constructor
  · intro r hr f hf hkey
    obtain ⟨v,hv⟩ := hall r ((hsub r hr f hf).mpr hkey)
    exact ⟨v,(hvalue r f hf hkey v).mp hv⟩
  · intro c
    rw [hmem]
    constructor
    · rintro ⟨r,hr,v,hv,rfl⟩
      obtain ⟨f,hf⟩ := hrefs r (hsubset r hr)
      have hkey := (hsub r (hsubset r hr) f hf).mp hr
      refine ⟨r,hsubset r hr,v,?_,rfl⟩
      rw [sourceValue,hf]
      exact (hvalue r f hf hkey v).mp hv
    · rintro ⟨r,hr,v,hv,rfl⟩
      obtain ⟨f,hf⟩ := hrefs r hr
      rw [sourceValue,hf] at hv
      have hkey := actionFieldValue_key hv
      exact ⟨r,(hsub r hr f hf).mpr hkey,v,(hvalue r f hf hkey v).mpr hv,rfl⟩

theorem partFields_of_action (hrefs : ∀ r ∈ refs,∃ f,r.source = .actionField f) {a : Action}
    (h : getPartialReferenceFromAction (ofAction a.actionId refs) a = .ok p) :
    PartFields source refs (.action a) p := by
  refine partFields_of_partialReference hrefs (fun r hr f hf => ?_) (fun r hr => List.mem_of_mem_filter hr) (fun r f hf hkey v => ?_) h
  · rw [List.mem_filter,hf]
    cases f <;> simp [hr,SourcePart.key,actionKey,eq_comm]
  · cases f with
    | p4ActionField f =>
      have hid : f.actionId = a.actionId := (Option.some.inj (Option.some.inj hkey)).symm
      simp [actionFieldValue,hid,hf,p4ActionField,toOption_eq_some]
    | builtInActionField f => cases hkey
    | notSet => cases hkey

private theorem partFields_of_replica (hrefs : ∀ r ∈ refs,∃ f,r.source = .actionField f) {replica : Replica}
    (h : getPartialReferenceFromReplica (ofReplica refs) replica = .ok p) :
    PartFields source refs (.replica replica) p := by
  refine partFields_of_partialReference hrefs (fun r hr f hf => ?_) (fun r hr => List.mem_of_mem_filter hr) (fun r f hf hkey v => ?_) h
  · rw [List.mem_filter,hf]
    cases f <;> simp [hr,SourcePart.key,actionKey]
  · cases f with
    | p4ActionField f => cases hkey
    | builtInActionField f => simp [actionFieldValue,hf,builtInActionField,toOption_eq_some]
    | notSet => simp [actionFieldValue,hf,builtInActionField,getReplicaFieldValue]

private theorem actionPartialReferences_ok (hrefs : ∀ r ∈ refs,∃ f,r.source = .actionField f)
    {ps : List PartialConcreteTableReference} (h : actionPartialReferences refs source = .ok ps) :
    List.Forall₂ (PartFields source refs) (sourceActions source) ps := by
  unfold actionPartialReferences at h
  split at h
  · rename_i e
    split at h
    · rename_i a ha
      have hactions : sourceActions (.tableEntry e) = [a].map .action := by simp only [sourceActions,ha,List.map_cons,List.map_nil]
      rw [hactions]
      exact List.forall₂_map_left_iff.mpr ((mapM_eq_ok.mp h).imp fun a p hp => partFields_of_action hrefs hp)
    · rename_i actions ha
      have hactions : sourceActions (.tableEntry e) = actions.map fun a => .action a.action := by simp only [sourceActions,ha]
      rw [hactions]
      exact List.forall₂_map_left_iff.mpr ((mapM_eq_ok.mp h).imp fun a p hp => partFields_of_action hrefs hp)
    · cases h
  · exact List.forall₂_map_left_iff.mpr ((mapM_eq_ok.mp h).imp fun r p hp => partFields_of_replica hrefs hp)
  · cases h

/-- What an entity with outgoing references is known to have. -/
structure OutgoingSource (info : IrTableReference) (source : Entity) : Prop where
  matchFields : ∀ r ∈ info.fieldReferences,∀ f,r.source = .matchField f → ∃ value,getMatchFieldValue f source = .ok value
  actionFields : ∀ part ∈ sourceActions source,∀ r ∈ info.fieldReferences,∀ f,r.source = .actionField f →
    part.key = some (actionKey f) → ∃ v,actionFieldValue part f = some v

theorem mem_referredFields : c ∈ referredFields info source part ↔
    ∃ r ∈ info.fieldReferences,∃ v,sourceValue source part r = some v ∧ c = named r v := by
  unfold referredFields
  simp only [List.mem_toFinset,List.mem_filterMap,Option.map_eq_some_iff,named]
  constructor
  · rintro ⟨r,hr,v,hv,rfl⟩
    exact ⟨r,hr,v,hv,rfl⟩
  · rintro ⟨r,hr,v,hv,rfl⟩
    exact ⟨r,hr,v,hv,rfl⟩

theorem mem_referredFields_iff {actionRefs : List FieldReference}
    (hmatch : ∀ r,r ∈ matchRefs ↔ r ∈ info.fieldReferences ∧ ∃ f,r.source = .matchField f)
    (haction : ∀ r,r ∈ actionRefs ↔ r ∈ info.fieldReferences ∧ ∃ f,r.source = .actionField f) :
    c ∈ referredFields info source part ↔
      (∃ r ∈ actionRefs,∃ v,sourceValue source part r = some v ∧ c = named r v) ∨
        ∃ r ∈ matchRefs,∃ v,sourceValue source part r = some v ∧ c = named r v := by
  rw [mem_referredFields]
  constructor
  · rintro ⟨r,hr,v,hv,rfl⟩
    cases hsource : r.source with
    | matchField f => exact .inr ⟨r,(hmatch r).mpr ⟨hr,f,hsource⟩,v,hv,rfl⟩
    | actionField f => exact .inl ⟨r,(haction r).mpr ⟨hr,f,hsource⟩,v,hv,rfl⟩
    | notSet => simp [sourceValue,hsource] at hv
  · rintro (⟨r,hr,v,hv,rfl⟩ | ⟨r,hr,v,hv,rfl⟩)
    · exact ⟨r,((haction r).mp hr).1,v,hv,rfl⟩
    · exact ⟨r,((hmatch r).mp hr).1,v,hv,rfl⟩

theorem sourceValue_matchField {f : IrMatchField} (hf : r.source = .matchField f) {v : Bytes} :
    sourceValue source part r = some v ↔ getMatchFieldValue f source = .ok (some v) := by
  simp only [sourceValue,hf,Option.join_eq_some_iff,toOption_eq_some]

theorem outgoing_ok {out : Finset ConcreteTableReference} (h : outgoingConcreteTableReferences info source = .ok out) :
    OutgoingSource info source ∧ ∀ x,x ∈ out ↔
      ∃ part ∈ sourceParts source,referredFields info source part ≠ ∅ ∧ x = referenceOf info source part := by
  obtain ⟨-,-,h⟩ := bind_eq_ok.mp h
  obtain ⟨⟨matchRefs,actionRefs⟩,hgroups,h⟩ := bind_eq_ok.mp h
  obtain ⟨ps,hps,h⟩ := bind_eq_ok.mp h
  obtain ⟨m,hm,h⟩ := bind_eq_ok.mp h
  obtain ⟨sourceName,hsourceName,h⟩ := bind_eq_ok.mp h
  obtain ⟨destinationName,hdestinationName,h⟩ := bind_eq_ok.mp h
  obtain ⟨hmatch,haction⟩ := groupByType_ok hgroups
  have hparts := actionPartialReferences_ok (fun r hr => ((haction r).mp hr).2) hps
  obtain ⟨hdefined,hfields⟩ := matchFieldPartialReference_ok hm
  have hm (part : SourcePart) (c : ConcreteFieldReference) : c ∈ m ↔ ∃ r ∈ matchRefs,∃ v,sourceValue source part r = some v ∧
      c = named r v := by
    rw [hfields]
    refine exists_congr fun r => and_congr_right fun hr => exists_congr fun v => and_congr_left fun _ => ?_
    obtain ⟨f,hf⟩ := ((hmatch r).mp hr).2
    rw [sourceValue_matchField hf,hf,irMatchField]
  have hpart (part : SourcePart) (p : PartialConcreteTableReference) (hp : PartFields source actionRefs part p) :
      p ∪ m = referredFields info source part := by
    ext c
    rw [Finset.mem_union,hp.fields,hm part,mem_referredFields_iff hmatch haction]
  have hmatchOnly : m = referredFields info source .matchOnly := by
    ext c
    rw [hm .matchOnly,mem_referredFields_iff hmatch haction,or_iff_right]
    rintro ⟨r,hr,v,hv,-⟩
    obtain ⟨f,hf⟩ := ((haction r).mp hr).2
    simp [sourceValue,hf,actionFieldValue] at hv
  have hnames (p : PartialConcreteTableReference) : (⟨sourceName,destinationName,p⟩ : ConcreteTableReference) =
      ⟨nameOfTable info.sourceTable,nameOfTable info.destinationTable,p⟩ := by
    rw [nameOfTable_of_ok hsourceName,nameOfTable_of_ok hdestinationName]
  refine ⟨⟨fun r hr f hf => ?_,fun part hpart r hr f hf hkey => ?_⟩,fun x => ?_⟩
  · obtain ⟨value,hvalue⟩ := hdefined r ((hmatch r).mpr ⟨hr,f,hf⟩)
    rw [hf] at hvalue
    exact ⟨value,hvalue⟩
  · obtain ⟨p,-,hp⟩ := exists_of_forall₂_left hparts hpart
    exact hp.defined r ((haction r).mpr ⟨hr,f,hf⟩) f hf hkey
  · cases hactions : sourceActions source with
    | nil =>
      rw [hactions,List.forall₂_nil_left_iff] at hparts
      subst hparts
      have hsource : sourceParts source = [.matchOnly] := by simp [sourceParts,hactions]
      rw [hsource]
      simp only [List.mem_singleton,exists_eq_left,referenceOf,← hmatchOnly,← hnames]
      by_cases hempty : m = ∅
      · simp [hempty,nonemptyReferences] at h
        simp [← h,hempty]
      · simp [hempty] at h
        simp [← h,hempty]
    | cons part parts =>
      have hsource : sourceParts source = sourceActions source := by simp [sourceParts,hactions]
      have hne : ps.isEmpty = false := by
        rw [hactions] at hparts
        cases hparts
        rfl
      simp only [hne,Bool.false_and,Bool.false_eq_true,if_false,Except.ok.injEq] at h
      rw [hsource,← h,mem_nonemptyReferences]
      constructor
      · rintro ⟨q,hq,hnonempty,rfl⟩
        obtain ⟨p,hp,rfl⟩ := List.mem_map.mp hq
        obtain ⟨part,hpartMem,hfieldsOf⟩ := exists_of_forall₂_right hparts hp
        rw [hpart part p hfieldsOf] at hnonempty ⊢
        exact ⟨part,hpartMem,hnonempty,hnames _⟩
      · rintro ⟨part,hpartMem,hnonempty,rfl⟩
        obtain ⟨p,hp,hfieldsOf⟩ := exists_of_forall₂_left hparts hpartMem
        refine ⟨p ∪ m,List.mem_map_of_mem hp,?_⟩
        rw [hpart part p hfieldsOf]
        exact ⟨hnonempty,(hnames _).symm⟩

end Outgoing

section Incoming
variable {info : IrTableReference} {destination : Entity}

/-- The fields that references of a list find in the destination. -/
def DestinationFields (destination : Entity) (refs : List FieldReference) (c : ConcreteFieldReference) : Prop :=
  ∃ r ∈ refs,∃ v,destinationValue destination r = some v ∧ c = named r v

/-- The references that an entity can satisfy: all non-optional match fields, some of the
optional ones, and the parameters of at most one action. -/
structure IncomingReferences (info : IrTableReference) (destination : Entity) (inc : Finset ConcreteTableReference)
    (matchRefs : List FieldReference) (groups : List (List FieldReference)) : Prop where
  matchRefs_iff : ∀ r,r ∈ matchRefs ↔ r ∈ info.fieldReferences ∧ ∃ f,r.source = .matchField f
  group_of : ∀ r ∈ info.fieldReferences,∀ a,r.source = .actionField a → ∃ group ∈ groups,∀ s,s ∈ group ↔
    s ∈ info.fieldReferences ∧ ∃ b,s.source = .actionField b ∧ getNameOfAction b = getNameOfAction a
  group_subset : ∀ group ∈ groups,∀ r ∈ group,r ∈ info.fieldReferences
  matchDefined : ∀ r ∈ matchRefs,∃ v,destinationValue destination r = some v
  groupDefined : ∀ group ∈ groups,∀ r ∈ group,∃ v,destinationValue destination r = some v
  mem_iff : ∀ x,x ∈ inc ↔ ∃ (chosen : FieldReference → Prop) (group : List FieldReference),
    (group = [] ∨ group ∈ groups) ∧ (∀ r ∈ matchRefs,fieldIsOptional r.source = false → chosen r) ∧
    x.sourceTable = nameOfTable info.sourceTable ∧ x.destinationTable = nameOfTable info.destinationTable ∧ x.fields ≠ ∅ ∧
    ∀ c,c ∈ x.fields ↔ DestinationFields destination group c ∨
      ∃ r ∈ matchRefs,chosen r ∧ ∃ v,destinationValue destination r = some v ∧ c = named r v

/-- A set of optional fields and the references it comes from. -/
theorem optionalFields_iff {matchRefs : List FieldReference} {fields optionals : List ConcreteFieldReference}
    (hexact : ∀ c,c ∈ fields ↔ DestinationFields destination (matchRefs.filter fun r => !fieldIsOptional r.source) c)
    (hoptional : ∀ c,c ∈ optionals ↔ DestinationFields destination (matchRefs.filter fun r => fieldIsOptional r.source) c)
    (m : PartialConcreteTableReference) : (∃ t ⊆ optionals.toFinset,m = fields.toFinset ∪ t) ↔
      ∃ chosen : FieldReference → Prop,(∀ r ∈ matchRefs,fieldIsOptional r.source = false → chosen r) ∧
        ∀ c,c ∈ m ↔ ∃ r ∈ matchRefs,chosen r ∧ ∃ v,destinationValue destination r = some v ∧ c = named r v := by
  classical
  constructor
  · rintro ⟨t,ht,rfl⟩
    refine ⟨fun r => fieldIsOptional r.source = false ∨ ∃ v,destinationValue destination r = some v ∧ named r v ∈ t,
      fun r _ h => .inl h,fun c => ?_⟩
    rw [Finset.mem_union,List.mem_toFinset,hexact]
    constructor
    · rintro (⟨r,hr,v,hv,rfl⟩ | hc)
      · obtain ⟨hr,hmandatory⟩ := List.mem_filter.mp hr
        exact ⟨r,hr,.inl (by simpa using hmandatory),v,hv,rfl⟩
      · obtain ⟨r,hr,v,hv,rfl⟩ := (hoptional c).mp (List.mem_toFinset.mp (ht hc))
        exact ⟨r,(List.mem_filter.mp hr).1,.inr ⟨v,hv,hc⟩,v,hv,rfl⟩
    · rintro ⟨r,hr,hmandatory | ⟨w,hw,hmem⟩,v,hv,rfl⟩
      · exact .inl ⟨r,List.mem_filter.mpr ⟨hr,by simp [hmandatory]⟩,v,hv,rfl⟩
      · cases hv.symm.trans hw
        exact .inr hmem
  · rintro ⟨chosen,hchosen,hm⟩
    refine ⟨m.filter fun c => c ∈ optionals,fun c hc => List.mem_toFinset.mpr (Finset.mem_filter.mp hc).2,?_⟩
    ext c
    rw [Finset.mem_union,List.mem_toFinset,hexact,Finset.mem_filter,hm,hoptional]
    constructor
    · rintro ⟨r,hr,hchosen,v,hv,rfl⟩
      cases hopt : fieldIsOptional r.source with
      | false => exact .inl ⟨r,List.mem_filter.mpr ⟨hr,by simp [hopt]⟩,v,hv,rfl⟩
      | true => exact .inr ⟨⟨r,hr,hchosen,v,hv,rfl⟩,r,List.mem_filter.mpr ⟨hr,hopt⟩,v,hv,rfl⟩
    · rintro (⟨r,hr,v,hv,rfl⟩ | ⟨h,-⟩)
      · obtain ⟨hr,hmandatory⟩ := List.mem_filter.mp hr
        exact ⟨r,hr,hchosen r hr (by simpa using hmandatory),v,hv,rfl⟩
      · exact h

theorem incoming_ok (h : possibleIncomingConcreteTableReferences info destination = .ok inc) :
    ∃ matchRefs groups,IncomingReferences info destination inc matchRefs groups := by
  obtain ⟨-,-,h⟩ := bind_eq_ok.mp h
  obtain ⟨⟨matchRefs,groups⟩,hgroups,h⟩ := bind_eq_ok.mp h
  obtain ⟨actionParts,hactionParts,h⟩ := bind_eq_ok.mp h
  obtain ⟨exact,hexact,h⟩ := bind_eq_ok.mp h
  obtain ⟨optionals,hoptionals,h⟩ := bind_eq_ok.mp h
  obtain ⟨sourceName,hsourceName,h⟩ := bind_eq_ok.mp h
  obtain ⟨destinationName,hdestinationName,h⟩ := bind_eq_ok.mp h
  obtain ⟨hmatch,hgroupOf,hgroupSubset⟩ := groupByActionName_ok hgroups
  obtain ⟨hexactDefined,hexactFields⟩ := mapM_named destinationField_ok hexact
  obtain ⟨hoptionalDefined,hoptionalFields⟩ := mapM_named destinationField_ok hoptionals
  have hparts : List.Forall₂ (fun group p => (∀ r ∈ group,∃ v,destinationValue destination r = some v) ∧
      ∀ c,c ∈ p ↔ DestinationFields destination group c) groups actionParts := by
    refine (mapM_eq_ok.mp hactionParts).imp fun group p hp => ?_
    obtain ⟨fields,hfields,rfl⟩ := map_eq_ok.mp hp
    obtain ⟨hdefined,hmem⟩ := mapM_named destinationField_ok hfields
    exact ⟨hdefined,fun c => by rw [List.mem_toFinset,hmem,DestinationFields]⟩
  refine ⟨matchRefs,groups,hmatch,hgroupOf,hgroupSubset,fun r hr => ?_,fun group hgroup r hr => ?_,fun x => ?_⟩
  · cases hoptional : fieldIsOptional r.source with
    | false => exact hexactDefined r (List.mem_filter.mpr ⟨hr,by simp [hoptional]⟩)
    | true => exact hoptionalDefined r (List.mem_filter.mpr ⟨hr,hoptional⟩)
  · obtain ⟨p,-,hp⟩ := exists_of_forall₂_left hparts hgroup
    exact hp.1 r hr
  · have hmatchPart := @optionalFields_iff destination matchRefs _ _ hexactFields hoptionalFields
    have hwith (m : PartialConcreteTableReference) : m ∈ withOptionals [exact.toFinset] optionals ↔
        ∃ t ⊆ optionals.toFinset,m = exact.toFinset ∪ t := by
      rw [mem_withOptionals]
      simp only [List.mem_singleton,exists_eq_left]
    cases h
    rw [Finset.mem_union,mem_nonemptyReferences,mem_nonemptyReferences,nameOfTable_of_ok hsourceName,
      nameOfTable_of_ok hdestinationName]
    constructor
    · rintro (⟨m,hm,hne,rfl⟩ | ⟨p,hp,hne,rfl⟩)
      · obtain ⟨chosen,hchosen,hfields⟩ := (hmatchPart m).mp ((hwith m).mp hm)
        refine ⟨chosen,[],.inl rfl,hchosen,rfl,rfl,hne,fun c => ?_⟩
        rw [hfields,or_iff_right]
        rintro ⟨r,hr,-⟩
        cases hr
      · obtain ⟨m,hm,hp⟩ := List.mem_flatMap.mp hp
        obtain ⟨q,hq,rfl⟩ := List.mem_map.mp hp
        obtain ⟨group,hgroup,-,hqFields⟩ := exists_of_forall₂_right hparts hq
        obtain ⟨chosen,hchosen,hfields⟩ := (hmatchPart m).mp ((hwith m).mp hm)
        refine ⟨chosen,group,.inr hgroup,hchosen,rfl,rfl,hne,fun c => ?_⟩
        rw [Finset.mem_union,hqFields,hfields]
    · rintro ⟨chosen,group,hgroup,hchosen,hsource,hdestination,hne,hfields⟩
      obtain ⟨sourceTable,destinationTable,fields⟩ := x
      obtain rfl : sourceTable = sourceName := hsource
      obtain rfl : destinationTable = destinationName := hdestination
      rcases hgroup with rfl | hgroup
      · refine .inl ⟨fields,(hwith fields).mpr ((hmatchPart fields).mpr ⟨chosen,hchosen,fun c => ?_⟩),hne,rfl⟩
        rw [hfields,or_iff_right]
        rintro ⟨r,hr,-⟩
        cases hr
      · obtain ⟨q,hq,-,hqFields⟩ := exists_of_forall₂_left hparts hgroup
        classical
        let m := fields.filter fun c => ∃ r ∈ matchRefs,chosen r ∧ ∃ v,destinationValue destination r = some v ∧ c = named r v
        have hm (c : ConcreteFieldReference) : c ∈ m ↔
            ∃ r ∈ matchRefs,chosen r ∧ ∃ v,destinationValue destination r = some v ∧ c = named r v := by
          rw [Finset.mem_filter,hfields]
          exact ⟨fun h => h.2,fun h => ⟨.inr h,h⟩⟩
        have hunion : fields = q ∪ m := by
          ext c
          rw [Finset.mem_union,hqFields,hm]
          exact hfields c
        refine .inr ⟨fields,?_,hne,rfl⟩
        rw [hunion]
        exact List.mem_flatMap.mpr ⟨m,(hwith m).mpr ((hmatchPart m).mpr ⟨chosen,hchosen,hm⟩),List.mem_map_of_mem hq⟩

theorem IncomingReferences.field (h : IncomingReferences info destination inc matchRefs groups)
    (hx : x ∈ inc) (hc : c ∈ x.fields) : DestinationFields destination info.fieldReferences c := by
  obtain ⟨chosen,group,hgroup,-,-,-,-,hfields⟩ := (h.mem_iff x).mp hx
  rcases (hfields c).mp hc with ⟨r,hr,hv⟩ | ⟨r,hr,-,hv⟩
  · rcases hgroup with rfl | hgroup
    · cases hr
    · exact ⟨r,h.group_subset group hgroup r hr,hv⟩
  · exact ⟨r,((h.matchRefs_iff r).mp hr).1,hv⟩

end Incoming

section Matching
variable {info : IrTableReference} {source destination : Entity}

private theorem actionDefined_of_mem (h : OutgoingSource info source) (hpart : part ∈ sourceParts source)
    (hr : r ∈ info.fieldReferences) {f : IrActionField} (hf : r.source = .actionField f) (hkey : part.key = some (actionKey f)) :
    ∃ v,actionFieldValue part f = some v := by
  unfold sourceParts at hpart
  split at hpart
  · rw [List.mem_singleton.mp hpart] at hkey
    cases hkey
  · exact h.actionFields part hpart r hr f hf hkey

private theorem getMatchFieldValue_none {f : IrMatchField} (h : getMatchFieldValue f source = .ok none) :
    fieldIsOptional (.matchField f) = true := by
  unfold getMatchFieldValue at h
  split at h
  · split at h
    · unfold getP4MatchFieldValue at h
      split at h
      all_goals first | cases h | (split_ifs at h with hoptional; exact hoptional)
    · cases h
  · split at h
    · obtain ⟨v,-,hv⟩ := map_eq_ok.mp h
      cases hv
    · cases h
  · cases h

theorem IncomingReferences.exists_group
    (h : IncomingReferences info destination inc matchRefs groups) (hconsistent : Consistent info)
    (part : SourcePart) : ∃ group,(group = [] ∨ group ∈ groups) ∧ ∀ r,r ∈ group ↔
      r ∈ info.fieldReferences ∧ ∃ f,r.source = .actionField f ∧ part.key = some (actionKey f) := by
  by_cases hany : ∃ r ∈ info.fieldReferences,∃ a,r.source = .actionField a ∧ part.key = some (actionKey a)
  · obtain ⟨r,hr,a,ha,hkey⟩ := hany
    obtain ⟨group,hgroup,hiff⟩ := h.group_of r hr a ha
    refine ⟨group,.inr hgroup,fun s => (hiff s).trans (and_congr_right fun hs => exists_congr fun b => and_congr_right fun hb => ?_)⟩
    rw [hconsistent.actions s hs r hr b a hb ha,hkey,Option.some_inj,eq_comm]
  · refine ⟨[],.inl rfl,fun r => ⟨fun hr => absurd hr List.not_mem_nil,fun ⟨hr,f,hf,hkey⟩ => ?_⟩⟩
    exact absurd ⟨r,hr,f,hf,hkey⟩ hany

theorem referenceOf_mem_iff (hconsistent : Consistent info) (hsource : OutgoingSource info source)
    (hpart : part ∈ sourceParts source) (hne : referredFields info source part ≠ ∅)
    (hinc : possibleIncomingConcreteTableReferences info destination = .ok inc) :
    referenceOf info source part ∈ inc ↔ Satisfies info source part destination := by
  obtain ⟨matchRefs,groups,h⟩ := incoming_ok hinc
  constructor
  · intro hmem r hr v hv
    have hc : named r v ∈ (referenceOf info source part).fields := mem_referredFields.mpr ⟨r,hr,v,hv,rfl⟩
    obtain ⟨s,hs,w,hw,heq⟩ := h.field hmem hc
    obtain ⟨-,hname,hvalue⟩ := ConcreteFieldReference.mk.inj heq
    rw [destinationValue,hconsistent.destinations r hr s hs hname,hvalue]
    exact hw
  · intro hsat
    have hvalue (r : FieldReference) (hr : r ∈ info.fieldReferences) (w : Bytes) (hw : destinationValue destination r = some w)
        (hsome : ∃ v,sourceValue source part r = some v) : sourceValue source part r = some w := by
      obtain ⟨v,hv⟩ := hsome
      rw [hv,← hw,hsat r hr v hv]
    obtain ⟨group,hgroup,hgroupIff⟩ := h.exists_group hconsistent part
    refine (h.mem_iff _).mpr ⟨fun r => ∃ v,sourceValue source part r = some v,group,hgroup,fun r hr hmandatory => ?_,rfl,rfl,hne,
      fun c => ?_⟩
    · obtain ⟨hr,f,hf⟩ := (h.matchRefs_iff r).mp hr
      obtain ⟨value,hget⟩ := hsource.matchFields r hr f hf
      cases value with
      | none =>
        rw [hf,getMatchFieldValue_none hget] at hmandatory
        cases hmandatory
      | some v => exact ⟨v,(sourceValue_matchField hf).mpr hget⟩
    · rw [referenceOf,mem_referredFields]
      constructor
      · rintro ⟨r,hr,v,hv,rfl⟩
        have hdestination := hsat r hr v hv
        cases hf : r.source with
        | matchField f => exact .inr ⟨r,(h.matchRefs_iff r).mpr ⟨hr,f,hf⟩,⟨v,hv⟩,v,hdestination,rfl⟩
        | actionField f =>
          have hkey : part.key = some (actionKey f) := by
            rw [sourceValue,hf] at hv
            exact actionFieldValue_key hv
          exact .inl ⟨r,(hgroupIff r).mpr ⟨hr,f,hf,hkey⟩,v,hdestination,rfl⟩
        | notSet => simp [sourceValue,hf] at hv
      · rintro (⟨r,hr,v,hv,rfl⟩ | ⟨r,hr,hsome,v,hv,rfl⟩)
        · obtain ⟨hr,f,hf,hkey⟩ := (hgroupIff r).mp hr
          obtain ⟨w,hw⟩ := actionDefined_of_mem hsource hpart hr hf hkey
          refine ⟨r,hr,v,hvalue r hr v hv ⟨w,?_⟩,rfl⟩
          rw [sourceValue,hf]
          exact hw
        · have hr := ((h.matchRefs_iff r).mp hr).1
          exact ⟨r,hr,v,hvalue r hr v hv hsome,rfl⟩

end Matching

section Unsatisfied

def hasTableId (id : UInt32) : IrTable → Bool
  | .p4Table _ tableId => tableId = id
  | _ => false

/-- The references of a P4Info: each is listed at its source and at its destination table, and
there is at most one between two tables. They were parsed from `p4info`, before the parts of it
that are not supported were removed. -/
structure ReferencesListed (p4info info : IrP4Info) (all : List IrTableReference) : Prop where
  parsed : ∀ r ∈ all,ParsedFrom p4info r
  outgoing : ∀ x ∈ info.tablesById,x.2.outgoingReferences = all.filter fun r => hasTableId x.1 r.sourceTable
  incoming : ∀ x ∈ info.tablesById,x.2.incomingReferences = all.filter fun r => hasTableId x.1 r.destinationTable
  builtInOutgoing : ∀ d ∈ info.builtInTables.lookup getMulticastGroupTableName,
    d.outgoingReferences = all.filter fun r => r.sourceTable = .builtInTable .multicastGroupTable
  builtInIncoming : ∀ d ∈ info.builtInTables.lookup getMulticastGroupTableName,
    d.incomingReferences = all.filter fun r => r.destinationTable = .builtInTable .multicastGroupTable
  unique : ∀ r ∈ all,∀ s ∈ all,nameOfTable r.sourceTable = nameOfTable s.sourceTable →
    nameOfTable r.destinationTable = nameOfTable s.destinationTable → r = s

def BelongsTo (entity : Entity) (table : IrTable) : Prop := validateEntityBelongsToTable entity table = .ok ()

theorem belongsTo_tableEntry {e : TableEntry} {table : IrTable} :
    BelongsTo (.tableEntry e) table ↔ hasTableId e.tableId table = true := by
  unfold BelongsTo validateEntityBelongsToTable hasTableId
  cases table with
  | p4Table name id => by_cases h : e.tableId = id <;> simp [h,Ne.symm]
  | builtInTable t => simp
  | notSet => simp

theorem belongsTo_multicastGroupEntry {e : MulticastGroupEntry} {table : IrTable} :
    BelongsTo (.packetReplicationEngineEntry (.multicastGroupEntry e)) table ↔ table = .builtInTable .multicastGroupTable := by
  unfold BelongsTo validateEntityBelongsToTable
  cases table with
  | p4Table name id => simp
  | builtInTable t => by_cases h : t = .multicastGroupTable <;> simp [h]
  | notSet => simp

variable {p4info info : IrP4Info} {all : List IrTableReference}

private theorem mem_tableReferences {ofTable : IrTableDefinition → List IrTableReference}
    {ofBuiltIn : IrBuiltInTableDefinition → List IrTableReference} {side : IrTableReference → IrTable}
    (hof : ∀ x ∈ info.tablesById,ofTable x.2 = all.filter fun r => hasTableId x.1 (side r))
    (hofBuiltIn : ∀ d ∈ info.builtInTables.lookup getMulticastGroupTableName,
      ofBuiltIn d = all.filter fun r => side r = .builtInTable .multicastGroupTable) {refs : List IrTableReference}
    (hrefs : getTableReferences ofTable ofBuiltIn info entity = .ok refs) (r : IrTableReference) :
    r ∈ refs ↔ r ∈ all ∧ BelongsTo entity (side r) := by
  unfold getTableReferences at hrefs
  split at hrefs
  · obtain ⟨table,htable,rfl⟩ := map_eq_ok.mp hrefs
    rw [hof _ (mem_of_lookup_eq_some (findPtrOrStatus_eq_ok.mp htable)),List.mem_filter,belongsTo_tableEntry]
  · obtain ⟨d,hd,rfl⟩ := map_eq_ok.mp hrefs
    rw [hofBuiltIn d (findPtrOrStatus_eq_ok.mp hd),List.mem_filter,belongsTo_multicastGroupEntry,decide_eq_true_eq]
  · cases hrefs

theorem ReferencesListed.mem_outgoing (h : ReferencesListed p4info info all) {refs : List IrTableReference}
    (hrefs : getOutgoingTableReferences info entity = .ok refs) (r : IrTableReference) :
    r ∈ refs ↔ r ∈ all ∧ BelongsTo entity r.sourceTable := mem_tableReferences h.outgoing h.builtInOutgoing hrefs r

theorem ReferencesListed.mem_incoming (h : ReferencesListed p4info info all) {refs : List IrTableReference}
    (hrefs : getIncomingTableReferences info entity = .ok refs) (r : IrTableReference) :
    r ∈ refs ↔ r ∈ all ∧ BelongsTo entity r.destinationTable := mem_tableReferences h.incoming h.builtInIncoming hrefs r

theorem mem_satisfiable (h : ReferencesListed p4info info all) {entities : List Entity}
    {satisfiable : List (List (Finset ConcreteTableReference))}
    (hsat : entities.mapM (satisfiableReferences info) = .ok satisfiable) (inc : Finset ConcreteTableReference) :
    inc ∈ satisfiable.flatten ↔ ∃ d ∈ entities,∃ r ∈ all,BelongsTo d r.destinationTable ∧
      possibleIncomingConcreteTableReferences r d = .ok inc := by
  rw [mem_flatten_of_mapM hsat]
  refine exists_congr fun d => and_congr_right fun hd => ?_
  obtain ⟨incs,hincs⟩ := exists_mapM_eq_ok.mp ⟨satisfiable,hsat⟩ d hd
  obtain ⟨refs,hrefs,hmap⟩ := bind_eq_ok.mp hincs
  constructor
  · rintro ⟨incs',hincs',hinc⟩
    cases hincs.symm.trans hincs'
    obtain ⟨r,hr,hok⟩ := (mem_of_mapM hmap).mp hinc
    obtain ⟨hall,hbelongs⟩ := (h.mem_incoming hrefs r).mp hr
    exact ⟨r,hall,hbelongs,hok⟩
  · rintro ⟨r,hr,hbelongs,hok⟩
    exact ⟨incs,hincs,(mem_of_mapM hmap).mpr ⟨r,(h.mem_incoming hrefs r).mpr ⟨hr,hbelongs⟩,hok⟩⟩

theorem incoming_tables {r : IrTableReference} {d : Entity}
    (hinc : possibleIncomingConcreteTableReferences r d = .ok inc) (hx : x ∈ inc) :
    x.sourceTable = nameOfTable r.sourceTable ∧ x.destinationTable = nameOfTable r.destinationTable := by
  obtain ⟨matchRefs,groups,h⟩ := incoming_ok hinc
  obtain ⟨_,_,-,-,hsource,hdestination,-⟩ := (h.mem_iff x).mp hx
  exact ⟨hsource,hdestination⟩

/-- The unsatisfied references of one entity among others. -/
theorem mem_unsatisfiedReferences (hp4info : p4info.WellFormed) (h : ReferencesListed p4info info all) {entities : List Entity}
    {satisfiable : List (List (Finset ConcreteTableReference))} (hsat : entities.mapM (satisfiableReferences info) = .ok satisfiable)
    {row : EntityWithUnsatisfiedReferences} (hrow : unsatisfiedReferences info satisfiable.flatten entity = .ok row) :
    row.entity = entity ∧ ∀ x,x ∈ row.unsatisfiedReferences ↔ ∃ r ∈ all,BelongsTo entity r.sourceTable ∧
      ∃ part ∈ sourceParts entity,referredFields r entity part ≠ ∅ ∧ x = referenceOf r entity part ∧
        ∀ d ∈ entities,BelongsTo d r.destinationTable → ¬ Satisfies r entity part d := by
  obtain ⟨refs,hrefs,hrow⟩ := bind_eq_ok.mp hrow
  obtain ⟨concrete,hconcrete,hrow⟩ := bind_eq_ok.mp hrow
  cases hrow
  refine ⟨rfl,fun x => ?_⟩
  have hunsatisfied (r : IrTableReference) (hr : r ∈ all) (out : Finset ConcreteTableReference)
      (hout : outgoingConcreteTableReferences r entity = .ok out) (part : SourcePart) (hpart : part ∈ sourceParts entity)
      (hne : referredFields r entity part ≠ ∅) : (∀ s ∈ satisfiable.flatten,referenceOf r entity part ∉ s) ↔
        ∀ d ∈ entities,BelongsTo d r.destinationTable → ¬ Satisfies r entity part d := by
    have hiff {d : Entity} {inc : Finset ConcreteTableReference} (hinc : possibleIncomingConcreteTableReferences r d = .ok inc) :=
      referenceOf_mem_iff ((h.parsed r hr).consistent hp4info) (outgoing_ok hout).1 hpart hne hinc
    constructor
    · intro hnot d hd hbelongs
      obtain ⟨incs,hincs⟩ := exists_mapM_eq_ok.mp ⟨satisfiable,hsat⟩ d hd
      obtain ⟨drefs,hdrefs,hmap⟩ := bind_eq_ok.mp hincs
      obtain ⟨inc,hinc⟩ := exists_mapM_eq_ok.mp ⟨incs,hmap⟩ r ((h.mem_incoming hdrefs r).mpr ⟨hr,hbelongs⟩)
      rw [← hiff hinc]
      exact hnot inc ((mem_satisfiable h hsat inc).mpr ⟨d,hd,r,hr,hbelongs,hinc⟩)
    · intro hnot s hs hmem
      obtain ⟨d,hd,r',hr',hbelongs,hinc⟩ := (mem_satisfiable h hsat s).mp hs
      obtain ⟨hsource,hdestination⟩ := incoming_tables hinc hmem
      obtain rfl : r = r' := h.unique r hr r' hr' hsource hdestination
      exact hnot d hd hbelongs ((hiff hinc).mp hmem)
  have hmem : x ∈ (concrete.map fun refs => (refs.filter fun r => ∀ s ∈ satisfiable.flatten,r ∉ s).val).sum ↔
      ∃ out ∈ concrete,x ∈ out ∧ ∀ s ∈ satisfiable.flatten,x ∉ s := by
    rw [← Multiset.sum_coe]
    refine Multiset.mem_join.trans ?_
    simp only [Multiset.mem_coe,List.mem_map,exists_exists_and_eq_and,Finset.mem_val,Finset.mem_filter]
  rw [hmem]
  constructor
  · rintro ⟨out,hout,hx,hnot⟩
    obtain ⟨r,hr,hok⟩ := (mem_of_mapM hconcrete).mp hout
    obtain ⟨hall,hbelongs⟩ := (h.mem_outgoing hrefs r).mp hr
    obtain ⟨part,hpart,hne,rfl⟩ := ((outgoing_ok hok).2 x).mp hx
    exact ⟨r,hall,hbelongs,part,hpart,hne,rfl,(hunsatisfied r hall out hok part hpart hne).mp hnot⟩
  · rintro ⟨r,hall,hbelongs,part,hpart,hne,rfl,hnot⟩
    obtain ⟨out,hok⟩ := exists_mapM_eq_ok.mp ⟨concrete,hconcrete⟩ r ((h.mem_outgoing hrefs r).mpr ⟨hall,hbelongs⟩)
    refine ⟨out,(mem_of_mapM hconcrete).mpr ⟨r,(h.mem_outgoing hrefs r).mpr ⟨hall,hbelongs⟩,hok⟩,?_,?_⟩
    · exact ((outgoing_ok hok).2 _).mpr ⟨part,hpart,hne,rfl⟩
    · exact (hunsatisfied r hall out hok part hpart hne).mpr hnot

/-- The references of an entity are satisfied exactly by the entities with its values, and those
that no listed entity satisfies are reported. -/
theorem references_matched_exactly (p4info : IrP4Info) (hp4info : p4info.WellFormed) :
    (∀ reference source out,ParsedFrom p4info reference → outgoingConcreteTableReferences reference source = .ok out →
      (∀ x,x ∈ out ↔ ∃ part ∈ sourceParts source,referredFields reference source part ≠ ∅ ∧ x = referenceOf reference source part) ∧
      ∀ destination inc,possibleIncomingConcreteTableReferences reference destination = .ok inc →
        ∀ part ∈ sourceParts source,referredFields reference source part ≠ ∅ →
          (referenceOf reference source part ∈ inc ↔ Satisfies reference source part destination)) ∧
    ∀ info all entities result,ReferencesListed p4info info all → unsatisfiedOutgoingReferences entities info = .ok result →
      ∃ rows : List EntityWithUnsatisfiedReferences,rows.map EntityWithUnsatisfiedReferences.entity = entities ∧
        result = rows.filter (fun row => row.unsatisfiedReferences ≠ 0) ∧
        ∀ row ∈ rows,∀ x,x ∈ row.unsatisfiedReferences ↔ ∃ reference ∈ all,BelongsTo row.entity reference.sourceTable ∧
          ∃ part ∈ sourceParts row.entity,referredFields reference row.entity part ≠ ∅ ∧ x = referenceOf reference row.entity part ∧
            ∀ destination ∈ entities,BelongsTo destination reference.destinationTable →
              ¬ Satisfies reference row.entity part destination := by
  refine ⟨fun reference source out hparsed hout => ⟨(outgoing_ok hout).2,fun destination inc hinc part hpart hne => ?_⟩,
    fun info all entities result h hresult => ?_⟩
  · exact referenceOf_mem_iff (hparsed.consistent hp4info) (outgoing_ok hout).1 hpart hne hinc
  · obtain ⟨satisfiable,hsat,hresult⟩ := bind_eq_ok.mp hresult
    obtain ⟨rows,hrows,hresult⟩ := bind_eq_ok.mp hresult
    cases hresult
    have hrel := mapM_eq_ok.mp hrows
    refine ⟨rows,?_,rfl,fun row hrow => ?_⟩
    · calc rows.map EntityWithUnsatisfiedReferences.entity
        _ = entities.map id := map_eq_of_forall₂ hrel fun _ _ hrow => (mem_unsatisfiedReferences hp4info h hsat hrow).1
        _ = entities := List.map_id entities
    · obtain ⟨entity,-,hok⟩ := (mem_of_mapM hrows).mp hrow
      obtain ⟨rfl,hmem⟩ := mem_unsatisfiedReferences hp4info h hsat hok
      exact hmem

def referrer : IrMatchFieldDefinition := { matchField := { id := 1,name := "nexthop_id",bitwidth := 8,matchType := .exact } }
def referredInterface : IrMatchFieldDefinition := { matchField :=
    { id := 1,name := "router_interface_id",bitwidth := 8,matchType := .exact } }
def referredNeighbor : IrMatchFieldDefinition := { matchField := { id := 2,name := "neighbor_id",bitwidth := 8,matchType := .exact } }

def setNexthop : IrActionDefinition where
  preamble := { id := 20,aliasName := "set_nexthop" }
  paramsById := [(1,{ param := { id := 1,name := "router_interface_id",bitwidth := 8 } }),
    (2,{ param := { id := 2,name := "neighbor_id",bitwidth := 8 } })]
  paramsByName := [("router_interface_id",{ param := { id := 1,name := "router_interface_id",bitwidth := 8 } }),
    ("neighbor_id",{ param := { id := 2,name := "neighbor_id",bitwidth := 8 } })]

def nexthopReference : IrTableReference where
  sourceTable := .p4Table "nexthop_table" 1
  destinationTable := .p4Table "neighbor_table" 2
  fieldReferences := [
    ⟨.actionField (.p4ActionField ⟨"set_nexthop",20,"router_interface_id",1⟩),.matchField (.p4MatchField ⟨"router_interface_id",1,false⟩)⟩,
    ⟨.actionField (.p4ActionField ⟨"set_nexthop",20,"neighbor_id",2⟩),.matchField (.p4MatchField ⟨"neighbor_id",2,false⟩)⟩]

def nexthopTable : IrTableDefinition where
  preamble := { id := 1,aliasName := "nexthop_table" }
  matchFieldsById := [(1,referrer)]
  matchFieldsByName := [("nexthop_id",referrer)]
  entryActions := [setNexthop]
  outgoingReferences := [nexthopReference]

def neighborTable : IrTableDefinition where
  preamble := { id := 2,aliasName := "neighbor_table" }
  matchFieldsById := [(1,referredInterface),(2,referredNeighbor)]
  matchFieldsByName := [("router_interface_id",referredInterface),("neighbor_id",referredNeighbor)]
  incomingReferences := [nexthopReference]

def nexthopInfo : IrP4Info where
  tablesById := [(1,nexthopTable),(2,neighborTable)]
  tablesByName := [("nexthop_table",nexthopTable),("neighbor_table",neighborTable)]
  actionsById := [(20,setNexthop)]
  actionsByName := [("set_nexthop",setNexthop)]

def nexthopEntity (id neighbor : UInt8) : Entity :=
  .tableEntry { tableId := 1,matches_ := [⟨1,.exact [id]⟩],action := some (.action ⟨20,[⟨1,[5]⟩,⟨2,[neighbor]⟩]⟩) }

def neighborEntity : Entity := .tableEntry { tableId := 2,matches_ := [⟨1,.exact [5]⟩,⟨2,.exact [7]⟩] }

theorem nexthopReference_parsed : ParsedFrom nexthopInfo nexthopReference where
  source := by
    refine ⟨"nexthop_table",by decide,fun r hr => .inr ?_⟩
    rcases List.mem_cons.mp hr with rfl | hr
    · exact ⟨"set_nexthop","router_interface_id",_,by decide,rfl⟩
    · obtain rfl := List.mem_singleton.mp hr
      exact ⟨"set_nexthop","neighbor_id",_,by decide,rfl⟩
  destination := by
    refine ⟨"neighbor_table",by decide,fun r hr => ?_⟩
    rcases List.mem_cons.mp hr with rfl | hr
    · exact ⟨"router_interface_id",_,by decide,rfl⟩
    · obtain rfl := List.mem_singleton.mp hr
      exact ⟨"neighbor_id",_,by decide,rfl⟩

private theorem nexthopInfo_listed : ReferencesListed nexthopInfo nexthopInfo [nexthopReference] where
  parsed r hr := by
    rw [List.mem_singleton.mp hr]
    exact nexthopReference_parsed
  outgoing := by decide
  incoming := by decide
  builtInOutgoing := by decide
  builtInIncoming := by decide
  unique r hr s hs _ _ := by rw [List.mem_singleton.mp hr,List.mem_singleton.mp hs]

def nexthopPart (neighbor : UInt8) : SourcePart := .action ⟨20,[⟨1,[5]⟩,⟨2,[neighbor]⟩]⟩

def neighborReference (neighbor : UInt8) : ConcreteTableReference where
  sourceTable := "nexthop_table"
  destinationTable := "neighbor_table"
  fields := {⟨"set_nexthop.router_interface_id","router_interface_id",[5]⟩,⟨"set_nexthop.neighbor_id","neighbor_id",[neighbor]⟩}

/-- Of two nexthops one refers to the neighbor that exists. -/
theorem nexthops_matched : Satisfies nexthopReference (nexthopEntity 1 7) (nexthopPart 7) neighborEntity ∧
    ¬ Satisfies nexthopReference (nexthopEntity 2 8) (nexthopPart 8) neighborEntity ∧
    ∃ rows : List EntityWithUnsatisfiedReferences,
      rows.map EntityWithUnsatisfiedReferences.entity = [nexthopEntity 1 7,nexthopEntity 2 8,neighborEntity] ∧
      [⟨nexthopEntity 2 8,{neighborReference 8}⟩] = rows.filter fun row => row.unsatisfiedReferences ≠ 0 := by
  obtain ⟨hpair,hall⟩ := references_matched_exactly nexthopInfo (by decide)
  have hinc : possibleIncomingConcreteTableReferences nexthopReference neighborEntity = .ok {neighborReference 7} := by
    decide
  have hiff (id neighbor : UInt8) (out : Finset ConcreteTableReference)
      (hout : outgoingConcreteTableReferences nexthopReference (nexthopEntity id neighbor) = .ok out) :=
    (hpair nexthopReference _ out nexthopReference_parsed hout).2 neighborEntity _ hinc (nexthopPart neighbor)
      (List.mem_singleton.mpr rfl)
  have h7 := hiff 1 7 {neighborReference 7} (by decide) (by decide)
  have h8 := hiff 2 8 {neighborReference 8} (by decide) (by decide)
  refine ⟨h7.mp (by decide),fun h => absurd (h8.mpr h) (by decide),?_⟩
  obtain ⟨rows,hrows,hresult,-⟩ := hall nexthopInfo [nexthopReference] [nexthopEntity 1 7,nexthopEntity 2 8,neighborEntity]
    [⟨nexthopEntity 2 8,{neighborReference 8}⟩] nexthopInfo_listed (by decide)
  exact ⟨rows,hrows,hresult⟩

end Unsatisfied

theorem bits16_eq_iff (a b : UInt32) :
    bits16ToP4RuntimeByteString a = bits16ToP4RuntimeByteString b ↔ a.toNat % 2 ^ 16 = b.toNat % 2 ^ 16 := by
  have hne (n : UInt32) : natToBytes 2 (n.toNat % 2 ^ 16) ≠ [] := by
    apply List.ne_nil_of_length_pos
    rw [length_natToBytes]
    decide
  have hvalue (n : UInt32) : bytesToNat (natToBytes 2 (n.toNat % 2 ^ 16)) = n.toNat % 2 ^ 16 :=
    bytesToNat_natToBytes (Nat.mod_lt _ (by decide))
  unfold bits16ToP4RuntimeByteString
  rw [canonical_eq_iff (hne a) (hne b),hvalue a,hvalue b]

private theorem getBuiltInMatchFieldValue_eq_iff (e e' : MulticastGroupEntry) :
    getBuiltInMatchFieldValue .multicastGroupId e = getBuiltInMatchFieldValue .multicastGroupId e' ↔
      e.multicastGroupId.toNat % 2 ^ 16 = e'.multicastGroupId.toNat % 2 ^ 16 := by
  rw [← bits16_eq_iff]
  exact Iff.of_eq (Except.ok.injEq _ _)

private theorem getReplicaFieldValue_eq_iff (action : IrBuiltInAction) (r r' : Replica) :
    getReplicaFieldValue ⟨action,.replicaInstance⟩ r = getReplicaFieldValue ⟨action,.replicaInstance⟩ r' ↔
      r.instanceId.toNat % 2 ^ 16 = r'.instanceId.toNat % 2 ^ 16 := by
  rw [← bits16_eq_iff]
  exact Iff.of_eq (Except.ok.injEq _ _)

def multicastGroup (e : MulticastGroupEntry) : Entity := .packetReplicationEngineEntry (.multicastGroupEntry e)

theorem destinationValue_multicastGroup
    (h : r.destination = .matchField (.builtInMatchField .multicastGroupId)) (e : MulticastGroupEntry) :
    destinationValue (multicastGroup e) r = some (bits16ToP4RuntimeByteString e.multicastGroupId) := by
  rw [destinationValue,h]
  rfl

private theorem satisfies_multicastGroup_iff {info : IrTableReference} {source : Entity}
    (hdestination : ∀ r ∈ info.fieldReferences,r.destination = .matchField (.builtInMatchField .multicastGroupId))
    (hrefers : ∃ r ∈ info.fieldReferences,(sourceValue source part r).isSome) {e e' : MulticastGroupEntry}
    (h : Satisfies info source part (multicastGroup e)) : Satisfies info source part (multicastGroup e') ↔
      e.multicastGroupId.toNat % 2 ^ 16 = e'.multicastGroupId.toNat % 2 ^ 16 := by
  rw [← bits16_eq_iff]
  constructor
  · intro h'
    obtain ⟨r,hr,hsome⟩ := hrefers
    obtain ⟨v,hv⟩ := Option.isSome_iff_exists.mp hsome
    have hone := h r hr v hv
    have hother := h' r hr v hv
    rw [destinationValue_multicastGroup (hdestination r hr)] at hone hother
    exact Option.some.inj (hone.trans hother.symm)
  · intro hid r hr v hv
    calc destinationValue (multicastGroup e') r
      _ = some (bits16ToP4RuntimeByteString e'.multicastGroupId) := destinationValue_multicastGroup (hdestination r hr) e'
      _ = destinationValue (multicastGroup e) r := by rw [← hid,destinationValue_multicastGroup (hdestination r hr) e]
      _ = some v := h r hr v hv

/-- The values of group ids and instances keep sixteen bits, and so do references to groups. -/
theorem builtIn_values_keep_sixteen_bits :
    (∀ e e',getBuiltInMatchFieldValue .multicastGroupId e = getBuiltInMatchFieldValue .multicastGroupId e' ↔
      e.multicastGroupId.toNat % 2 ^ 16 = e'.multicastGroupId.toNat % 2 ^ 16) ∧
    (∀ r r',getReplicaFieldValue ⟨.replica,.replicaInstance⟩ r = getReplicaFieldValue ⟨.replica,.replicaInstance⟩ r' ↔
      r.instanceId.toNat % 2 ^ 16 = r'.instanceId.toNat % 2 ^ 16) ∧
    ∀ (info : IrTableReference) (source : Entity) (part : SourcePart),
      (∀ r ∈ info.fieldReferences,r.destination = .matchField (.builtInMatchField .multicastGroupId)) →
      (∃ r ∈ info.fieldReferences,(sourceValue source part r).isSome) → ∀ e e',Satisfies info source part (multicastGroup e) →
        (Satisfies info source part (multicastGroup e') ↔
          e.multicastGroupId.toNat % 2 ^ 16 = e'.multicastGroupId.toNat % 2 ^ 16) :=
  ⟨getBuiltInMatchFieldValue_eq_iff,getReplicaFieldValue_eq_iff .replica,
    fun _ _ _ hdestination hrefers _ _ h => satisfies_multicastGroup_iff hdestination hrefers h⟩

/-- Groups 1 and 65537 have one value, and so have replicas with these instances. -/
theorem wide_ids_share_a_value :
    ¬ (∀ e e',e.multicastGroupId ≠ e'.multicastGroupId →
      getBuiltInMatchFieldValue .multicastGroupId e ≠ getBuiltInMatchFieldValue .multicastGroupId e') ∧
    ¬ ∀ r r',r.instanceId ≠ r'.instanceId →
      getReplicaFieldValue ⟨.replica,.replicaInstance⟩ r ≠ getReplicaFieldValue ⟨.replica,.replicaInstance⟩ r' :=
  ⟨fun h => h { multicastGroupId := 1 } { multicastGroupId := 65537 } (by decide) (by decide),
    fun h => h { instanceId := 1 } { instanceId := 65537 } (by decide) (by decide)⟩

def groupReference : IrTableReference where
  sourceTable := .p4Table "l3_admit_table" 3
  destinationTable := .builtInTable .multicastGroupTable
  fieldReferences := [⟨.matchField (.p4MatchField ⟨"multicast_group_id",1,false⟩),.matchField (.builtInMatchField .multicastGroupId)⟩]

def groupReferrer : Entity := .tableEntry { tableId := 3,matches_ := [⟨1,.exact [7]⟩] }

/-- A reference to group 7 is satisfied by group 65543 and not by group 8. -/
theorem group_seven_referred :
    Satisfies groupReference groupReferrer .matchOnly (multicastGroup { multicastGroupId := 65543 }) ∧
    ¬ Satisfies groupReference groupReferrer .matchOnly (multicastGroup { multicastGroupId := 8 }) := by
  have hseven : Satisfies groupReference groupReferrer .matchOnly (multicastGroup { multicastGroupId := 7 }) := by
    intro r hr v hv
    rw [List.mem_singleton.mp hr] at hv ⊢
    exact Eq.trans (by decide) hv
  have hiff (e' : MulticastGroupEntry) := builtIn_values_keep_sixteen_bits.2.2 groupReference groupReferrer .matchOnly
    (by decide) (by decide) { multicastGroupId := 7 } e' hseven
  exact ⟨(hiff { multicastGroupId := 65543 }).mpr (by decide),fun h => absurd ((hiff { multicastGroupId := 8 }).mp h) (by decide)⟩

end SonicPins.Pdpi.References
