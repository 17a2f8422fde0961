import SonicPins.Lib.KeyedReachability
import SonicPins.Pdpi.ReferenceMatching

/-! The entities that no root reaches along references. -/
namespace SonicPins.Pdpi.References
open Lib

variable {x : ConcreteTableReference} {entity : Entity} {i : Nat}

/-- What the first loop makes of an entity. -/
inductive EntityClass where
  | multicastRoot
  | root
  | neverReferenced
  | referenced (references : Finset ConcreteTableReference)

def classifyTableEntry (info : IrP4Info) (e : TableEntry) : StatusOr EntityClass := do
  let table ← findPtrOrStatus info.tablesById e.tableId
  if table.incomingReferences.isEmpty then .ok .neverReferenced
  else
    let references ← table.incomingReferences.mapM fun r => possibleIncomingConcreteTableReferences r (.tableEntry e)
    .ok (.referenced (references.toFinset.biUnion id))

def classifyEntity (info : IrP4Info) (isRootEntity : Entity → StatusOr Bool) (entity : Entity) : StatusOr EntityClass :=
  match entity with
  | .tableEntry e => do
    match ← isRootEntity entity with
    | true => .ok .root
    | false => classifyTableEntry info e
  | .packetReplicationEngineEntry (.multicastGroupEntry _) => do
    match ← isRootEntity entity with
    | true => .ok .multicastRoot
    | false => .error ⟨.unimplemented,"Only entities of type table_entry can be garbage collected. Entity: "⟩
  | _ => .error ⟨.unimplemented,"Garbage collection only supports entities of type table entry or multicast group entry."⟩

/-- The table entry roots; roots that are multicast group entries are skipped. -/
def frontierIndices (classes : List EntityClass) : List Nat :=
  classes.zipIdx.filterMap fun x => match x.1 with
    | .root => some x.2
    | _ => none

def unreachableIndices (classes : List EntityClass) : Finset Nat :=
  (classes.zipIdx.filterMap fun x => match x.1 with
    | .neverReferenced => some x.2
    | _ => none).toFinset

def EntityClass.references : EntityClass → Finset ConcreteTableReference
  | .referenced references => references
  | _ => ∅

def potentiallyReachableEntries (classes : List EntityClass) : Finset (ConcreteTableReference × Nat) :=
  (List.range classes.length).toFinset.biUnion fun i =>
    (classes.getD i .root).references.image fun reference => (reference,i)

def entityAt (entities : List Entity) (i : Nat) : Entity := entities.getD i .notSet

/-- The references of the entity at an index, one set for each table reference. -/
def referencesAt (info : IrP4Info) (entities : List Entity) (i : Nat) : StatusOr (List (StatusOr (Finset ConcreteTableReference))) :=
  (getOutgoingTableReferences info (entityAt entities i)).map fun references =>
    references.map fun r => outgoingConcreteTableReferences r (entityAt entities i)

/-- The entities that no root reaches, when the expansion ends within the given number of steps. -/
def getEntitiesUnreachableFromRoots (steps : Nat) (entities : List Entity) (isRootEntity : Entity → StatusOr Bool)
    (info : IrP4Info) : Option (StatusOr (List Entity)) :=
  match entities.mapM (classifyEntity info isRootEntity) with
  | .error status => some (.error status)
  | .ok classes =>
    (expandFrontier (referencesAt info entities) steps (frontierIndices classes) ∅ (potentiallyReachableEntries classes)).map
      fun result => result.map fun r =>
        let notReached := (r.2.image Prod.snd).filter fun i => i ∉ r.1
        (unreachableIndices classes ∪ notReached).sort.map (entityAt entities)

section Purpose

def HasReference (info : IrP4Info) (entity : Entity) (x : ConcreteTableReference) : Prop :=
  ∃ references r out,getOutgoingTableReferences info entity = .ok references ∧ r ∈ references ∧
    outgoingConcreteTableReferences r entity = .ok out ∧ x ∈ out

/-- A concrete reference that others can have to an entity. -/
def CanBeReferenced (info : IrP4Info) (entity : Entity) (x : ConcreteTableReference) : Prop :=
  ∃ references r inc,getIncomingTableReferences info entity = .ok references ∧ r ∈ references ∧
    possibleIncomingConcreteTableReferences r entity = .ok inc ∧ x ∈ inc

def RefersToEntity (info : IrP4Info) (a b : Entity) : Prop := ∃ x,HasReference info a x ∧ CanBeReferenced info b x

variable (info : IrP4Info) (entities : List Entity) (isRootEntity : Entity → StatusOr Bool)

/-- An entity that a root of the list reaches along references, with the given sources. -/
def ReachedAlong (source : Entity → Prop) (entity : Entity) : Prop :=
  ∃ root ∈ entities,isRootEntity root = .ok true ∧
    Relation.ReflTransGen (fun a b => source a ∧ b ∈ entities ∧ RefersToEntity info a b) root entity

def Unreachable (entity : Entity) : Prop :=
  isRootEntity entity ≠ .ok true ∧ ¬ ReachedAlong info entities isRootEntity (fun _ => True) entity

def IsTableEntry (entity : Entity) : Prop := ∃ e,entity = .tableEntry e

/-- What a root reaches it also reaches without references of multicast groups, and a table that
is referred to is referred to by a field. -/
def CollectedExactly : Prop :=
  ∀ e,.tableEntry e ∈ entities → isRootEntity (.tableEntry e) ≠ .ok true →
    (ReachedAlong info entities isRootEntity (fun _ => True) (.tableEntry e) →
      ReachedAlong info entities isRootEntity IsTableEntry (.tableEntry e)) ∧
    ∀ table,info.tablesById.lookup e.tableId = some table → table.incomingReferences ≠ [] →
      ∃ r ∈ table.incomingReferences,r.fieldReferences ≠ []

end Purpose

section Incoming
variable {info : IrTableReference} {destination : Entity} {inc : Finset ConcreteTableReference}

theorem mem_destinationFields {refs : List FieldReference} {c : ConcreteFieldReference} :
    c ∈ (refs.filterMap fun r => (destinationValue destination r).map (named r)).toFinset ↔
      ∃ r ∈ refs,∃ v,destinationValue destination r = some v ∧ c = named r v := by
  simp only [List.mem_toFinset,List.mem_filterMap,Option.map_eq_some_iff]
  refine exists_congr fun r => and_congr_right fun _ => exists_congr fun v => and_congr_right fun _ => eq_comm

private theorem incoming_source (h : possibleIncomingConcreteTableReferences info destination = .ok inc) :
    ∀ r ∈ info.fieldReferences,(∃ f,r.source = .matchField f) ∨ ∃ f,r.source = .actionField f := by
  obtain ⟨_,-,h⟩ := bind_eq_ok.mp h
  obtain ⟨_,hgroups,-⟩ := bind_eq_ok.mp h
  obtain ⟨names,hnames,-⟩ := bind_eq_ok.mp hgroups
  intro r hr
  obtain ⟨name,hname⟩ := exists_mapM_eq_ok.mp ⟨names,hnames⟩ r hr
  obtain ⟨type,htype,-⟩ := bind_eq_ok.mp hname
  exact (supportedReferenceType_ok htype).imp And.right And.right

theorem incoming_eq_empty_iff (h : possibleIncomingConcreteTableReferences info destination = .ok inc) :
    inc = ∅ ↔ info.fieldReferences = [] := by
  obtain ⟨matchRefs,groups,hinc⟩ := incoming_ok h
  constructor
  · intro hempty
    by_contra hne
    obtain ⟨r,rest,hr⟩ := List.exists_cons_of_ne_nil hne
    have hmem : r ∈ info.fieldReferences := hr ▸ List.mem_cons_self
    have hpart : ∃ group,(group = [] ∨ group ∈ groups) ∧ (r ∈ group ∨ r ∈ matchRefs) := by
      rcases incoming_source h r hmem with hmatch | ⟨f,hf⟩
      · exact ⟨[],.inl rfl,.inr ((hinc.matchRefs_iff r).mpr ⟨hmem,hmatch⟩)⟩
      · obtain ⟨group,hgroup,hiff⟩ := hinc.group_of r hmem f hf
        exact ⟨group,.inr hgroup,.inl ((hiff r).mpr ⟨hmem,f,hf,rfl⟩)⟩
    obtain ⟨group,hgroup,hr⟩ := hpart
    have hvalue : ∃ v,destinationValue destination r = some v := by
      rcases hr with hr | hr
      · rcases hgroup with rfl | hgroup
        · cases hr
        · exact hinc.groupDefined group hgroup r hr
      · exact hinc.matchDefined r hr
    obtain ⟨v,hv⟩ := hvalue
    have hx := (hinc.mem_iff ⟨nameOfTable info.sourceTable,nameOfTable info.destinationTable,
      ((group ++ matchRefs).filterMap fun r => (destinationValue destination r).map (named r)).toFinset⟩).mpr
      ⟨fun _ => True,group,hgroup,fun _ _ _ => trivial,rfl,rfl,?_,fun c => ?_⟩
    · rw [hempty] at hx
      exact Finset.notMem_empty _ hx
    · apply Finset.ne_empty_of_mem
      exact mem_destinationFields.mpr ⟨r,List.mem_append.mpr hr,v,hv,rfl⟩
    · rw [mem_destinationFields,DestinationFields]
      simp only [List.mem_append,or_and_right,exists_or,true_and]
  · intro hnil
    apply Finset.eq_empty_of_forall_notMem
    intro x hx
    obtain ⟨chosen,group,hgroup,-,-,-,hne,hfields⟩ := (hinc.mem_iff x).mp hx
    obtain ⟨c,hc⟩ := Finset.nonempty_iff_ne_empty.mpr hne
    have hnone : ∀ r,r ∉ info.fieldReferences := by simp [hnil]
    rcases (hfields c).mp hc with ⟨r,hr,-⟩ | ⟨r,hr,-⟩
    · rcases hgroup with rfl | hgroup
      · cases hr
      · exact hnone r (hinc.group_subset group hgroup r hr)
    · exact hnone r ((hinc.matchRefs_iff r).mp hr).1

end Incoming

section Classes
variable {info : IrP4Info} {isRootEntity : Entity → StatusOr Bool}

theorem canBeReferenced_tableEntry {e : TableEntry} {table : IrTableDefinition} (htable : info.tablesById.lookup e.tableId = some table)
    : CanBeReferenced info (.tableEntry e) x ↔
      ∃ r ∈ table.incomingReferences,∃ inc,possibleIncomingConcreteTableReferences r (.tableEntry e) = .ok inc ∧ x ∈ inc := by
  constructor
  · rintro ⟨references,r,inc,hreferences,hr,hinc,hx⟩
    obtain ⟨table',htable',rfl⟩ := map_eq_ok.mp hreferences
    cases htable.symm.trans (findPtrOrStatus_eq_ok.mp htable')
    exact ⟨r,hr,inc,hinc,hx⟩
  · rintro ⟨r,hr,inc,hinc,hx⟩
    exact ⟨_,r,inc,map_eq_ok.mpr ⟨table,findPtrOrStatus_eq_ok.mpr htable,rfl⟩,hr,hinc,hx⟩

/-- What is known of an entry that is not a root. -/
structure Classified (info : IrP4Info) (e : TableEntry) (table : IrTableDefinition) (c : EntityClass) : Prop where
  lookup : info.tablesById.lookup e.tableId = some table
  never : c = .neverReferenced ↔ table.incomingReferences = []
  notRoot : c ≠ .root
  references : ∀ x,x ∈ c.references ↔ CanBeReferenced info (.tableEntry e) x
  possible : ∀ r ∈ table.incomingReferences,∃ inc,possibleIncomingConcreteTableReferences r (.tableEntry e) = .ok inc

private theorem classifyTableEntry_ok {e : TableEntry} {c : EntityClass} (h : classifyTableEntry info e = .ok c) :
    ∃ table,Classified info e table c := by
  obtain ⟨table,htable,h⟩ := bind_eq_ok.mp h
  have hlookup := findPtrOrStatus_eq_ok.mp htable
  refine ⟨table,?_⟩
  split at h
  · next hempty =>
    cases h
    have hnil := List.isEmpty_iff.mp hempty
    refine ⟨hlookup,iff_of_true rfl hnil,by simp,fun x => ?_,by simp [hnil]⟩
    rw [canBeReferenced_tableEntry hlookup,hnil]
    simp [EntityClass.references]
  · next hne =>
    obtain ⟨references,hreferences,h⟩ := bind_eq_ok.mp h
    cases h
    refine ⟨hlookup,iff_of_false (by simp) (fun hnil => hne (by simp [hnil])),by simp,fun x => ?_,
      exists_mapM_eq_ok.mp ⟨references,hreferences⟩⟩
    rw [canBeReferenced_tableEntry hlookup,EntityClass.references,Finset.mem_biUnion]
    simp only [List.mem_toFinset,mem_of_mapM hreferences,id_eq]
    constructor
    · rintro ⟨inc,⟨r,hr,hinc⟩,hx⟩
      exact ⟨r,hr,inc,hinc,hx⟩
    · rintro ⟨r,hr,inc,hinc,hx⟩
      exact ⟨inc,⟨r,hr,hinc⟩,hx⟩

theorem classifyEntity_ok {c : EntityClass} (h : classifyEntity info isRootEntity entity = .ok c) :
    (c = .root ∧ IsTableEntry entity ∧ isRootEntity entity = .ok true) ∨
      (c = .multicastRoot ∧ ¬ IsTableEntry entity ∧ isRootEntity entity = .ok true) ∨
      ∃ e table,entity = .tableEntry e ∧ isRootEntity entity = .ok false ∧ Classified info e table c := by
  unfold classifyEntity at h
  split at h
  · next e =>
    obtain ⟨isRoot,hroot,h⟩ := bind_eq_ok.mp h
    cases isRoot with
    | true =>
      cases h
      exact .inl ⟨rfl,⟨e,rfl⟩,hroot⟩
    | false =>
      obtain ⟨table,hclassified⟩ := classifyTableEntry_ok h
      exact .inr (.inr ⟨e,table,rfl,hroot,hclassified⟩)
  · obtain ⟨isRoot,hroot,h⟩ := bind_eq_ok.mp h
    cases isRoot with
    | true =>
      cases h
      refine .inr (.inl ⟨rfl,?_,hroot⟩)
      rintro ⟨e,he⟩
      cases he
    | false => cases h
  · cases h

end Classes

section Positions
variable {info : IrP4Info} {isRootEntity : Entity → StatusOr Bool} {entities : List Entity} {classes : List EntityClass}

theorem getElem?_of_forall₂ {α β : Type} {R : α → β → Prop} {l : List α} {r : List β} (h : List.Forall₂ R l r) {a : α}
    (ha : l[i]? = some a) : ∃ b,r[i]? = some b ∧ R a b := by
  induction h generalizing i with
  | nil => simp at ha
  | cons hab _ ih =>
    cases i with
    | zero =>
      cases ha
      exact ⟨_,rfl,hab⟩
    | succ i => exact ih ha

def AreClasses (info : IrP4Info) (isRootEntity : Entity → StatusOr Bool) (entities : List Entity) (classes : List EntityClass) : Prop :=
  List.Forall₂ (fun entity c => classifyEntity info isRootEntity entity = .ok c) entities classes

theorem AreClasses.at (h : AreClasses info isRootEntity entities classes) (hi : entities[i]? = some entity) :
    ∃ c,classes[i]? = some c ∧ classifyEntity info isRootEntity entity = .ok c := getElem?_of_forall₂ h hi

theorem AreClasses.of (h : AreClasses info isRootEntity entities classes) {c : EntityClass} (hi : classes[i]? = some c) :
    ∃ entity,entities[i]? = some entity ∧ classifyEntity info isRootEntity entity = .ok c := getElem?_of_forall₂ h.flip hi

theorem entityAt_eq (h : entities[i]? = some entity) : entityAt entities i = entity := by
  rw [entityAt,List.getD_eq_getElem?_getD,h]
  rfl

theorem mem_frontierIndices : i ∈ frontierIndices classes ↔ classes[i]? = some .root := by
  simp only [frontierIndices,List.mem_filterMap,Prod.exists,List.mem_zipIdx_iff_getElem?]
  constructor
  · rintro ⟨c,j,hc,hj⟩
    cases c with
    | root =>
      cases hj
      exact hc
    | multicastRoot => cases hj
    | neverReferenced => cases hj
    | referenced references => cases hj
  · exact fun h => ⟨.root,i,h,rfl⟩

private theorem mem_unreachableIndices : i ∈ unreachableIndices classes ↔ classes[i]? = some .neverReferenced := by
  simp only [unreachableIndices,List.mem_toFinset,List.mem_filterMap,Prod.exists,List.mem_zipIdx_iff_getElem?]
  constructor
  · rintro ⟨c,j,hc,hj⟩
    cases c with
    | neverReferenced =>
      cases hj
      exact hc
    | root => cases hj
    | multicastRoot => cases hj
    | referenced references => cases hj
  · exact fun h => ⟨.neverReferenced,i,h,rfl⟩

private theorem mem_potentiallyReachableEntries :
    (x,i) ∈ potentiallyReachableEntries classes ↔ ∃ c,classes[i]? = some c ∧ x ∈ c.references := by
  simp only [potentiallyReachableEntries,Finset.mem_biUnion,List.mem_toFinset,List.mem_range,Finset.mem_image,Prod.mk.injEq]
  constructor
  · rintro ⟨j,hj,y,hy,rfl,rfl⟩
    rw [List.getD_eq_getElem?_getD,List.getElem?_eq_getElem hj,Option.getD_some] at hy
    exact ⟨_,List.getElem?_eq_getElem hj,hy⟩
  · rintro ⟨c,hc,hx⟩
    obtain ⟨hi,rfl⟩ := List.getElem?_eq_some_iff.mp hc
    refine ⟨i,hi,x,?_,rfl,rfl⟩
    rwa [List.getD_eq_getElem?_getD,List.getElem?_eq_getElem hi,Option.getD_some]

theorem offers_iff : Offers (referencesAt info entities) i x ↔ HasReference info (entityAt entities i) x := by
  constructor
  · rintro ⟨sets,hsets,out,hout,hx⟩
    obtain ⟨references,hreferences,rfl⟩ := map_eq_ok.mp hsets
    obtain ⟨r,hr,hok⟩ := List.mem_map.mp hout
    exact ⟨references,r,out,hreferences,hr,hok,hx⟩
  · rintro ⟨references,r,out,hreferences,hr,hok,hx⟩
    exact ⟨_,map_eq_ok.mpr ⟨references,hreferences,rfl⟩,out,List.mem_map.mpr ⟨r,hr,hok⟩,hx⟩

theorem AreClasses.waiting_iff (h : AreClasses info isRootEntity entities classes) :
    (x,i) ∈ potentiallyReachableEntries classes ↔ ∃ entity,entities[i]? = some entity ∧ IsTableEntry entity ∧
      isRootEntity entity = .ok false ∧ CanBeReferenced info entity x := by
  rw [mem_potentiallyReachableEntries]
  constructor
  · rintro ⟨c,hc,hx⟩
    obtain ⟨entity,hentity,hclass⟩ := h.of hc
    rcases classifyEntity_ok hclass with ⟨rfl,-⟩ | ⟨rfl,-⟩ | ⟨e,table,rfl,hroot,hclassified⟩
    · cases hx
    · cases hx
    · exact ⟨_,hentity,⟨e,rfl⟩,hroot,(hclassified.references x).mp hx⟩
  · rintro ⟨entity,hentity,⟨e,rfl⟩,hroot,hx⟩
    obtain ⟨c,hc,hclass⟩ := h.at hentity
    rcases classifyEntity_ok hclass with ⟨-,-,htrue⟩ | ⟨-,-,htrue⟩ | ⟨e',table,heq,-,hclassified⟩
    · cases hroot.symm.trans htrue
    · cases hroot.symm.trans htrue
    · cases heq
      exact ⟨c,hc,(hclassified.references x).mpr hx⟩

theorem AreClasses.reached_iff (h : AreClasses info isRootEntity entities classes) {reached : Finset Nat}
    (hreached : ∀ i,i ∈ reached ↔ ∃ u ∈ frontierIndices classes,
      Relation.ReflTransGen (LeadsTo (referencesAt info entities) (potentiallyReachableEntries classes)) u i)
    (hi : entities[i]? = some entity) (hentry : IsTableEntry entity) :
    i ∈ reached ↔ ReachedAlong info entities isRootEntity IsTableEntry entity := by
  constructor
  · intro hmem
    obtain ⟨u,hu,hpath⟩ := (hreached i).mp hmem
    obtain ⟨root,hroot,hclass⟩ := h.of (mem_frontierIndices.mp hu)
    have hrootEntry : IsTableEntry root ∧ isRootEntity root = .ok true := by
      rcases classifyEntity_ok hclass with ⟨-,hentry,htrue⟩ | ⟨heq,-⟩ | ⟨_,_,_,_,hclassified⟩
      · exact ⟨hentry,htrue⟩
      · cases heq
      · exact absurd rfl hclassified.notRoot
    have hentities : ∀ j,Relation.ReflTransGen (LeadsTo (referencesAt info entities) (potentiallyReachableEntries classes)) u j →
        ∃ b,entities[j]? = some b ∧ IsTableEntry b ∧
          Relation.ReflTransGen (fun a b => IsTableEntry a ∧ b ∈ entities ∧ RefersToEntity info a b) root b := by
      intro j hj
      induction hj with
      | refl => exact ⟨root,hroot,hrootEntry.1,.refl⟩
      | tail _ hstep ih =>
        obtain ⟨a,ha,haEntry,hpath⟩ := ih
        obtain ⟨x,hoffers,hwaiting⟩ := hstep
        obtain ⟨b,hb,hbEntry,-,hcan⟩ := h.waiting_iff.mp hwaiting
        rw [offers_iff,entityAt_eq ha] at hoffers
        exact ⟨b,hb,hbEntry,hpath.tail ⟨haEntry,List.mem_of_getElem? hb,x,hoffers,hcan⟩⟩
    obtain ⟨b,hb,-,hpath⟩ := hentities i hpath
    obtain rfl := Option.some.inj (hi.symm.trans hb)
    exact ⟨root,List.mem_of_getElem? hroot,hrootEntry.2,hpath⟩
  · rintro ⟨root,hroot,htrue,hpath⟩
    -- a root is on the frontier at every index, and any other entry waits for what refers to it
    have hfrontier {j : Nat} {b : Entity} (hb : entities[j]? = some b) (hbEntry : IsTableEntry b) (hbRoot : isRootEntity b = .ok true) :
        j ∈ reached := by
      obtain ⟨c,hc,hclass⟩ := h.at hb
      rcases classifyEntity_ok hclass with ⟨rfl,-,-⟩ | ⟨-,hnot,-⟩ | ⟨_,_,_,hfalse,-⟩
      · exact (hreached j).mpr ⟨j,mem_frontierIndices.mpr hc,.refl⟩
      · exact absurd hbEntry hnot
      · cases hbRoot.symm.trans hfalse
    have hall : ∀ b,Relation.ReflTransGen (fun a b => IsTableEntry a ∧ b ∈ entities ∧ RefersToEntity info a b) root b →
        b ∈ entities ∧ ∀ j,entities[j]? = some b → IsTableEntry b → j ∈ reached := by
      intro b hb
      induction hb with
      | refl => exact ⟨hroot,fun j hj hrootEntry => hfrontier hj hrootEntry htrue⟩
      | tail _ hstep ih =>
        obtain ⟨haEntry,hbMem,x,hhas,hcan⟩ := hstep
        refine ⟨hbMem,fun j hj hbEntry => ?_⟩
        obtain ⟨k,hk⟩ := List.mem_iff_getElem?.mp ih.1
        obtain ⟨u,hu,hpath⟩ := (hreached k).mp (ih.2 k hk haEntry)
        obtain ⟨c,hc,hclass⟩ := h.at hj
        rcases classifyEntity_ok hclass with ⟨-,-,hbRoot⟩ | ⟨-,hnot,-⟩ | ⟨_,_,_,hfalse,-⟩
        · exact hfrontier hj hbEntry hbRoot
        · exact absurd hbEntry hnot
        · refine (hreached j).mpr ⟨u,hu,hpath.tail ⟨x,?_,h.waiting_iff.mpr ⟨_,hj,hbEntry,hfalse,hcan⟩⟩⟩
          rw [offers_iff,entityAt_eq hk]
          exact hhas
    exact (hall entity hpath).2 i hi hentry

end Positions

section Collected
variable {info : IrP4Info} {isRootEntity : Entity → StatusOr Bool} {entities : List Entity}

private theorem sort_map_entityAt {indices : Finset Nat} {P : Entity → Prop} [DecidablePred P]
    (h : ∀ i,i ∈ indices ↔ ∃ entity,entities[i]? = some entity ∧ P entity) :
    indices.sort.map (entityAt entities) = entities.filter P := by
  have hrange : entities = (List.range entities.length).map (entityAt entities) := by
    apply List.ext_getElem
    · simp
    · intro i hi _
      rw [List.getElem_map,List.getElem_range,entityAt_eq (List.getElem?_eq_getElem hi)]
  have hsort : indices.sort = (List.range entities.length).filter fun i => P (entityAt entities i) := by
    have hindices : indices = ((List.range entities.length).filter fun i => P (entityAt entities i)).toFinset := by
      ext i
      rw [h,List.mem_toFinset,List.mem_filter,List.mem_range,decide_eq_true_eq]
      constructor
      · rintro ⟨entity,hi,hP⟩
        exact ⟨(List.getElem?_eq_some_iff.mp hi).1,by rwa [entityAt_eq hi]⟩
      · rintro ⟨hi,hP⟩
        have hat := List.getElem?_eq_getElem hi
        rw [entityAt_eq hat] at hP
        exact ⟨_,hat,hP⟩
    rw [hindices]
    exact (List.toFinset_sort (· ≤ ·) (List.nodup_range.filter _)).mpr (List.pairwise_le_range.filter _)
  rw [hsort]
  conv_rhs => rw [hrange,List.filter_map]
  rfl

/-- The entries that the collection returns. -/
def Collected (info : IrP4Info) (entities : List Entity) (isRootEntity : Entity → StatusOr Bool) (entity : Entity) : Prop :=
  ∃ e table,entity = .tableEntry e ∧ isRootEntity entity = .ok false ∧ info.tablesById.lookup e.tableId = some table ∧
    (table.incomingReferences = [] ∨
      (∃ x,CanBeReferenced info entity x) ∧ ¬ ReachedAlong info entities isRootEntity IsTableEntry entity)

open Classical in
private theorem getEntitiesUnreachableFromRoots_eq {steps : Nat} {result : List Entity}
    (h : getEntitiesUnreachableFromRoots steps entities isRootEntity info = some (.ok result)) :
    result = entities.filter fun entity => Collected info entities isRootEntity entity := by
  unfold getEntitiesUnreachableFromRoots at h
  cases hmap : entities.mapM (classifyEntity info isRootEntity) with
  | error status =>
    rw [hmap] at h
    cases h
  | ok classes =>
    rw [hmap] at h
    have hclasses : AreClasses info isRootEntity entities classes := mapM_eq_ok.mp hmap
    obtain ⟨r,hr,hok⟩ := Option.map_eq_some_iff.mp h
    obtain ⟨⟨reached,waiting⟩,rfl,rfl⟩ := map_eq_ok.mp hok
    obtain ⟨hreached,hwaiting⟩ := expandFrontier_spec Expanding.init hr
    refine sort_map_entityAt fun i => ?_
    rw [Finset.mem_union,mem_unreachableIndices,Finset.mem_filter,Finset.mem_image]
    simp only [Prod.exists,exists_eq_right,hwaiting]
    constructor
    · rintro (hnever | ⟨⟨x,hx,-⟩,hnot⟩)
      · obtain ⟨entity,hentity,hclass⟩ := hclasses.of hnever
        rcases classifyEntity_ok hclass with ⟨heq,-⟩ | ⟨heq,-⟩ | ⟨e,table,rfl,hroot,hclassified⟩
        · cases heq
        · cases heq
        · exact ⟨_,hentity,e,table,rfl,hroot,hclassified.lookup,.inl (hclassified.never.mp rfl)⟩
      · obtain ⟨entity,hentity,⟨e,rfl⟩,hroot,hcan⟩ := hclasses.waiting_iff.mp hx
        obtain ⟨c,-,hclass⟩ := hclasses.at hentity
        rcases classifyEntity_ok hclass with ⟨-,-,htrue⟩ | ⟨-,-,htrue⟩ | ⟨e',table,heq,-,hclassified⟩
        · cases hroot.symm.trans htrue
        · cases hroot.symm.trans htrue
        · cases heq
          rw [hclasses.reached_iff hreached hentity ⟨e,rfl⟩] at hnot
          exact ⟨_,hentity,e,table,rfl,hroot,hclassified.lookup,.inr ⟨⟨x,hcan⟩,hnot⟩⟩
    · rintro ⟨entity,hentity,e,table,rfl,hroot,hlookup,hcollected⟩
      obtain ⟨c,hc,hclass⟩ := hclasses.at hentity
      rcases classifyEntity_ok hclass with ⟨-,-,htrue⟩ | ⟨-,-,htrue⟩ | ⟨e',table',heq,-,hclassified⟩
      · cases hroot.symm.trans htrue
      · cases hroot.symm.trans htrue
      · cases heq
        cases hlookup.symm.trans hclassified.lookup
        rcases hcollected with hnil | ⟨⟨x,hcan⟩,hnot⟩
        · rw [hclassified.never.mpr hnil] at hc
          exact .inl hc
        · rw [← hclasses.reached_iff hreached hentity ⟨e,rfl⟩] at hnot
          have hwait := hclasses.waiting_iff.mpr ⟨_,hentity,⟨e,rfl⟩,hroot,hcan⟩
          refine .inr ⟨⟨x,hwait,fun u hu hoffers => hnot ?_⟩,hnot⟩
          obtain ⟨v,hv,hpath⟩ := (hreached u).mp hu
          exact (hreached i).mpr ⟨v,hv,hpath.tail ⟨x,hoffers,hwait⟩⟩

private theorem canBeReferenced_of_reached {source : Entity → Prop}
    (h : ReachedAlong info entities isRootEntity source entity) (hroot : isRootEntity entity ≠ .ok true) :
    ∃ x,CanBeReferenced info entity x := by
  obtain ⟨root,-,htrue,hpath⟩ := h
  cases hpath with
  | refl => exact absurd htrue hroot
  | tail _ hstep =>
    obtain ⟨-,-,x,-,hcan⟩ := hstep
    exact ⟨x,hcan⟩

theorem ReachedAlong.mono {source source' : Entity → Prop} (h : ReachedAlong info entities isRootEntity source entity)
    (hsource : ∀ a,source a → source' a) : ReachedAlong info entities isRootEntity source' entity := by
  obtain ⟨root,hroot,htrue,hpath⟩ := h
  refine ⟨root,hroot,htrue,?_⟩
  exact hpath.lift id fun a _ hstep => ⟨hsource a hstep.1,hstep.2⟩

section Entry
variable {e : TableEntry} {table : IrTableDefinition} {c : EntityClass}

theorem Classified.canBeReferenced_iff (h : Classified info e table c) :
    (∃ x,CanBeReferenced info (.tableEntry e) x) ↔ ∃ r ∈ table.incomingReferences,r.fieldReferences ≠ [] := by
  simp only [canBeReferenced_tableEntry h.lookup]
  constructor
  · rintro ⟨x,r,hr,inc,hinc,hx⟩
    refine ⟨r,hr,fun hnil => ?_⟩
    rw [(incoming_eq_empty_iff hinc).mpr hnil] at hx
    exact Finset.notMem_empty x hx
  · rintro ⟨r,hr,hne⟩
    obtain ⟨inc,hinc⟩ := h.possible r hr
    obtain ⟨x,hx⟩ := Finset.nonempty_iff_ne_empty.mpr fun hempty => hne ((incoming_eq_empty_iff hinc).mp hempty)
    exact ⟨x,r,hr,inc,hinc,hx⟩

theorem Classified.collected (h : Classified info e table c) (hroot : isRootEntity (.tableEntry e) = .ok false) :
    Collected info entities isRootEntity (.tableEntry e) ↔ table.incomingReferences = [] ∨
      (∃ x,CanBeReferenced info (.tableEntry e) x) ∧ ¬ ReachedAlong info entities isRootEntity IsTableEntry (.tableEntry e) := by
  constructor
  · rintro ⟨e',table',heq,-,hlookup,hor⟩
    cases heq
    cases h.lookup.symm.trans hlookup
    exact hor
  · exact fun hor => ⟨e,table,rfl,hroot,h.lookup,hor⟩

/-- When an entry is collected exactly if no root reaches it. -/
theorem Classified.collected_iff (h : Classified info e table c) (hroot : isRootEntity (.tableEntry e) = .ok false) :
    (Collected info entities isRootEntity (.tableEntry e) ↔ Unreachable info entities isRootEntity (.tableEntry e)) ↔
      (ReachedAlong info entities isRootEntity (fun _ => True) (.tableEntry e) →
        ReachedAlong info entities isRootEntity IsTableEntry (.tableEntry e)) ∧
      ∀ table,info.tablesById.lookup e.tableId = some table → table.incomingReferences ≠ [] →
        ∃ r ∈ table.incomingReferences,r.fieldReferences ≠ [] := by
  have hnotRoot : isRootEntity (.tableEntry e) ≠ .ok true := by simp [hroot]
  have htable : (∀ table,info.tablesById.lookup e.tableId = some table → table.incomingReferences ≠ [] →
      ∃ r ∈ table.incomingReferences,r.fieldReferences ≠ []) ↔
      (table.incomingReferences ≠ [] → ∃ x,CanBeReferenced info (.tableEntry e) x) := by
    rw [h.canBeReferenced_iff]
    constructor
    · exact fun hall => hall table h.lookup
    · intro hone table' hlookup
      cases h.lookup.symm.trans hlookup
      exact hone
  have hcan (hreached : ReachedAlong info entities isRootEntity (fun _ => True) (.tableEntry e)) :
      ∃ x,CanBeReferenced info (.tableEntry e) x := canBeReferenced_of_reached hreached hnotRoot
  have hnonempty (hcan : ∃ x,CanBeReferenced info (.tableEntry e) x) : table.incomingReferences ≠ [] := by
    obtain ⟨r,hr,-⟩ := h.canBeReferenced_iff.mp hcan
    exact List.ne_nil_of_mem hr
  have hmono (hreached : ReachedAlong info entities isRootEntity IsTableEntry (.tableEntry e)) :
      ReachedAlong info entities isRootEntity (fun _ => True) (.tableEntry e) := hreached.mono fun _ _ => trivial
  rw [h.collected hroot,htable,Unreachable]
  tauto

end Entry

private theorem reachedAlong_of_tableEntries (h : ∀ entity ∈ entities,IsTableEntry entity)
    (hreached : ReachedAlong info entities isRootEntity (fun _ => True) entity) :
    ReachedAlong info entities isRootEntity IsTableEntry entity := by
  obtain ⟨root,hroot,htrue,hpath⟩ := hreached
  have hentries : entity ∈ entities ∧
      Relation.ReflTransGen (fun a b => IsTableEntry a ∧ b ∈ entities ∧ RefersToEntity info a b) root entity := by
    induction hpath with
    | refl => exact ⟨hroot,.refl⟩
    | tail _ hstep ih => exact ⟨hstep.2.1,ih.2.tail ⟨h _ ih.1,hstep.2⟩⟩
  exact ⟨root,hroot,htrue,hentries.2⟩

private theorem filter_eq_filter_iff {α : Type} {p q : α → Prop} [DecidablePred p] [DecidablePred q] {l : List α} :
    l.filter p = l.filter q ↔ ∀ a ∈ l,p a ↔ q a := by
  constructor
  · intro h a ha
    have hmem : a ∈ l.filter p ↔ a ∈ l.filter q := by rw [h]
    simpa [ha] using hmem
  · exact fun h => List.filter_congr fun a ha => by simp [h a ha]

private theorem getEntitiesUnreachableFromRoots_ends (info : IrP4Info) (entities : List Entity) (isRootEntity : Entity → StatusOr Bool) :
    ∃ bound,∀ steps,bound < steps → ∃ result,getEntitiesUnreachableFromRoots steps entities isRootEntity info = some result := by
  unfold getEntitiesUnreachableFromRoots
  cases entities.mapM (classifyEntity info isRootEntity) with
  | error status => exact ⟨0,fun _ _ => ⟨_,rfl⟩⟩
  | ok classes =>
    refine ⟨(frontierIndices classes).length + (potentiallyReachableEntries classes).card,fun steps hsteps => ?_⟩
    obtain ⟨result,hresult⟩ := expandFrontier_ends (referencesAt info entities) ∅ hsteps
    exact ⟨_,Option.map_eq_some_iff.mpr ⟨result,hresult,rfl⟩⟩

open Classical in
private theorem getEntitiesUnreachableFromRoots_iff {steps : Nat} {result : List Entity}
    (h : getEntitiesUnreachableFromRoots steps entities isRootEntity info = some (.ok result)) :
    result = entities.filter (fun entity => Unreachable info entities isRootEntity entity) ↔
      CollectedExactly info entities isRootEntity := by
  have hclasses : ∀ entity ∈ entities,∃ c,classifyEntity info isRootEntity entity = .ok c := by
    unfold getEntitiesUnreachableFromRoots at h
    cases hmap : entities.mapM (classifyEntity info isRootEntity) with
    | error status =>
      rw [hmap] at h
      cases h
    | ok classes => exact exists_mapM_eq_ok.mp ⟨classes,hmap⟩
  rw [getEntitiesUnreachableFromRoots_eq h,filter_eq_filter_iff]
  constructor
  · intro hall e he hnotRoot
    obtain ⟨c,hc⟩ := hclasses _ he
    rcases classifyEntity_ok hc with ⟨-,-,htrue⟩ | ⟨-,-,htrue⟩ | ⟨e',table,heq,hfalse,hclassified⟩
    · exact absurd htrue hnotRoot
    · exact absurd htrue hnotRoot
    · cases heq
      exact (hclassified.collected_iff hfalse).mp (hall _ he)
  · intro hexact entity hentity
    obtain ⟨c,hc⟩ := hclasses _ hentity
    have hroot (htrue : isRootEntity entity = .ok true) :
        Collected info entities isRootEntity entity ↔ Unreachable info entities isRootEntity entity := by
      refine iff_of_false ?_ fun hunreachable => hunreachable.1 htrue
      rintro ⟨e,table,-,hfalse,-⟩
      cases htrue.symm.trans hfalse
    rcases classifyEntity_ok hc with ⟨-,-,htrue⟩ | ⟨-,-,htrue⟩ | ⟨e,table,rfl,hfalse,hclassified⟩
    · exact hroot htrue
    · exact hroot htrue
    · exact (hclassified.collected_iff hfalse).mpr (hexact e hentity (by simp [hfalse]))

open Classical in
/-- Collection ends, and returns the unreachable entities unless a root needs the references of
a multicast group to reach one, or a table is referred to by no field. -/
theorem garbage_collected_iff (info : IrP4Info) (entities : List Entity) (isRootEntity : Entity → StatusOr Bool) :
    (∃ bound,∀ steps,bound < steps → ∃ result,getEntitiesUnreachableFromRoots steps entities isRootEntity info = some result) ∧
    ∀ steps result,getEntitiesUnreachableFromRoots steps entities isRootEntity info = some (.ok result) →
      (result = entities.filter (fun entity => Unreachable info entities isRootEntity entity) ↔
        CollectedExactly info entities isRootEntity) :=
  ⟨getEntitiesUnreachableFromRoots_ends info entities isRootEntity,fun _ _ h => getEntitiesUnreachableFromRoots_iff h⟩

end Collected

/-- Replicas of multicast groups refer to the interfaces with their ports. -/
def replicaReference : IrTableReference where
  sourceTable := .builtInTable .multicastGroupTable
  destinationTable := .p4Table "multicast_router_interface_table" 4
  fieldReferences := [⟨.actionField (.builtInActionField ⟨.replica,.replicaPort⟩),
    .matchField (.p4MatchField ⟨"multicast_replica_port",1,false⟩)⟩]

def multicastInfo : IrP4Info where
  tablesById := [(4,{ preamble := { id := 4,aliasName := "multicast_router_interface_table" },incomingReferences := [replicaReference] })]
  builtInTables := [("builtin::multicast_group_table",{ outgoingReferences := [replicaReference] })]

def groupEntity : Entity := multicastGroup { multicastGroupId := 1,replicas := [{ portKind := .port [5] }] }

def interfaceEntity : Entity := .tableEntry { tableId := 4,matches_ := [⟨1,.exact [5]⟩] }

def multicastIsRoot : Entity → StatusOr Bool
  | .tableEntry _ => .ok false
  | _ => .ok true

def interfaceReference : ConcreteTableReference where
  sourceTable := "builtin::multicast_group_table"
  destinationTable := "multicast_router_interface_table"
  fields := {⟨"replica.port","multicast_replica_port",[5]⟩}

open Classical in
/-- The interface that a group's replica refers to is returned as unreachable. -/
theorem replica_reference_not_followed : ¬ ∀ info entities isRootEntity steps result,
    getEntitiesUnreachableFromRoots steps entities isRootEntity info = some (.ok result) →
      result = entities.filter (fun entity => Unreachable info entities isRootEntity entity) := by
  intro h
  have hresult := h multicastInfo [groupEntity,interfaceEntity] multicastIsRoot 2 [interfaceEntity] (by decide +kernel)
  have hmem : interfaceEntity ∈ [interfaceEntity] := List.mem_singleton_self _
  rw [hresult,List.mem_filter,decide_eq_true_eq] at hmem
  refine hmem.2.2 ⟨groupEntity,by simp,rfl,.single ⟨trivial,by simp,interfaceReference,?_,?_⟩⟩
  · exact ⟨[replicaReference],replicaReference,{interfaceReference},by decide,by simp,by decide,by simp⟩
  · exact ⟨[replicaReference],replicaReference,{interfaceReference},by decide,by simp,by decide,by simp⟩

def nexthopIsRoot : Entity → StatusOr Bool
  | .tableEntry e => .ok (e.tableId = 1)
  | _ => .ok true

def unusedNeighbor : Entity := .tableEntry { tableId := 2,matches_ := [⟨1,.exact [5]⟩,⟨2,.exact [9]⟩] }

open Classical in
/-- Of two neighbors the one that no nexthop refers to is returned. -/
theorem unused_neighbor_collected :
    [unusedNeighbor] = [nexthopEntity 1 7,neighborEntity,unusedNeighbor].filter fun entity =>
      Unreachable nexthopInfo [nexthopEntity 1 7,neighborEntity,unusedNeighbor] nexthopIsRoot entity := by
  have hentries : ∀ entity ∈ [nexthopEntity 1 7,neighborEntity,unusedNeighbor],IsTableEntry entity := by
    intro entity hentity
    simp only [List.mem_cons,List.not_mem_nil,or_false] at hentity
    rcases hentity with rfl | rfl | rfl
    all_goals exact ⟨_,rfl⟩
  have htables : ∀ x ∈ nexthopInfo.tablesById,x.2.incomingReferences ≠ [] → ∃ r ∈ x.2.incomingReferences,r.fieldReferences ≠ [] := by
    decide
  refine ((garbage_collected_iff nexthopInfo _ nexthopIsRoot).2 9 [unusedNeighbor] (by decide +kernel)).mpr fun e he hroot => ⟨?_,?_⟩
  · exact reachedAlong_of_tableEntries hentries
  · intro table htable
    exact htables _ (mem_of_lookup_eq_some htable)

end SonicPins.Pdpi.References
