import SonicPins.Pdpi.P4InfoUnion

/-! The laws of the union of P4Infos: it holds one object for each id, does not depend
on the order of the P4Infos or on repetitions, and its limits cover theirs. -/
namespace SonicPins.Pdpi
open Lib

variable {type : String} {κ : Type}

namespace P4Info

theorem assertIdsAreEqual_eq_ok {i j : UInt32} : assertIdsAreEqualForUnioning type i j = .ok () ↔ i = j := by
  unfold assertIdsAreEqualForUnioning
  split_ifs with h
  · simpa using h
  · simpa using h

theorem guard_eq_ok {α : Type} {p : Prop} [Decidable p] {s : Status} {a b : α} :
    (if p then (.error s : StatusOr α) else .ok a) = .ok b ↔ ¬ p ∧ b = a := by
  split_ifs with h
  · simp [h]
  · simp [h,eq_comm]

section Preambles
variable {α : Type} (f : α → Preamble)

structure PreambleStands (ys : List α) (r : Preamble) : Prop where
  compared : Shared (fun y => preambleCompared (f y)) ys (preambleCompared r)
  annotations : Gathered (fun y => (f y).annotations) ys r.annotations
  structured : Shared (fun y => (f y).structuredAnnotations) ys r.structuredAnnotations

structure PreambleCompat (p q : Preamble) : Prop where
  compared : preambleCompared p = preambleCompared q
  noStructured : p.structuredAnnotations = [] ∧ q.structuredAnnotations = []

/-- The same preamble up to the order of annotations and their locations. -/
structure PreambleSame (p q : Preamble) : Prop where
  compared : preambleCompared p = preambleCompared q
  annotations : ∀ a,a ∈ p.annotations ↔ a ∈ q.annotations
  structured : p.structuredAnnotations = q.structuredAnnotations

theorem unionPreamble_eq_ok {p r r' : Preamble} : unionFirstPreambleIntoSecondAssertingIdenticalId p r = .ok r' ↔
    PreambleCompat p r ∧ r' = { r with annotations := setUnion p.annotations r.annotations } := by
  unfold unionFirstPreambleIntoSecondAssertingIdenticalId assertPreambleCompatibility
  rw [then_eq_ok,then_eq_ok,assertIdsAreEqual_eq_ok,guard_eq_ok,guard_eq_ok]
  constructor
  · rintro ⟨⟨-,hcompared,-⟩,hstructured,rfl⟩
    exact ⟨⟨not_not.mp hcompared,by simpa using hstructured⟩,rfl⟩
  · rintro ⟨⟨hcompared,hstructured⟩,rfl⟩
    have hid := congrArg Preamble.id hcompared
    exact ⟨⟨hid,not_not.mpr hcompared,rfl⟩,by simpa using hstructured,rfl⟩

variable {f} {ys ys' : List α} {x : α} {r r' : Preamble}

theorem PreambleStands.single : PreambleStands f [x] (f x) := ⟨.single,.single,.single⟩

theorem PreambleStands.takes (h : PreambleStands f ys r) (hne : ys ≠ []) :
    (∃ r',unionFirstPreambleIntoSecondAssertingIdenticalId (f x) r = .ok r') ↔ ∀ y ∈ ys,PreambleCompat (f y) (f x) := by
  simp only [unionPreamble_eq_ok,exists_and_left,exists_eq,and_true]
  constructor
  · intro hcompat y hy
    exact ⟨(h.compared y hy).trans hcompat.compared.symm,(h.structured y hy).trans hcompat.noStructured.2,
      hcompat.noStructured.1⟩
  · intro hcompat
    obtain ⟨y,hy⟩ := List.exists_mem_of_ne_nil ys hne
    have hy' := hcompat y hy
    exact ⟨hy'.compared.symm.trans (h.compared y hy),hy'.noStructured.2,(h.structured y hy).symm.trans hy'.noStructured.1⟩

theorem PreambleStands.stands (h : PreambleStands f ys r)
    (hr' : unionFirstPreambleIntoSecondAssertingIdenticalId (f x) r = .ok r') :
    r'.id = r.id ∧ PreambleStands f (ys ++ [x]) r' := by
  obtain ⟨hcompat,rfl⟩ := unionPreamble_eq_ok.mp hr'
  refine ⟨rfl,h.compared.concat hcompat.compared,h.annotations.setUnion,h.structured.concat ?_⟩
  rw [hcompat.noStructured.1,hcompat.noStructured.2]

theorem PreambleStands.same (h : PreambleStands f ys r) (h' : PreambleStands f ys' r') (hne : ys ≠ [])
    (hmem : ∀ y,y ∈ ys ↔ y ∈ ys') : PreambleSame r r' :=
  ⟨h.compared.unique h'.compared hne hmem,h.annotations.unique h'.annotations hmem,
    h.structured.unique h'.structured hne hmem⟩

end Preambles

section Tables

structure Table.DistinctIds (t : Table) : Prop where
  matchFields : (t.matchFields.map MatchField.id).Nodup
  actionRefs : (t.actionRefs.map ActionRef.id).Nodup

/-- What the merge of tables of one id stands for. -/
structure TableStands (ys : List Table) (r : Table) : Prop where
  compared : Shared Table.compared ys r.compared
  preamble : PreambleStands Table.preamble ys r.preamble
  matchFields : EqualUnion MatchField.id (ys.flatMap Table.matchFields) r.matchFields
  actionRefs : EqualUnion ActionRef.id (ys.flatMap Table.actionRefs) r.actionRefs
  directResourceIds : Gathered Table.directResourceIds ys r.directResourceIds
  size : Largest Table.size ys r.size
  otherProperties : Shared Table.otherProperties ys r.otherProperties

structure TableCompat (s t : Table) : Prop where
  compared : s.compared = t.compared
  preamble : PreambleCompat s.preamble t.preamble
  matchFields : ∀ f ∈ s.matchFields,∀ g ∈ t.matchFields,f.id = g.id → f = g
  actionRefs : ∀ a ∈ s.actionRefs,∀ b ∈ t.actionRefs,a.id = b.id → a = b
  noOtherProperties : s.otherProperties = none ∧ t.otherProperties = none

/-- The same table up to the order of its repeated fields. -/
structure TableSame (s t : Table) : Prop where
  compared : s.compared = t.compared
  preamble : PreambleSame s.preamble t.preamble
  matchFields : s.matchFields.Perm t.matchFields
  actionRefs : s.actionRefs.Perm t.actionRefs
  directResourceIds : ∀ i,i ∈ s.directResourceIds ↔ i ∈ t.directResourceIds
  size : s.size = t.size
  otherProperties : s.otherProperties = t.otherProperties

variable {ys ys' : List Table} {t r r' : Table}

theorem unionTable_eq_ok : unionFirstTableIntoSecond t r = .ok r' ↔
    t.preamble.id = r.preamble.id ∧ t.compared = r.compared ∧ ∃ preamble matchFields actionRefs,
      unionFirstPreambleIntoSecondAssertingIdenticalId t.preamble r.preamble = .ok preamble ∧
      mapUnionEqual "MatchField" MatchField.id t.matchFields r.matchFields = .ok matchFields ∧
      mapUnionEqual "ActionRef" ActionRef.id t.actionRefs r.actionRefs = .ok actionRefs ∧
      (t.otherProperties = none ∧ r.otherProperties = none) ∧
      r' = { r with
        size := stdMax r.size t.size,preamble := preamble,matchFields := matchFields,actionRefs := actionRefs,
        directResourceIds := setUnion t.directResourceIds r.directResourceIds } := by
  unfold unionFirstTableIntoSecond assertTableCompatibility
  rw [then_eq_ok,mapError_eq_ok,then_eq_ok,assertIdsAreEqual_eq_ok,guard_eq_ok]
  simp only [bind_eq_ok,guard_eq_ok,Bool.or_eq_true,not_or,ne_eq,not_not,Option.not_isSome_iff_eq_none,and_true,and_assoc,
    exists_and_left]

theorem mapUnionEqual_takes {α : Type} [DecidableEq α] {id : α → UInt32} {ys xs unioned : List α}
    (h : EqualUnion id ys unioned) (hids : (xs.map id).Nodup) :
    (∃ unioned',mapUnionEqual type id xs unioned = .ok unioned') ↔ ∀ y ∈ ys,∀ x ∈ xs,id y = id x → y = x :=
  (exactMerge_merges _).unionItems_takes h (fun _ _ => trivial) hids

theorem mapUnionEqual_stands {α : Type} [DecidableEq α] {id : α → UInt32} {ys xs unioned unioned' : List α}
    (h : EqualUnion id ys unioned) (hunion : mapUnionEqual type id xs unioned = .ok unioned') :
    EqualUnion id (ys ++ xs) unioned' :=
  (exactMerge_merges _).unionItems_stands h (fun _ _ => trivial) hunion

theorem unionTable_merges :
    Merges (fun t : Table => t.preamble.id) unionFirstTableIntoSecond Table.DistinctIds TableCompat TableStands where
  single := by
    intro t ht
    refine ⟨.single,.single,?_,?_,.single,.single,.single⟩
    · simpa using equalUnion_self ht.matchFields
    · simpa using equalUnion_self ht.actionRefs
  takes := by
    intro ys r t hys hne ht hid
    simp only [unionTable_eq_ok]
    constructor
    · rintro ⟨r',-,hcompared,preamble,matchFields,actionRefs,hpreamble,hmatch,hactions,hother,-⟩ y hy
      have hpreambles := (hys.preamble.takes (x := t) hne).mp ⟨_,hpreamble⟩
      have hfields := (mapUnionEqual_takes hys.matchFields ht.matchFields).mp ⟨_,hmatch⟩
      have hrefs := (mapUnionEqual_takes hys.actionRefs ht.actionRefs).mp ⟨_,hactions⟩
      exact ⟨(hys.compared y hy).trans hcompared.symm,hpreambles y hy,
        fun f hf => hfields f (List.mem_flatMap.mpr ⟨y,hy,hf⟩),fun a ha => hrefs a (List.mem_flatMap.mpr ⟨y,hy,ha⟩),
        (hys.otherProperties y hy).trans hother.2,hother.1⟩
    · intro hcompat
      obtain ⟨y,hy⟩ := List.exists_mem_of_ne_nil ys hne
      obtain ⟨preamble,hpreamble⟩ := (hys.preamble.takes (x := t) hne).mpr fun z hz => (hcompat z hz).preamble
      obtain ⟨matchFields,hmatch⟩ : ∃ l,mapUnionEqual "MatchField" MatchField.id t.matchFields r.matchFields = .ok l := by
        refine (mapUnionEqual_takes hys.matchFields ht.matchFields).mpr fun f hf => ?_
        obtain ⟨z,hz,hf⟩ := List.mem_flatMap.mp hf
        exact (hcompat z hz).matchFields f hf
      obtain ⟨actionRefs,hactions⟩ : ∃ l,mapUnionEqual "ActionRef" ActionRef.id t.actionRefs r.actionRefs = .ok l := by
        refine (mapUnionEqual_takes hys.actionRefs ht.actionRefs).mpr fun a ha => ?_
        obtain ⟨z,hz,ha⟩ := List.mem_flatMap.mp ha
        exact (hcompat z hz).actionRefs a ha
      have hy' := hcompat y hy
      exact ⟨_,hid.symm,hy'.compared.symm.trans (hys.compared y hy),preamble,matchFields,actionRefs,hpreamble,hmatch,hactions,
        ⟨hy'.noOtherProperties.2,(hys.otherProperties y hy).symm.trans hy'.noOtherProperties.1⟩,rfl⟩
  stands := by
    intro ys r t r' hys _ ht _ hr'
    obtain ⟨-,hcompared,preamble,matchFields,actionRefs,hpreamble,hmatch,hactions,hother,rfl⟩ := unionTable_eq_ok.mp hr'
    obtain ⟨hid,hpreambles⟩ := hys.preamble.stands (x := t) hpreamble
    refine ⟨hid,hys.compared.concat hcompared,hpreambles,?_,?_,hys.directResourceIds.setUnion,hys.size.stdMax,
      hys.otherProperties.concat (hother.1.trans hother.2.symm)⟩
    · simpa using mapUnionEqual_stands hys.matchFields hmatch
    · simpa using mapUnionEqual_stands hys.actionRefs hactions

theorem TableStands.same (h : TableStands ys r) (h' : TableStands ys' r') (hne : ys ≠ []) (hmem : ∀ t,t ∈ ys ↔ t ∈ ys') :
    TableSame r r' where
  compared := h.compared.unique h'.compared hne hmem
  preamble := h.preamble.same h'.preamble hne hmem
  matchFields := h.matchFields.perm h'.matchFields fun f => by simp only [List.mem_flatMap,hmem]
  actionRefs := h.actionRefs.perm h'.actionRefs fun a => by simp only [List.mem_flatMap,hmem]
  directResourceIds := h.directResourceIds.unique h'.directResourceIds hmem
  size := h.size.unique h'.size hmem
  otherProperties := h.otherProperties.unique h'.otherProperties hne hmem

end Tables

section Actions

structure ActionStands (ys : List Action) (r : Action) : Prop where
  preamble : PreambleStands Action.preamble ys r.preamble
  params : Shared Action.params ys r.params

structure ActionCompat (a b : Action) : Prop where
  preamble : PreambleCompat a.preamble b.preamble
  params : a.params = b.params

structure ActionSame (a b : Action) : Prop where
  preamble : PreambleSame a.preamble b.preamble
  params : a.params = b.params

variable {ys ys' : List Action} {a r r' : Action}

theorem unionAction_eq_ok : unionFirstActionIntoSecond a r = .ok r' ↔
    a.preamble.id = r.preamble.id ∧ ∃ preamble,
      unionFirstPreambleIntoSecondAssertingIdenticalId a.preamble r.preamble = .ok preamble ∧ a.params = r.params ∧
      r' = { r with preamble := preamble } := by
  unfold unionFirstActionIntoSecond
  rw [then_eq_ok,assertIdsAreEqual_eq_ok]
  simp only [bind_eq_ok,guard_eq_ok,ne_eq,not_not]

theorem unionAction_merges :
    Merges (fun a : Action => a.preamble.id) unionFirstActionIntoSecond (fun _ => True) ActionCompat ActionStands where
  single _ := ⟨.single,.single⟩
  takes := by
    intro ys r a hys hne _ hid
    simp only [unionAction_eq_ok]
    constructor
    · rintro ⟨r',-,preamble,hpreamble,hparams,-⟩ y hy
      exact ⟨(hys.preamble.takes (x := a) hne).mp ⟨_,hpreamble⟩ y hy,(hys.params y hy).trans hparams.symm⟩
    · intro hcompat
      obtain ⟨y,hy⟩ := List.exists_mem_of_ne_nil ys hne
      obtain ⟨preamble,hpreamble⟩ := (hys.preamble.takes (x := a) hne).mpr fun z hz => (hcompat z hz).preamble
      exact ⟨_,hid.symm,preamble,hpreamble,(hcompat y hy).params.symm.trans (hys.params y hy),rfl⟩
  stands := by
    intro ys r a r' hys _ _ _ hr'
    obtain ⟨-,preamble,hpreamble,hparams,rfl⟩ := unionAction_eq_ok.mp hr'
    obtain ⟨hid,hpreambles⟩ := hys.preamble.stands (x := a) hpreamble
    exact ⟨hid,hpreambles,hys.params.concat hparams⟩

theorem ActionStands.same (h : ActionStands ys r) (h' : ActionStands ys' r') (hne : ys ≠ [])
    (hmem : ∀ a,a ∈ ys ↔ a ∈ ys') : ActionSame r r' :=
  ⟨h.preamble.same h'.preamble hne hmem,h.params.unique h'.params hne hmem⟩

end Actions

section Profiles

structure ProfileStands (ys : List ActionProfile) (r : ActionProfile) : Prop where
  compared : Shared profileCompared ys (profileCompared r)
  size : Largest ActionProfile.size ys r.size
  maxGroupSize : Largest ActionProfile.maxGroupSize ys r.maxGroupSize

variable {ys ys' : List ActionProfile} {p r r' : ActionProfile}

theorem unionProfile_eq_ok : unionFirstActionProfileIntoSecond p r = .ok r' ↔
    p.preamble.id = r.preamble.id ∧ profileCompared p = profileCompared r ∧
      r' = { r with size := stdMax r.size p.size,maxGroupSize := stdMax r.maxGroupSize p.maxGroupSize } := by
  unfold unionFirstActionProfileIntoSecond
  rw [then_eq_ok,assertIdsAreEqual_eq_ok,guard_eq_ok,not_not]

theorem unionProfile_merges : Merges (fun p : ActionProfile => p.preamble.id) unionFirstActionProfileIntoSecond
    (fun _ => True) (fun p q => profileCompared p = profileCompared q) ProfileStands where
  single _ := ⟨.single,.single,.single⟩
  takes := by
    intro ys r p hys hne _ hid
    simp only [unionProfile_eq_ok]
    rw [← hys.compared.eq_iff hne]
    exact ⟨fun ⟨_,_,hcompared,_⟩ => hcompared,fun hcompared => ⟨_,hid.symm,hcompared,rfl⟩⟩
  stands := by
    intro ys r p r' hys _ _ _ hr'
    obtain ⟨-,hcompared,rfl⟩ := unionProfile_eq_ok.mp hr'
    exact ⟨rfl,hys.compared.concat hcompared,hys.size.stdMax,hys.maxGroupSize.stdMax⟩

private theorem profile_eq (hcompared : profileCompared r = profileCompared r') (hsize : r.size = r'.size)
    (hmax : r.maxGroupSize = r'.maxGroupSize) : r = r' := by
  have h : { profileCompared r with size := r.size,maxGroupSize := r.maxGroupSize } =
      { profileCompared r' with size := r'.size,maxGroupSize := r'.maxGroupSize } := by rw [hcompared,hsize,hmax]
  exact h

theorem ProfileStands.same (h : ProfileStands ys r) (h' : ProfileStands ys' r') (hne : ys ≠ [])
    (hmem : ∀ p,p ∈ ys ↔ p ∈ ys') : r = r' :=
  profile_eq (h.compared.unique h'.compared hne hmem) (h.size.unique h'.size hmem) (h.maxGroupSize.unique h'.maxGroupSize hmem)

end Profiles

section Packages

/-- The multicast limits of a P4Info, zero when unset. -/
def platformLimits (info : P4Info) : PlatformProperties := info.pkgInfo.platformProperties.getD {}

structure PkgStands (ys : List P4Info) (r : PkgInfo) : Prop where
  named : r.name ≠ ""
  compared : Shared (fun y : P4Info => y.pkgInfo.compared) ys r.compared
  hasLimits : r.platformProperties.isSome ↔ ∃ y ∈ ys,y.pkgInfo.platformProperties.isSome
  tableSize : Largest (fun y => (platformLimits y).multicastGroupTableSize) ys
    (r.platformProperties.getD {}).multicastGroupTableSize
  totalReplicas : Largest (fun y => (platformLimits y).multicastGroupTableTotalReplicas) ys
    (r.platformProperties.getD {}).multicastGroupTableTotalReplicas
  maxReplicas : Largest (fun y => (platformLimits y).multicastGroupTableMaxReplicasPerEntry) ys
    (r.platformProperties.getD {}).multicastGroupTableMaxReplicasPerEntry

variable {ys ys' : List P4Info} {info : P4Info} {r r' : PkgInfo}

theorem unionPkgInfo_first (info : PkgInfo) : unionFirstPkgInfoIntoSecond info {} =
    .ok { info with name := "Union of " ++ info.name,version := "Versions " ++ info.version } := if_pos rfl

theorem unionPkgInfo_eq_ok {info : PkgInfo} (hr : r.name ≠ "") : unionFirstPkgInfoIntoSecond info r = .ok r' ↔
    info.compared = r.compared ∧ r' = { r with
      name := r.name ++ ", " ++ info.name,version := r.version ++ ", " ++ info.version,
      platformProperties :=
        if info.platformProperties.isSome || r.platformProperties.isSome then
          some (unionFirstPlatformPropertiesIntoSecond (info.platformProperties.getD {}) (r.platformProperties.getD {}))
        else none } := by
  have hne : r ≠ {} := fun h => hr (congrArg PkgInfo.name h)
  unfold unionFirstPkgInfoIntoSecond
  rw [if_neg hne]
  simp only [guard_eq_ok]
  rw [not_not]
  rfl

theorem PkgStands.first (info : P4Info) :
    PkgStands [info] { info.pkgInfo with
      name := "Union of " ++ info.pkgInfo.name,version := "Versions " ++ info.pkgInfo.version } where
  named h := by simp at h
  compared := .single
  hasLimits := by simp
  tableSize := .single
  totalReplicas := .single
  maxReplicas := .single

theorem PkgStands.takes (h : PkgStands ys r) (hne : ys ≠ []) :
    (∃ r',unionFirstPkgInfoIntoSecond info.pkgInfo r = .ok r') ↔ ∀ y ∈ ys,y.pkgInfo.compared = info.pkgInfo.compared := by
  simp only [unionPkgInfo_eq_ok h.named]
  rw [← h.compared.eq_iff hne]
  exact ⟨fun ⟨_,hcompared,_⟩ => hcompared,fun hcompared => ⟨_,hcompared,rfl⟩⟩

theorem getD_joined (p r : Option PlatformProperties) :
    (if p.isSome || r.isSome then some (unionFirstPlatformPropertiesIntoSecond (p.getD {}) (r.getD {})) else none).getD {} =
      unionFirstPlatformPropertiesIntoSecond (p.getD {}) (r.getD {}) := by
  cases p <;> cases r <;> rfl

theorem PkgStands.stands (h : PkgStands ys r) (hr' : unionFirstPkgInfoIntoSecond info.pkgInfo r = .ok r') :
    PkgStands (ys ++ [info]) r' := by
  obtain ⟨hcompared,rfl⟩ := (unionPkgInfo_eq_ok h.named).mp hr'
  refine ⟨fun hname => ?_,h.compared.concat hcompared,?_,?_,?_,?_⟩
  · simp at hname
  · have hlimits := h.hasLimits
    cases hp : info.pkgInfo.platformProperties <;> cases hq : r.platformProperties <;> simp_all
  · simp only [getD_joined]
    exact h.tableSize.stdMax
  · simp only [getD_joined]
    exact h.totalReplicas.stdMax
  · simp only [getD_joined]
    exact h.maxReplicas.stdMax

structure PkgSame (p q : PkgInfo) : Prop where
  compared : p.compared = q.compared
  platformProperties : p.platformProperties = q.platformProperties

theorem PkgStands.same (h : PkgStands ys r) (h' : PkgStands ys' r') (hne : ys ≠ []) (hmem : ∀ y,y ∈ ys ↔ y ∈ ys') :
    PkgSame r r' := by
  refine ⟨h.compared.unique h'.compared hne hmem,?_⟩
  have hsome : r.platformProperties.isSome ↔ r'.platformProperties.isSome := by
    rw [h.hasLimits,h'.hasLimits]
    simp only [hmem]
  have hlimits : r.platformProperties.getD {} = r'.platformProperties.getD {} := by
    have hsize := h.tableSize.unique h'.tableSize hmem
    have htotal := h.totalReplicas.unique h'.totalReplicas hmem
    have hmax := h.maxReplicas.unique h'.maxReplicas hmem
    generalize r.platformProperties.getD {} = p at hsize htotal hmax ⊢
    generalize r'.platformProperties.getD {} = q at hsize htotal hmax ⊢
    obtain ⟨a,b,c⟩ := p
    exact (PlatformProperties.mk.injEq ..).mpr ⟨hsize,htotal,hmax⟩
  cases hp : r.platformProperties <;> cases hq : r'.platformProperties <;> simp_all

end Packages

section Types

structure TypesStand (ys : List P4Info) (r : TypeInfo) : Prop where
  onlyNewTypes : r.onlyNewTypes
  newTypes : EqualUnion Prod.fst (ys.flatMap fun y => (typeInfoOf y).newTypes) r.newTypes

variable {ys ys' : List P4Info} {info : P4Info} {r r' : TypeInfo}

theorem TypesStand.takes (h : TypesStand ys r) (hkeys : ((typeInfoOf info).newTypes.map Prod.fst).Nodup) :
    (∃ r',unionFirstTypeInfoIntoSecond info (some r) = .ok r') ↔ (typeInfoOf info).onlyNewTypes ∧
      ∀ y ∈ ys,∀ s ∈ (typeInfoOf y).newTypes,∀ t ∈ (typeInfoOf info).newTypes,s.1 = t.1 → s = t := by
  have htakes := (exactMerge_merges typesDiffer).unionItems_takes h.newTypes (fun _ _ => trivial) hkeys
  simp only [List.mem_flatMap,forall_exists_index,and_imp] at htakes
  unfold unionFirstTypeInfoIntoSecond
  split_ifs with honly
  · simp only [honly,true_and]
    constructor
    · rintro ⟨r',hr'⟩ y hy s hs t ht
      obtain ⟨newTypes,hnew,-⟩ := map_eq_ok.mp hr'
      exact htakes.mp ⟨newTypes,hnew⟩ s y hy hs t ht
    · intro hequal
      obtain ⟨newTypes,hnew⟩ := htakes.mpr fun s y hy hs t ht => hequal y hy s hs t ht
      exact ⟨_,map_eq_ok.mpr ⟨newTypes,hnew,rfl⟩⟩
  · simp [honly]

theorem TypesStand.stands {r' : Option TypeInfo} (h : TypesStand ys r)
    (hr' : unionFirstTypeInfoIntoSecond info (some r) = .ok r') : ∃ types,r' = some types ∧ TypesStand (ys ++ [info]) types := by
  unfold unionFirstTypeInfoIntoSecond at hr'
  split_ifs at hr' with honly
  obtain ⟨newTypes,hnew,rfl⟩ := map_eq_ok.mp hr'
  refine ⟨_,rfl,h.onlyNewTypes,?_⟩
  rw [List.flatMap_append,List.flatMap_singleton]
  exact (exactMerge_merges typesDiffer).unionItems_stands h.newTypes (fun _ _ => trivial) hnew

theorem unionTypeInfo_first_eq_ok {r' : Option TypeInfo} : unionFirstTypeInfoIntoSecond info none = .ok r' ↔
    (typeInfoOf info).onlyNewTypes ∧ r' = some (typeInfoOf info) := by
  unfold unionFirstTypeInfoIntoSecond
  split_ifs with honly
  · simp [honly,eq_comm]
  · simp [honly]

theorem TypesStand.first (honly : (typeInfoOf info).onlyNewTypes)
    (hkeys : ((typeInfoOf info).newTypes.map Prod.fst).Nodup) : TypesStand [info] (typeInfoOf info) :=
  ⟨honly,by simpa using equalUnion_self hkeys⟩

/-- The same new types; there are no others. -/
structure TypesSame (s t : TypeInfo) : Prop where
  onlyNewTypes : s.onlyNewTypes ∧ t.onlyNewTypes
  newTypes : s.newTypes.Perm t.newTypes

theorem TypesStand.same (h : TypesStand ys r) (h' : TypesStand ys' r') (hmem : ∀ y,y ∈ ys ↔ y ∈ ys') : TypesSame r r' :=
  ⟨⟨h.onlyNewTypes,h'.onlyNewTypes⟩,h.newTypes.perm h'.newTypes fun t => by simp only [List.mem_flatMap,hmem]⟩

end Types

section Infos

/-- The ids of the objects of each kind are distinct, and so are the keys of the map of new types. -/
structure DistinctIds (info : P4Info) : Prop where
  tables : (info.tables.map fun t => t.preamble.id).Nodup
  table : ∀ t ∈ info.tables,t.DistinctIds
  actions : (info.actions.map fun a => a.preamble.id).Nodup
  actionProfiles : (info.actionProfiles.map fun p => p.preamble.id).Nodup
  counters : (info.counters.map fun c => c.preamble.id).Nodup
  directCounters : (info.directCounters.map fun c => c.preamble.id).Nodup
  meters : (info.meters.map fun m => m.preamble.id).Nodup
  directMeters : (info.directMeters.map fun m => m.preamble.id).Nodup
  controllerPacketMetadata : (info.controllerPacketMetadata.map fun m => m.preamble.id).Nodup
  valueSets : (info.valueSets.map fun v => v.preamble.id).Nodup
  registers : (info.registers.map fun r => r.preamble.id).Nodup
  digests : (info.digests.map fun d => d.preamble.id).Nodup
  newTypes : ((typeInfoOf info).newTypes.map Prod.fst).Nodup

/-- What the union of some P4Infos stands for. -/
structure Stands (ys : List P4Info) (r : P4Info) : Prop where
  pkgInfo : ys ≠ [] → PkgStands ys r.pkgInfo
  tables : UnionOf (fun t => t.preamble.id) TableStands (ys.flatMap P4Info.tables) r.tables
  actions : UnionOf (fun a => a.preamble.id) ActionStands (ys.flatMap P4Info.actions) r.actions
  actionProfiles : UnionOf (fun p => p.preamble.id) ProfileStands (ys.flatMap P4Info.actionProfiles) r.actionProfiles
  counters : EqualUnion (fun c => c.preamble.id) (ys.flatMap P4Info.counters) r.counters
  directCounters : EqualUnion (fun c => c.preamble.id) (ys.flatMap P4Info.directCounters) r.directCounters
  meters : EqualUnion (fun m => m.preamble.id) (ys.flatMap P4Info.meters) r.meters
  directMeters : EqualUnion (fun m => m.preamble.id) (ys.flatMap P4Info.directMeters) r.directMeters
  controllerPacketMetadata :
    EqualUnion (fun m => m.preamble.id) (ys.flatMap P4Info.controllerPacketMetadata) r.controllerPacketMetadata
  valueSets : EqualUnion (fun v => v.preamble.id) (ys.flatMap P4Info.valueSets) r.valueSets
  registers : EqualUnion (fun r => r.preamble.id) (ys.flatMap P4Info.registers) r.registers
  digests : EqualUnion (fun d => d.preamble.id) (ys.flatMap P4Info.digests) r.digests
  typeInfo : ys ≠ [] → ∃ types,r.typeInfo = some types ∧ TypesStand ys types
  empty : ys = [] → r = {}
  externs : r.externs = []

/-- Objects of one id, of one kind, are related. -/
def KindCompat {α κ : Type} (kind : P4Info → List α) (key : α → κ) (rel : α → α → Prop) (x y : P4Info) : Prop :=
  ∀ a ∈ kind x,∀ b ∈ kind y,key a = key b → rel a b

structure Compat (x y : P4Info) : Prop where
  pkgInfo : x.pkgInfo.compared = y.pkgInfo.compared
  tables : KindCompat P4Info.tables (fun t => t.preamble.id) TableCompat x y
  actions : KindCompat P4Info.actions (fun a => a.preamble.id) ActionCompat x y
  actionProfiles :
    KindCompat P4Info.actionProfiles (fun p => p.preamble.id) (fun p q => profileCompared p = profileCompared q) x y
  counters : KindCompat P4Info.counters (fun c => c.preamble.id) Eq x y
  directCounters : KindCompat P4Info.directCounters (fun c => c.preamble.id) Eq x y
  meters : KindCompat P4Info.meters (fun m => m.preamble.id) Eq x y
  directMeters : KindCompat P4Info.directMeters (fun m => m.preamble.id) Eq x y
  controllerPacketMetadata : KindCompat P4Info.controllerPacketMetadata (fun m => m.preamble.id) Eq x y
  valueSets : KindCompat P4Info.valueSets (fun v => v.preamble.id) Eq x y
  registers : KindCompat P4Info.registers (fun r => r.preamble.id) Eq x y
  digests : KindCompat P4Info.digests (fun d => d.preamble.id) Eq x y
  newTypes : KindCompat (fun info => (typeInfoOf info).newTypes) Prod.fst Eq x y

theorem kindCompat_iff {α : Type} {kind : P4Info → List α} {key : α → κ} {rel : α → α → Prop} {ys : List P4Info}
    {x : P4Info} : (∀ a ∈ ys.flatMap kind,∀ b ∈ kind x,key a = key b → rel a b) ↔ ∀ y ∈ ys,KindCompat kind key rel y x := by
  simp only [List.mem_flatMap,forall_exists_index,and_imp,KindCompat]
  exact ⟨fun h y hy a ha => h a y hy ha,fun h a y hy ha => h y hy a ha⟩

variable {ys : List P4Info} {x r : P4Info}

theorem Stands.pkgInfo_takes (h : Stands ys r) : (∃ p,unionFirstPkgInfoIntoSecond x.pkgInfo r.pkgInfo = .ok p) ↔
    ∀ y ∈ ys,y.pkgInfo.compared = x.pkgInfo.compared := by
  by_cases hne : ys = []
  · rw [h.empty hne]
    exact iff_of_true ⟨_,unionPkgInfo_first _⟩ (by simp [hne])
  · exact (h.pkgInfo hne).takes hne

theorem Stands.typeInfo_takes (h : Stands ys r) (hx : x.DistinctIds) :
    (∃ t,unionFirstTypeInfoIntoSecond x r.typeInfo = .ok t) ↔ (typeInfoOf x).onlyNewTypes ∧
      ∀ y ∈ ys,KindCompat (fun info => (typeInfoOf info).newTypes) Prod.fst Eq y x := by
  by_cases hne : ys = []
  · rw [h.empty hne]
    simp only [unionTypeInfo_first_eq_ok,exists_and_left,exists_eq,and_true]
    simp [hne]
  · obtain ⟨types,htypes,hstands⟩ := h.typeInfo hne
    rw [htypes,hstands.takes hx.newTypes]
    rfl

private theorem exists_bind_ok {ε α β : Type} {m : Except ε α} {f : α → Except ε β} :
    (∃ b,m >>= f = .ok b) ↔ ∃ a,m = .ok a ∧ ∃ b,f a = .ok b := by
  simp only [bind_eq_ok]
  exact ⟨fun ⟨b,a,ha,hb⟩ => ⟨a,ha,b,hb⟩,fun ⟨a,ha,b,hb⟩ => ⟨b,a,ha,hb⟩⟩

theorem kindUnion_takes {α : Type} [DecidableEq α] {id : α → UInt32} (kind : P4Info → List α)
    (h : EqualUnion id (ys.flatMap kind) (kind r)) (hids : ((kind x).map id).Nodup) :
    (∃ unioned,mapUnionEqual type id (kind x) (kind r) = .ok unioned) ↔ ∀ y ∈ ys,KindCompat kind id Eq y x :=
  (mapUnionEqual_takes h hids).trans kindCompat_iff

theorem kindUnion_stands {α : Type} [DecidableEq α] {id : α → UInt32} {unioned : List α}
    (kind : P4Info → List α) (h : EqualUnion id (ys.flatMap kind) (kind r))
    (hunion : mapUnionEqual type id (kind x) (kind r) = .ok unioned) : EqualUnion id ((ys ++ [x]).flatMap kind) unioned := by
  rw [List.flatMap_append,List.flatMap_singleton]
  exact mapUnionEqual_stands h hunion

theorem Stands.takes (h : Stands ys r) (hx : x.DistinctIds) :
    (∃ r',unionFirstInfoIntoSecond r x = .ok r') ↔ (typeInfoOf x).onlyNewTypes ∧ ∀ y ∈ ys,Compat y x := by
  have htables := (unionTable_merges.unionItems_takes h.tables hx.table hx.tables).trans kindCompat_iff
  have hactions := (unionAction_merges.unionItems_takes h.actions (fun _ _ => trivial) hx.actions).trans kindCompat_iff
  have hprofiles :=
    (unionProfile_merges.unionItems_takes h.actionProfiles (fun _ _ => trivial) hx.actionProfiles).trans kindCompat_iff
  unfold unionFirstInfoIntoSecond mapUnionObjects
  simp only [exists_bind_ok,exists_and_right,Except.ok.injEq,exists_eq',and_true]
  rw [h.pkgInfo_takes,htables,hactions,hprofiles,kindUnion_takes P4Info.counters h.counters hx.counters,
    kindUnion_takes P4Info.directCounters h.directCounters hx.directCounters,
    kindUnion_takes P4Info.meters h.meters hx.meters,kindUnion_takes P4Info.directMeters h.directMeters hx.directMeters,
    kindUnion_takes P4Info.controllerPacketMetadata h.controllerPacketMetadata hx.controllerPacketMetadata,
    kindUnion_takes P4Info.valueSets h.valueSets hx.valueSets,kindUnion_takes P4Info.registers h.registers hx.registers,
    kindUnion_takes P4Info.digests h.digests hx.digests,h.typeInfo_takes hx]
  constructor
  · rintro ⟨hpkg,ht,ha,hp,hc,hdc,hm,hdm,hcp,hv,hr,hd,honly,htypes⟩
    exact ⟨honly,fun y hy => ⟨hpkg y hy,ht y hy,ha y hy,hp y hy,hc y hy,hdc y hy,hm y hy,hdm y hy,hcp y hy,hv y hy,hr y hy,
      hd y hy,htypes y hy⟩⟩
  · rintro ⟨honly,hcompat⟩
    exact ⟨fun y hy => (hcompat y hy).pkgInfo,fun y hy => (hcompat y hy).tables,fun y hy => (hcompat y hy).actions,
      fun y hy => (hcompat y hy).actionProfiles,fun y hy => (hcompat y hy).counters,
      fun y hy => (hcompat y hy).directCounters,fun y hy => (hcompat y hy).meters,fun y hy => (hcompat y hy).directMeters,
      fun y hy => (hcompat y hy).controllerPacketMetadata,fun y hy => (hcompat y hy).valueSets,
      fun y hy => (hcompat y hy).registers,fun y hy => (hcompat y hy).digests,honly,fun y hy => (hcompat y hy).newTypes⟩

theorem Stands.pkgInfo_stands {p : PkgInfo} (h : Stands ys r) (hp : unionFirstPkgInfoIntoSecond x.pkgInfo r.pkgInfo = .ok p) :
    PkgStands (ys ++ [x]) p := by
  by_cases hne : ys = []
  · rw [h.empty hne,unionPkgInfo_first] at hp
    cases hp
    rw [hne]
    exact .first x
  · exact (h.pkgInfo hne).stands hp

theorem Stands.typeInfo_stands {t : Option TypeInfo} (h : Stands ys r) (hx : x.DistinctIds)
    (ht : unionFirstTypeInfoIntoSecond x r.typeInfo = .ok t) : ∃ types,t = some types ∧ TypesStand (ys ++ [x]) types := by
  by_cases hne : ys = []
  · rw [h.empty hne] at ht
    obtain ⟨honly,rfl⟩ := unionTypeInfo_first_eq_ok.mp ht
    rw [hne]
    exact ⟨_,rfl,.first honly hx.newTypes⟩
  · obtain ⟨types,htypes,hstands⟩ := h.typeInfo hne
    rw [htypes] at ht
    exact hstands.stands ht

theorem Stands.stands {r' : P4Info} (h : Stands ys r) (hx : x.DistinctIds)
    (hr' : unionFirstInfoIntoSecond r x = .ok r') : Stands (ys ++ [x]) r' := by
  unfold unionFirstInfoIntoSecond mapUnionObjects at hr'
  simp only [bind_eq_ok,Except.ok.injEq] at hr'
  obtain ⟨pkgInfo,hpkg,tables,ht,actions,ha,profiles,hp,counters,hc,directCounters,hdc,meters,hm,directMeters,hdm,
    packets,hcp,valueSets,hv,registers,hr,digests,hd,types,htypes,rfl⟩ := hr'
  constructor
  · exact fun _ => h.pkgInfo_stands hpkg
  · rw [List.flatMap_append,List.flatMap_singleton]
    exact unionTable_merges.unionItems_stands h.tables hx.table ht
  · rw [List.flatMap_append,List.flatMap_singleton]
    exact unionAction_merges.unionItems_stands h.actions (fun _ _ => trivial) ha
  · rw [List.flatMap_append,List.flatMap_singleton]
    exact unionProfile_merges.unionItems_stands h.actionProfiles (fun _ _ => trivial) hp
  · exact kindUnion_stands P4Info.counters h.counters hc
  · exact kindUnion_stands P4Info.directCounters h.directCounters hdc
  · exact kindUnion_stands P4Info.meters h.meters hm
  · exact kindUnion_stands P4Info.directMeters h.directMeters hdm
  · exact kindUnion_stands P4Info.controllerPacketMetadata h.controllerPacketMetadata hcp
  · exact kindUnion_stands P4Info.valueSets h.valueSets hv
  · exact kindUnion_stands P4Info.registers h.registers hr
  · exact kindUnion_stands P4Info.digests h.digests hd
  · exact fun _ => h.typeInfo_stands hx htypes
  · simp
  · exact h.externs

theorem unionInfo_accumulates : Accumulates unionFirstInfoIntoSecond DistinctIds (fun x => (typeInfoOf x).onlyNewTypes = true)
    Compat Stands where
  takes h hx := h.takes hx
  stands h hx hr' := h.stands hx hr'

theorem Stands.nil : Stands [] {} where
  pkgInfo h := absurd rfl h
  tables := .nil
  actions := .nil
  actionProfiles := .nil
  counters := .nil
  directCounters := .nil
  meters := .nil
  directMeters := .nil
  controllerPacketMetadata := .nil
  valueSets := .nil
  registers := .nil
  digests := .nil
  typeInfo h := absurd rfl h
  empty _ := rfl
  externs := rfl

/-- A P4Info that can be unioned at all. -/
def Supported (info : P4Info) : Prop := info.externs = [] ∧ (typeInfoOf info).onlyNewTypes = true

variable {infos : List P4Info}

private theorem containsUnsupportedField_eq_ok : containsUnsupportedField infos = .ok () ↔ ∀ info ∈ infos,info.externs = [] := by
  unfold containsUnsupportedField
  rw [guard_eq_ok]
  simp

theorem unionP4info_exists_iff (hids : ∀ info ∈ infos,info.DistinctIds) :
    (∃ r,unionP4info infos = .ok r) ↔ (∀ info ∈ infos,info.Supported) ∧ infos.Pairwise Compat := by
  unfold unionP4info
  simp only [then_eq_ok,exists_and_left,containsUnsupportedField_eq_ok,unionInfo_accumulates.foldlM_takes .nil hids]
  constructor
  · rintro ⟨hexterns,htypes,-,hpairs⟩
    exact ⟨fun info hinfo => ⟨hexterns info hinfo,htypes info hinfo⟩,hpairs⟩
  · rintro ⟨hsupported,hpairs⟩
    exact ⟨fun info hinfo => (hsupported info hinfo).1,fun info hinfo => (hsupported info hinfo).2,by simp,hpairs⟩

theorem unionP4info_stands (hids : ∀ info ∈ infos,info.DistinctIds) (h : unionP4info infos = .ok r) : Stands infos r := by
  unfold unionP4info at h
  obtain ⟨-,h⟩ := then_eq_ok.mp h
  exact unionInfo_accumulates.foldlM_stands .nil hids h

end Infos

section Laws

/-- The same P4Info up to the order of repeated fields, the multiplicity of annotations and direct
resource ids, annotation locations, and the name and version of the package. -/
structure SameUpToOrder (x y : P4Info) : Prop where
  pkgInfo : PkgSame x.pkgInfo y.pkgInfo
  tables : EqUpToOrder TableSame x.tables y.tables
  actions : EqUpToOrder ActionSame x.actions y.actions
  actionProfiles : EqUpToOrder Eq x.actionProfiles y.actionProfiles
  counters : x.counters.Perm y.counters
  directCounters : x.directCounters.Perm y.directCounters
  meters : x.meters.Perm y.meters
  directMeters : x.directMeters.Perm y.directMeters
  controllerPacketMetadata : x.controllerPacketMetadata.Perm y.controllerPacketMetadata
  valueSets : x.valueSets.Perm y.valueSets
  registers : x.registers.Perm y.registers
  digests : x.digests.Perm y.digests
  externs : x.externs = y.externs
  typeInfo : Option.Rel TypesSame x.typeInfo y.typeInfo

variable {infos infos' : List P4Info} {r r' : P4Info}

theorem Stands.same (h : Stands infos r) (h' : Stands infos' r') (hmem : ∀ x,x ∈ infos ↔ x ∈ infos') : SameUpToOrder r r' := by
  have hkind : ∀ {α : Type} (kind : P4Info → List α) (a : α),a ∈ infos.flatMap kind ↔ a ∈ infos'.flatMap kind := by
    intro α kind a
    simp only [List.mem_flatMap,hmem]
  have hnil : infos = [] ↔ infos' = [] := by
    simp only [List.eq_nil_iff_forall_not_mem,hmem]
  refine ⟨?_,h.tables.eqUpToOrder h'.tables (hkind _) fun hne hmem h h' => h.same h' hne hmem,
    h.actions.eqUpToOrder h'.actions (hkind _) fun hne hmem h h' => h.same h' hne hmem,
    h.actionProfiles.eqUpToOrder h'.actionProfiles (hkind _) fun hne hmem h h' => h.same h' hne hmem,
    h.counters.perm h'.counters (hkind _),h.directCounters.perm h'.directCounters (hkind _),
    h.meters.perm h'.meters (hkind _),h.directMeters.perm h'.directMeters (hkind _),
    h.controllerPacketMetadata.perm h'.controllerPacketMetadata (hkind _),h.valueSets.perm h'.valueSets (hkind _),
    h.registers.perm h'.registers (hkind _),h.digests.perm h'.digests (hkind _),h.externs.trans h'.externs.symm,?_⟩
  · by_cases hne : infos = []
    · rw [h.empty hne,h'.empty (hnil.mp hne)]
      exact ⟨rfl,rfl⟩
    · exact (h.pkgInfo hne).same (h'.pkgInfo (mt hnil.mpr hne)) hne hmem
  · by_cases hne : infos = []
    · rw [h.empty hne,h'.empty (hnil.mp hne)]
      exact .none
    · obtain ⟨types,htypes,hstands⟩ := h.typeInfo hne
      obtain ⟨types',htypes',hstands'⟩ := h'.typeInfo (mt hnil.mpr hne)
      rw [htypes,htypes']
      exact .some (hstands.same hstands' hmem)

theorem PreambleCompat.symm {p q : Preamble} (h : PreambleCompat p q) : PreambleCompat q p :=
  ⟨h.compared.symm,h.noStructured.symm⟩

theorem TableCompat.symm {s t : Table} (h : TableCompat s t) : TableCompat t s :=
  ⟨h.compared.symm,h.preamble.symm,fun f hf g hg hid => (h.matchFields g hg f hf hid.symm).symm,
    fun a ha b hb hid => (h.actionRefs b hb a ha hid.symm).symm,h.noOtherProperties.symm⟩

theorem KindCompat.symm {α : Type} {kind : P4Info → List α} {key : α → κ} {rel : α → α → Prop} {x y : P4Info}
    (hrel : ∀ {a b},rel a b → rel b a) (h : KindCompat kind key rel x y) : KindCompat kind key rel y x :=
  fun a ha b hb hkey => hrel (h b hb a ha hkey.symm)

theorem Compat.symm {x y : P4Info} (h : Compat x y) : Compat y x where
  pkgInfo := h.pkgInfo.symm
  tables := h.tables.symm TableCompat.symm
  actions := h.actions.symm fun h => ⟨h.preamble.symm,h.params.symm⟩
  actionProfiles := h.actionProfiles.symm Eq.symm
  counters := h.counters.symm Eq.symm
  directCounters := h.directCounters.symm Eq.symm
  meters := h.meters.symm Eq.symm
  directMeters := h.directMeters.symm Eq.symm
  controllerPacketMetadata := h.controllerPacketMetadata.symm Eq.symm
  valueSets := h.valueSets.symm Eq.symm
  registers := h.registers.symm Eq.symm
  digests := h.digests.symm Eq.symm
  newTypes := h.newTypes.symm Eq.symm

instance : Std.Symm Compat := ⟨fun _ _ h => h.symm⟩

/-- A P4Info whose tables and actions can be merged with themselves. -/
structure Repeatable (info : P4Info) : Prop where
  tables : ∀ t ∈ info.tables,t.preamble.structuredAnnotations = [] ∧ t.otherProperties = none
  actions : ∀ a ∈ info.actions,a.preamble.structuredAnnotations = []

theorem Table.DistinctIds.compat_self {t : Table} (h : t.DistinctIds) (hstructured : t.preamble.structuredAnnotations = [])
    (hother : t.otherProperties = none) : TableCompat t t :=
  ⟨rfl,⟨rfl,hstructured,hstructured⟩,fun _ hf _ hg hid => List.inj_on_of_nodup_map h.matchFields hf hg hid,
    fun _ ha _ hb hid => List.inj_on_of_nodup_map h.actionRefs ha hb hid,hother,hother⟩

theorem kindCompat_self {α : Type} {kind : P4Info → List α} {key : α → κ} {rel : α → α → Prop} {x : P4Info}
    (hids : ((kind x).map key).Nodup) (hself : ∀ a ∈ kind x,rel a a) : KindCompat kind key rel x x := by
  intro a ha b hb hkey
  rw [← List.inj_on_of_nodup_map hids ha hb hkey]
  exact hself a ha

theorem Repeatable.compat_self {x : P4Info} (h : x.Repeatable) (hids : x.DistinctIds) : Compat x x where
  pkgInfo := rfl
  tables := kindCompat_self hids.tables fun t ht => (hids.table t ht).compat_self (h.tables t ht).1 (h.tables t ht).2
  actions := kindCompat_self hids.actions fun a ha => ⟨⟨rfl,h.actions a ha,h.actions a ha⟩,rfl⟩
  actionProfiles := kindCompat_self hids.actionProfiles fun _ _ => rfl
  counters := kindCompat_self hids.counters fun _ _ => rfl
  directCounters := kindCompat_self hids.directCounters fun _ _ => rfl
  meters := kindCompat_self hids.meters fun _ _ => rfl
  directMeters := kindCompat_self hids.directMeters fun _ _ => rfl
  controllerPacketMetadata := kindCompat_self hids.controllerPacketMetadata fun _ _ => rfl
  valueSets := kindCompat_self hids.valueSets fun _ _ => rfl
  registers := kindCompat_self hids.registers fun _ _ => rfl
  digests := kindCompat_self hids.digests fun _ _ => rfl
  newTypes := kindCompat_self hids.newTypes fun _ _ => rfl

private theorem unionP4info_perm (hids : ∀ info ∈ infos,info.DistinctIds) (h : unionP4info infos = .ok r)
    (hperm : infos.Perm infos') : ∃ r',unionP4info infos' = .ok r' ∧ SameUpToOrder r r' := by
  have hids' : ∀ info ∈ infos',info.DistinctIds := fun info hinfo => hids info (hperm.mem_iff.mpr hinfo)
  obtain ⟨hsupported,hpairs⟩ := (unionP4info_exists_iff hids).mp ⟨r,h⟩
  obtain ⟨r',hr'⟩ := (unionP4info_exists_iff hids').mpr
    ⟨fun info hinfo => hsupported info (hperm.mem_iff.mpr hinfo),(hperm.pairwise_iff Compat.symm).mp hpairs⟩
  exact ⟨r',hr',(unionP4info_stands hids h).same (unionP4info_stands hids' hr') fun _ => hperm.mem_iff⟩

private theorem unionP4info_again (hids : ∀ info ∈ infos,info.DistinctIds) (h : unionP4info infos = .ok r) {x : P4Info}
    (hx : x ∈ infos) (hrepeatable : x.Repeatable) : ∃ r',unionP4info (infos ++ [x]) = .ok r' ∧ SameUpToOrder r r' := by
  have hmem : ∀ y,y ∈ infos ↔ y ∈ infos ++ [x] := fun y => by
    rw [List.mem_append,List.mem_singleton]
    exact ⟨.inl,fun hy => hy.elim id fun heq => heq ▸ hx⟩
  have hids' : ∀ info ∈ infos ++ [x],info.DistinctIds := fun info hinfo => hids info ((hmem info).mpr hinfo)
  obtain ⟨hsupported,hpairs⟩ := (unionP4info_exists_iff hids).mp ⟨r,h⟩
  have hlast : ∀ y ∈ infos,Compat y x := by
    intro y hy
    by_cases hyx : y = x
    · rw [hyx]
      exact hrepeatable.compat_self (hids x hx)
    · exact hpairs.forall hy hx hyx
  obtain ⟨r',hr'⟩ := (unionP4info_exists_iff hids').mpr ⟨fun info hinfo => hsupported info ((hmem info).mpr hinfo),
    List.pairwise_append.mpr ⟨hpairs,List.pairwise_singleton _ _,fun y hy z hz => List.mem_singleton.mp hz ▸ hlast y hy⟩⟩
  exact ⟨r',hr',(unionP4info_stands hids h).same (unionP4info_stands hids' hr') hmem⟩

end Laws

section Contents

/-- There is exactly one object for each id that occurs in any of the P4Infos. -/
def OneObjectPerId {α κ : Type} (kind : P4Info → List α) (key : α → κ) (infos : List P4Info) (r : P4Info) : Prop :=
  ((kind r).map key).Nodup ∧ ∀ id,id ∈ (kind r).map key ↔ ∃ info ∈ infos,id ∈ (kind info).map key

/-- The objects of each kind. -/
structure OneObjectPerKind (infos : List P4Info) (r : P4Info) : Prop where
  tables : OneObjectPerId P4Info.tables (fun t => t.preamble.id) infos r
  actions : OneObjectPerId P4Info.actions (fun a => a.preamble.id) infos r
  actionProfiles : OneObjectPerId P4Info.actionProfiles (fun p => p.preamble.id) infos r
  counters : OneObjectPerId P4Info.counters (fun c => c.preamble.id) infos r
  directCounters : OneObjectPerId P4Info.directCounters (fun c => c.preamble.id) infos r
  meters : OneObjectPerId P4Info.meters (fun m => m.preamble.id) infos r
  directMeters : OneObjectPerId P4Info.directMeters (fun m => m.preamble.id) infos r
  controllerPacketMetadata : OneObjectPerId P4Info.controllerPacketMetadata (fun m => m.preamble.id) infos r
  valueSets : OneObjectPerId P4Info.valueSets (fun v => v.preamble.id) infos r
  registers : OneObjectPerId P4Info.registers (fun r => r.preamble.id) infos r
  digests : OneObjectPerId P4Info.digests (fun d => d.preamble.id) infos r
  newTypes : OneObjectPerId (fun info => (typeInfoOf info).newTypes) Prod.fst infos r

/-- A repeated field of a table has exactly the items of the tables with its id. -/
def HasItemsOf {α : Type} (items : Table → List α) (infos : List P4Info) (t : Table) : Prop :=
  ∀ a,a ∈ items t ↔ ∃ info ∈ infos,∃ s ∈ info.tables,s.preamble.id = t.preamble.id ∧ a ∈ items s

/-- The repeated fields of a table of the union. -/
structure TableContents (infos : List P4Info) (t : Table) : Prop where
  distinct : t.DistinctIds
  matchFields : HasItemsOf Table.matchFields infos t
  actionRefs : HasItemsOf Table.actionRefs infos t
  directResourceIds : HasItemsOf Table.directResourceIds infos t
  annotations : HasItemsOf (fun t => t.preamble.annotations) infos t

/-- The limits of the union are at least those of the P4Info, the group sizes where the P4Info has one (not 0). -/
structure LimitsCovered (info r : P4Info) : Prop where
  tableSize : ∀ s ∈ info.tables,∀ t ∈ r.tables,s.preamble.id = t.preamble.id → s.size ≤ t.size
  profileSize : ∀ p ∈ info.actionProfiles,∀ q ∈ r.actionProfiles,p.preamble.id = q.preamble.id → p.size ≤ q.size
  maxGroupSize : ∀ p ∈ info.actionProfiles,∀ q ∈ r.actionProfiles,p.preamble.id = q.preamble.id → p.maxGroupSize ≠ 0 →
    p.maxGroupSize ≤ q.maxGroupSize
  multicastGroupTableSize : (platformLimits info).multicastGroupTableSize ≤ (platformLimits r).multicastGroupTableSize
  multicastTotalReplicas :
    (platformLimits info).multicastGroupTableTotalReplicas ≤ (platformLimits r).multicastGroupTableTotalReplicas
  multicastMaxReplicas :
    (platformLimits info).multicastGroupTableMaxReplicasPerEntry ≤ (platformLimits r).multicastGroupTableMaxReplicasPerEntry

variable {infos : List P4Info} {r : P4Info}

theorem oneObjectPerId_of_union {α : Type} [DecidableEq κ] {kind : P4Info → List α} {key : α → κ}
    {S : List α → α → Prop} (h : UnionOf key S (infos.flatMap kind) (kind r)) : OneObjectPerId kind key infos r := by
  refine ⟨h.nodup,fun id => ?_⟩
  rw [h.mem_keys,List.map_flatMap,List.mem_flatMap]

theorem Stands.oneObjectPerKind (h : Stands infos r) : OneObjectPerKind infos r where
  tables := oneObjectPerId_of_union h.tables
  actions := oneObjectPerId_of_union h.actions
  actionProfiles := oneObjectPerId_of_union h.actionProfiles
  counters := oneObjectPerId_of_union h.counters
  directCounters := oneObjectPerId_of_union h.directCounters
  meters := oneObjectPerId_of_union h.meters
  directMeters := oneObjectPerId_of_union h.directMeters
  controllerPacketMetadata := oneObjectPerId_of_union h.controllerPacketMetadata
  valueSets := oneObjectPerId_of_union h.valueSets
  registers := oneObjectPerId_of_union h.registers
  digests := oneObjectPerId_of_union h.digests
  newTypes := by
    by_cases hne : infos = []
    · rw [h.empty hne,hne]
      exact ⟨List.nodup_nil,fun _ => by simp [typeInfoOf]⟩
    · obtain ⟨types,htypes,hstands⟩ := h.typeInfo hne
      refine oneObjectPerId_of_union (S := fun ys r => ∀ y ∈ ys,y = r) ?_
      rw [show (typeInfoOf r).newTypes = types.newTypes by simp [typeInfoOf,htypes]]
      exact hstands.newTypes

theorem mem_same_id {t s : Table} : s ∈ ((infos.flatMap P4Info.tables).filter fun s => s.preamble.id = t.preamble.id) ↔
    ∃ info ∈ infos,s ∈ info.tables ∧ s.preamble.id = t.preamble.id := by
  simp only [List.mem_filter,List.mem_flatMap,decide_eq_true_iff]
  exact ⟨fun ⟨⟨info,hinfo,hs⟩,hid⟩ => ⟨info,hinfo,hs,hid⟩,fun ⟨info,hinfo,hs,hid⟩ => ⟨⟨info,hinfo,hs⟩,hid⟩⟩

theorem hasItems_of_gathered {α : Type} {items : Table → List α} {t : Table}
    (h : Gathered items ((infos.flatMap P4Info.tables).filter fun s => s.preamble.id = t.preamble.id) (items t)) :
    HasItemsOf items infos t := by
  intro a
  rw [h a]
  constructor
  · rintro ⟨s,hs,ha⟩
    obtain ⟨info,hinfo,hs,hid⟩ := mem_same_id.mp hs
    exact ⟨info,hinfo,s,hs,hid,ha⟩
  · rintro ⟨info,hinfo,s,hs,hid,ha⟩
    exact ⟨s,mem_same_id.mpr ⟨info,hinfo,hs,hid⟩,ha⟩

theorem gathered_of_union {α β : Type} [DecidableEq κ] {key : β → κ} {f : α → List β} {ys : List α} {vs : List β}
    (h : EqualUnion key (ys.flatMap f) vs) : Gathered f ys vs := by
  intro v
  rw [h.mem_iff,List.mem_flatMap]

theorem Stands.tableContents (h : Stands infos r) {t : Table} (ht : t ∈ r.tables) : TableContents infos t := by
  have hstands := h.tables.stands t ht
  refine ⟨⟨hstands.matchFields.nodup,hstands.actionRefs.nodup⟩,hasItems_of_gathered (gathered_of_union hstands.matchFields),
    hasItems_of_gathered (gathered_of_union hstands.actionRefs),hasItems_of_gathered hstands.directResourceIds,?_⟩
  exact @hasItems_of_gathered infos _ (fun t => t.preamble.annotations) t hstands.preamble.annotations

theorem Stands.limitsCovered (h : Stands infos r) {info : P4Info} (hinfo : info ∈ infos) : LimitsCovered info r := by
  have hpkg := h.pkgInfo (List.ne_nil_of_mem hinfo)
  have hprofile : ∀ p ∈ info.actionProfiles,∀ q ∈ r.actionProfiles,p.preamble.id = q.preamble.id →
      p ∈ (infos.flatMap P4Info.actionProfiles).filter fun p => p.preamble.id = q.preamble.id := by
    intro p hp q hq hid
    exact List.mem_filter.mpr ⟨List.mem_flatMap.mpr ⟨info,hinfo,hp⟩,by simpa using hid⟩
  refine ⟨fun s hs t ht hid => ?_,fun p hp q hq hid => ?_,fun p hp q hq hid _ => ?_,hpkg.tableSize.2 info hinfo,
    hpkg.totalReplicas.2 info hinfo,hpkg.maxReplicas.2 info hinfo⟩
  · exact (h.tables.stands t ht).size.2 s (mem_same_id.mpr ⟨info,hinfo,hs,hid⟩)
  · exact (h.actionProfiles.stands q hq).size.2 p (hprofile p hp q hq hid)
  · exact (h.actionProfiles.stands q hq).maxGroupSize.2 p (hprofile p hp q hq hid)

/-- The union of P4Infos: what it holds, that the order of the P4Infos and repetitions do not matter,
and that its limits cover theirs. -/
theorem p4infos_union (hids : ∀ info ∈ infos,info.DistinctIds) (h : unionP4info infos = .ok r) :
    OneObjectPerKind infos r ∧ (∀ t ∈ r.tables,TableContents infos t) ∧
    (∀ infos',infos.Perm infos' → ∃ r',unionP4info infos' = .ok r' ∧ SameUpToOrder r r') ∧
    (∀ x ∈ infos,x.Repeatable → ∃ r',unionP4info (infos ++ [x]) = .ok r' ∧ SameUpToOrder r r') ∧
    ∀ info ∈ infos,LimitsCovered info r := by
  have hstands := unionP4info_stands hids h
  exact ⟨hstands.oneObjectPerKind,fun t ht => hstands.tableContents ht,fun infos' hperm => unionP4info_perm hids h hperm,
    fun x hx hrepeatable => unionP4info_again hids h hx hrepeatable,fun info hinfo => hstands.limitsCovered hinfo⟩

/-- A P4Info of one table and one action profile. -/
def unionSample (field : UInt32) (annotations structuredAnnotations : List String) (otherProperties : Option String)
    (maxGroupSize : Int) : P4Info where
  tables := [{
    preamble := { id := 1,aliasName := "t",annotations := annotations,structuredAnnotations := structuredAnnotations },
    matchFields := [{ id := field,name := "f",bitwidth := 8,matchType := .exact }],otherProperties := otherProperties }]
  actionProfiles := [{ preamble := { id := 2,aliasName := "p" },maxGroupSize := maxGroupSize }]

theorem unionSample_distinctIds (field : UInt32) (annotations structuredAnnotations : List String)
    (otherProperties : Option String) (maxGroupSize : Int) :
    (unionSample field annotations structuredAnnotations otherProperties maxGroupSize).DistinctIds := by
  constructor
  case table =>
    intro t ht
    rw [List.mem_singleton.mp ht]
    exact ⟨List.nodup_singleton _,List.nodup_nil⟩
  all_goals simp [unionSample,typeInfoOf]

/-- Two P4Infos that both have the table join their match fields. -/
theorem two_match_fields_joined :
    let infos := [unionSample 1 ["@a"] [] none 5,unionSample 2 ["@b"] [] none 7]
    ∃ r,unionP4info infos = .ok r ∧ OneObjectPerKind infos r ∧ (∀ t ∈ r.tables,t.matchFields.map MatchField.id = [1,2]) ∧
      ∀ info ∈ infos,LimitsCovered info r := by
  intro infos
  have hids : ∀ info ∈ infos,info.DistinctIds := by
    intro info hinfo
    simp only [infos,List.mem_cons,List.not_mem_nil,or_false] at hinfo
    rcases hinfo with rfl | rfl
    · exact unionSample_distinctIds ..
    · exact unionSample_distinctIds ..
  have hok : (unionP4info infos).toOption.map (fun r => r.tables.map fun t => t.matchFields.map MatchField.id) =
      some [[1,2]] := by decide
  obtain ⟨r,hr,hfields⟩ := Option.map_eq_some_iff.mp hok
  have h := toOption_eq_some.mp hr
  obtain ⟨hkinds,-,-,-,hlimits⟩ := p4infos_union hids h
  refine ⟨r,h,hkinds,fun t ht => ?_,hlimits⟩
  exact List.mem_singleton.mp (hfields ▸ List.mem_map_of_mem ht)

/-- A table with structured annotations or other properties cannot be added once more, a repeated
annotation of one P4Info is kept or dropped with the order, and an unlimited group size is lost. -/
theorem union_laws_fail :
    let structured := unionSample 1 [] ["@s[1]"] none 0
    let properties := unionSample 1 [] [] (some "any") 0
    let repeated := unionSample 1 ["@a","@a"] [] none 0
    let single := unionSample 1 ["@a"] [] none 0
    let bounded := unionSample 1 [] [] none 5
    let annotations (infos : List P4Info) :=
      (unionP4info infos).toOption.map fun r => r.tables.map fun t => t.preamble.annotations
    (∀ info ∈ [structured,properties,repeated,single,bounded],info.DistinctIds) ∧
    ((unionP4info [structured]).isOk = true ∧ (unionP4info [structured,structured]).isOk = false) ∧
    ((unionP4info [properties]).isOk = true ∧ (unionP4info [properties,properties]).isOk = false) ∧
    (annotations [repeated,single] = some [["@a","@a"]] ∧ annotations [single,repeated] = some [["@a"]]) ∧
    (unionP4info [single,bounded]).toOption.map (fun r => r.actionProfiles.map ActionProfile.maxGroupSize) = some [5] := by
  refine ⟨fun info hinfo => ?_,by decide⟩
  simp only [List.mem_cons,List.not_mem_nil,or_false] at hinfo
  rcases hinfo with rfl | rfl | rfl | rfl | rfl <;> exact unionSample_distinctIds ..

end Contents
end P4Info
end SonicPins.Pdpi
