import SonicPins.Lib.MapTotals
import SonicPins.P4rtApp.P4InfoReconcile
import SonicPins.P4rtApp.WriteStatuses

/-! When the capacities of a new P4Info admit the groups that are installed. -/
namespace SonicPins.P4rtApp
open Lib Pdpi Sonic

variable {name : String} {old : ActionProfileResourceCapacity} {map : ActionProfileCapacityMap}
  {profile : ActionProfile}

def groupSize (profile : ActionProfile) (weights : List Int32) : Int :=
  if profile.sumOfMembers.isSome then weights.length else weightSum weights

/-- The groups of every profile, which its capacity accounts for and its maximum group size allows. -/
structure InstalledGroups (original : ActionProfileCapacityMap) where
  groups : String → List (List Int32)
  weight : ∀ name c,original.lookup name = some c → c.currentTotalWeight = ((groups name).map weightSum).sum
  members : ∀ name c,original.lookup name = some c →
    c.currentTotalMembers = ((groups name).map fun g => (g.length : Int)).sum
  within : ∀ name c,original.lookup name = some c → ∀ g ∈ groups name,c.actionProfile.maxGroupSize ≠ 0 →
    groupSize c.actionProfile g ≤ c.actionProfile.maxGroupSize

/-- What is used of a profile fits its size; a size of zero fits everything. -/
def UsageFits (c : ActionProfileResourceCapacity) : Prop := c.actionProfile.size ≠ 0 → currentTotal c ≤ c.actionProfile.size

def GroupsFit (profile : ActionProfile) (groups : List (List Int32)) : Prop :=
  profile.maxGroupSize ≠ 0 → ∀ g ∈ groups,groupSize profile g ≤ profile.maxGroupSize

/-- The maximum group size becomes tighter; zero is the loosest. -/
def Tighter (old new : ActionProfile) : Prop :=
  new.maxGroupSize ≠ 0 ∧ (old.maxGroupSize = 0 ∨ new.maxGroupSize < old.maxGroupSize)

/-- The recorded capacity is followed: it stands behind a check of the weight. -/
def ReadsOriginal (c : ActionProfileResourceCapacity) : Prop :=
  ¬ (∃ limit ∈ getMaxWeightForAllGroups c,limit ≠ 0 ∧ limit < c.currentTotalWeight) ∧ 0 < c.currentTotalWeight

/-- What the capacities of a new P4Info ought to do. -/
structure AdmitsInstalled (info : AcceptedP4Info) (original : ActionProfileCapacityMap) (installed : InstalledGroups original) :
    Prop where
  admits : ∀ map,getUpdatedResourceCapacities info.toIrP4Info original = .ok map →
    ∀ name profile old,(name,profile) ∈ info.actionProfilesByName → original.lookup name = some old →
      ∃ c,map.lookup name = some c ∧ c.actionProfile = profile ∧ c.currentTotalWeight = old.currentTotalWeight ∧
        c.currentTotalMembers = old.currentTotalMembers ∧ UsageFits c ∧ GroupsFit profile (installed.groups name)
  succeeds : (∀ name profile,(name,profile) ∈ info.actionProfilesByName → UsageFits (updatedCapacity original name profile) ∧
      ∀ old,original.lookup name = some old → ¬ Tighter old.actionProfile profile) →
    ∃ map,getUpdatedResourceCapacities info.toIrP4Info original = .ok map
  readsRecorded : ∀ name profile,(name,profile) ∈ info.actionProfilesByName →
    ReadsOriginal (updatedCapacity original name profile) → (original.lookup name).isSome = true

section Functions
variable {original : ActionProfileCapacityMap}

/-- A profile of the new P4Info that the code refuses. -/
def Refused (original : ActionProfileCapacityMap) (name : String) (profile : ActionProfile) : Prop :=
  (profile.sumOfMembers = none ∧ profile.size ≠ 0 ∧
      profile.size < (updatedCapacity original name profile).currentTotalWeight) ∨
    ∃ old ∈ original.lookup name,0 < old.currentTotalWeight ∧ profile.maxGroupSize < old.actionProfile.maxGroupSize

@[simp] theorem updatedCapacity_actionProfile (original : ActionProfileCapacityMap) (name : String) (profile : ActionProfile) :
    (updatedCapacity original name profile).actionProfile = profile := by
  unfold updatedCapacity
  split <;> rfl

theorem updatedCapacity_recorded (h : original.lookup name = some old)
    (profile : ActionProfile) : (updatedCapacity original name profile).currentTotalWeight = old.currentTotalWeight ∧
      (updatedCapacity original name profile).currentTotalMembers = old.currentTotalMembers := by
  unfold updatedCapacity
  rw [h]
  exact ⟨rfl,rfl⟩

theorem updatedCapacity_new (h : original.lookup name = none) (profile : ActionProfile) :
    (updatedCapacity original name profile).currentTotalWeight = 0 := by
  unfold updatedCapacity
  rw [h]
  rfl

theorem checkUpdatedCapacity_eq_ok (name : String) (profile : ActionProfile) :
    checkUpdatedCapacity original name (updatedCapacity original name profile) = .ok () ↔ ¬ Refused original name profile := by
  unfold checkUpdatedCapacity Refused getMaxWeightForAllGroups usesSumOfMembers
  simp only [updatedCapacity_actionProfile]
  cases hlookup : original.lookup name with
  | none =>
    rw [updatedCapacity_new hlookup]
    cases profile.sumOfMembers <;> simp
  | some old =>
    rw [(updatedCapacity_recorded hlookup profile).1]
    cases profile.sumOfMembers with
    | none =>
      simp only [Option.isSome_none,Bool.false_eq_true,if_false,Option.any_some,Bool.and_eq_true,decide_eq_true_eq]
      split_ifs with hsize hgroup
      · simp [hsize.1,hsize.2]
      · simp [hgroup.1,hgroup.2]
      · exact ⟨fun _ => not_or.mpr ⟨fun h => hsize h.2,fun ⟨_,ho,h⟩ => hgroup (Option.some.inj ho ▸ h)⟩,fun _ => rfl⟩
    | some limit => simp

theorem addUpdatedCapacity_eq_ok {map' : ActionProfileCapacityMap} {p : String × ActionProfile} :
    addUpdatedCapacity original map p = .ok map' ↔
      ¬ Refused original p.1 p.2 ∧ map' = map.insert p.1 (updatedCapacity original p.1 p.2) := by
  rw [← checkUpdatedCapacity_eq_ok]
  constructor
  · intro h
    obtain ⟨⟨⟩,hcheck,h⟩ := bind_eq_ok.mp h
    cases h
    exact ⟨hcheck,rfl⟩
  · rintro ⟨hcheck,rfl⟩
    exact bind_eq_ok.mpr ⟨(),hcheck,rfl⟩

theorem foldlM_addUpdatedCapacity {profiles : List (String × ActionProfile)} {map' : ActionProfileCapacityMap} :
    profiles.foldlM (addUpdatedCapacity original) map = .ok map' ↔ (∀ p ∈ profiles,¬ Refused original p.1 p.2) ∧
      map' = profiles.foldl (fun m p => m.insert p.1 (updatedCapacity original p.1 p.2)) map := by
  induction profiles generalizing map with
  | nil => simp [pure,Except.pure,eq_comm]
  | cons p profiles ih =>
    rw [List.foldlM_cons,bind_eq_ok,List.forall_mem_cons,List.foldl_cons]
    constructor
    · rintro ⟨next,hnext,hrest⟩
      obtain ⟨hp,rfl⟩ := addUpdatedCapacity_eq_ok.mp hnext
      obtain ⟨hprofiles,rfl⟩ := ih.mp hrest
      exact ⟨⟨hp,hprofiles⟩,rfl⟩
    · rintro ⟨⟨hp,hprofiles⟩,rfl⟩
      exact ⟨_,addUpdatedCapacity_eq_ok.mpr ⟨hp,rfl⟩,ih.mpr ⟨hprofiles,rfl⟩⟩

theorem lookup_foldl_insert {profiles : List (String × ActionProfile)} (hnames : (profiles.map Prod.fst).Nodup)
    (h : (name,profile) ∈ profiles)
    (value : String → ActionProfile → ActionProfileResourceCapacity) (map : ActionProfileCapacityMap) :
    (profiles.foldl (fun m p => m.insert p.1 (value p.1 p.2)) map).lookup name = some (value name profile) := by
  induction profiles using List.reverseRecOn with
  | nil => simp at h
  | append_singleton profiles p ih =>
    rw [List.map_append] at hnames
    rw [List.foldl_append,List.foldl_cons,List.foldl_nil]
    rcases List.mem_append.mp h with h | h
    · have hne : name ≠ p.1 := by
        rintro rfl
        exact List.disjoint_of_nodup_append hnames (List.mem_map_of_mem h) (by simp)
      rw [AList.lookup_insert_ne hne,ih hnames.of_append_left h]
    · rw [← List.mem_singleton.mp h,AList.lookup_insert]

private theorem getUpdatedResourceCapacities_eq_ok {info : AcceptedP4Info}
    (h : getUpdatedResourceCapacities info.toIrP4Info original = .ok map)
    (hprofile : (name,profile) ∈ info.actionProfilesByName) : map.lookup name = some (updatedCapacity original name profile) := by
  obtain ⟨-,rfl⟩ := foldlM_addUpdatedCapacity.mp h
  exact lookup_foldl_insert info.wellFormed.profiles.nameNodup hprofile (updatedCapacity original) _

private theorem readsOriginal_recorded (h : ReadsOriginal (updatedCapacity original name profile)) :
    (original.lookup name).isSome = true := by
  cases hlookup : original.lookup name with
  | none =>
    have hpositive := h.2
    rw [updatedCapacity_new hlookup] at hpositive
    exact absurd hpositive (lt_irrefl 0)
  | some old => rfl

end Functions

section Exactness
variable {original : ActionProfileCapacityMap}

/-- A profile that is kept fits by more than its recorded weight: its members where they count, and its groups unless the
maximum group size is that of the same semantics and no smaller. -/
def KeptFits (installed : InstalledGroups original) (name : String) (old : ActionProfileResourceCapacity) (new : ActionProfile) :
    Prop :=
  (new.sumOfMembers.isSome = true → new.size ≠ 0 → old.currentTotalMembers ≤ new.size) ∧
    (new.maxGroupSize = 0 ∨ (new.sumOfMembers.isSome = old.actionProfile.sumOfMembers.isSome ∧ old.actionProfile.maxGroupSize ≠ 0 ∧
      old.actionProfile.maxGroupSize ≤ new.maxGroupSize) ∨ ∀ g ∈ installed.groups name,groupSize new g ≤ new.maxGroupSize)

/-- A profile in use whose bounded group size becomes unbounded. -/
def Unbounds (old : ActionProfileResourceCapacity) (new : ActionProfile) : Prop :=
  0 < old.currentTotalWeight ∧ new.maxGroupSize = 0 ∧ 0 < old.actionProfile.maxGroupSize

private theorem groupsFit_of_keptFits {installed : InstalledGroups original}
    {new : ActionProfile} (hold : original.lookup name = some old) (h : KeptFits installed name old new) :
    GroupsFit new (installed.groups name) := by
  intro hbounded g hg
  rcases h.2 with hzero | ⟨hsemantics,hnonzero,hle⟩ | hfit
  · exact absurd hzero hbounded
  · have hwithin := installed.within name old hold g hg hnonzero
    unfold groupSize at hwithin ⊢
    rw [hsemantics]
    omega
  · exact hfit g hg

theorem admits_iff {info : AcceptedP4Info} {installed : InstalledGroups original}
    (hmap : getUpdatedResourceCapacities info.toIrP4Info original = .ok map)
    (hprofile : (name,profile) ∈ info.actionProfilesByName)
    (hold : original.lookup name = some old) :
    (∃ c,map.lookup name = some c ∧ c.actionProfile = profile ∧ c.currentTotalWeight = old.currentTotalWeight ∧
      c.currentTotalMembers = old.currentTotalMembers ∧ UsageFits c ∧ GroupsFit profile (installed.groups name)) ↔
    KeptFits installed name old profile := by
  obtain ⟨hnone,-⟩ := foldlM_addUpdatedCapacity.mp hmap
  have hnot := hnone (name,profile) hprofile
  have hlookup := getUpdatedResourceCapacities_eq_ok hmap hprofile
  obtain ⟨hweight,hmembers⟩ := updatedCapacity_recorded hold profile
  constructor
  · rintro ⟨c,hc,rfl,-,hsame,husage,hgroups⟩
    refine ⟨fun hcounted hsize => ?_,?_⟩
    · have hle := husage hsize
      rw [currentTotal,usesSumOfMembers,if_pos hcounted,hsame] at hle
      exact hle
    · by_cases hzero : c.actionProfile.maxGroupSize = 0
      · exact .inl hzero
      · exact .inr (.inr (hgroups hzero))
  · intro hfits
    refine ⟨_,hlookup,updatedCapacity_actionProfile _ _ _,hweight,hmembers,fun hsize => ?_,groupsFit_of_keptFits hold hfits⟩
    rw [currentTotal,usesSumOfMembers,updatedCapacity_actionProfile,hweight,hmembers]
    rw [updatedCapacity_actionProfile] at hsize
    split
    · rename_i hcounted
      exact hfits.1 hcounted hsize
    · rename_i hcounted
      refine not_lt.mp fun hlt => hnot (.inl ⟨by simpa using hcounted,hsize,?_⟩)
      rw [hweight]
      exact hlt

theorem refused_iff_of_fits (hfits : UsageFits (updatedCapacity original name profile))
    (htighter : ∀ old,original.lookup name = some old → ¬ Tighter old.actionProfile profile) :
    Refused original name profile ↔ ∃ old,original.lookup name = some old ∧ Unbounds old profile := by
  constructor
  · rintro (⟨hcounted,hsize,hlt⟩ | ⟨old,hold,hweight,hlt⟩)
    · have hle := hfits (by simpa using hsize)
      rw [currentTotal,usesSumOfMembers,updatedCapacity_actionProfile,hcounted] at hle
      exact absurd hlt (not_lt.mpr hle)
    · have hzero : profile.maxGroupSize = 0 := by
        by_contra hbounded
        exact htighter old hold ⟨hbounded,.inr hlt⟩
      exact ⟨old,hold,hweight,hzero,hzero ▸ hlt⟩
  · rintro ⟨old,hold,hweight,hzero,hlt⟩
    exact .inr ⟨old,hold,hweight,hzero ▸ hlt⟩

/-- The capacities of a new P4Info admit what is installed, and are not refused where they do, if and only if nothing is kept
that does not fit or something is refused, and no group size becomes unbounded or something does not fit. -/
theorem admitsInstalled_iff (info : AcceptedP4Info) (original : ActionProfileCapacityMap) (installed : InstalledGroups original) :
    AdmitsInstalled info original installed ↔
      ((∃ p ∈ info.actionProfilesByName,Refused original p.1 p.2) ∨
        ∀ p ∈ info.actionProfilesByName,∀ old,original.lookup p.1 = some old → KeptFits installed p.1 old p.2) ∧
      ((∃ p ∈ info.actionProfilesByName,¬ UsageFits (updatedCapacity original p.1 p.2) ∨
          ∃ old,original.lookup p.1 = some old ∧ Tighter old.actionProfile p.2) ∨
        ∀ p ∈ info.actionProfilesByName,∀ old,original.lookup p.1 = some old → ¬ Unbounds old p.2) := by
  have hsuccess : (∃ map,getUpdatedResourceCapacities info.toIrP4Info original = .ok map) ↔
      ∀ p ∈ info.actionProfilesByName,¬ Refused original p.1 p.2 :=
    ⟨fun ⟨_,hmap⟩ => (foldlM_addUpdatedCapacity.mp hmap).1,fun h => ⟨_,foldlM_addUpdatedCapacity.mpr ⟨h,rfl⟩⟩⟩
  constructor
  · rintro ⟨hadmits,hsucceeds,-⟩
    constructor
    · by_contra hnot
      push Not at hnot
      obtain ⟨hnone,p,hp,old,hold,hmisfit⟩ := hnot
      obtain ⟨map,hmap⟩ := hsuccess.mpr hnone
      exact hmisfit ((admits_iff hmap hp hold).mp (hadmits map hmap p.1 p.2 old hp hold))
    · by_contra hnot
      push Not at hnot
      obtain ⟨hgood,p,hp,old,hold,hunbounds⟩ := hnot
      have hall : ∀ name profile,(name,profile) ∈ info.actionProfilesByName →
          UsageFits (updatedCapacity original name profile) ∧
            ∀ old,original.lookup name = some old → ¬ Tighter old.actionProfile profile :=
        fun name profile hprofile => hgood (name,profile) hprofile
      obtain ⟨hfits,htighter⟩ := hall p.1 p.2 hp
      exact hsuccess.mp (hsucceeds hall) p hp ((refused_iff_of_fits hfits htighter).mpr ⟨old,hold,hunbounds⟩)
  · rintro ⟨hkept,hunbounded⟩
    refine ⟨fun map hmap name profile old hprofile hold => ?_,fun hall => ?_,fun _ _ _ => readsOriginal_recorded⟩
    · rcases hkept with ⟨p,hp,hrefused⟩ | hfits
      · exact absurd hrefused (hsuccess.mp ⟨map,hmap⟩ p hp)
      · exact (admits_iff hmap hprofile hold).mpr (hfits (name,profile) hprofile old hold)
    · refine hsuccess.mpr fun p hp hrefused => ?_
      obtain ⟨hfits,htighter⟩ := hall p.1 p.2 hp
      obtain ⟨old,hold,hunbounds⟩ := (refused_iff_of_fits hfits htighter).mp hrefused
      rcases hunbounded with ⟨q,hq,hmisfit⟩ | hnone
      · obtain ⟨hqfits,hqtighter⟩ := hall q.1 q.2 hq
        rcases hmisfit with hmisfit | ⟨old,hold,htight⟩
        · exact hmisfit hqfits
        · exact hqtighter old hold htight
      · exact hnone p hp old hold hunbounds

end Exactness

/-- A selector of size 10 whose groups have at most this size. -/
def boundedSelector (maxGroupSize : Int) : ActionProfile := { wcmpSelector with maxGroupSize := maxGroupSize }

def selectorPipeline (maxGroupSize : Int) : AcceptedP4Info where
  actionProfilesById := [(0x11000001,boundedSelector maxGroupSize)]
  actionProfilesByName := [("wcmp_group_selector",boundedSelector maxGroupSize)]
  wellFormed := by
    refine ⟨⟨by simp,by simp,by simp,by simp⟩,by simp,⟨by simp,by simp,by simp,by simp⟩,by simp,?_⟩
    exact ⟨by simp,by simp,by simp [boundedSelector,wcmpSelector],by simp [boundedSelector,wcmpSelector]⟩

def oneGroupCapacity (maxGroupSize : Int) (weights : List Int32) : ActionProfileCapacityMap :=
  AList.singleton "wcmp_group_selector"
    { actionProfile := boundedSelector maxGroupSize,currentTotalWeight := weightSum weights,currentTotalMembers := weights.length }

def oneGroup (maxGroupSize : Int) (weights : List Int32) (h : maxGroupSize ≠ 0 → weightSum weights ≤ maxGroupSize) :
    InstalledGroups (oneGroupCapacity maxGroupSize weights) where
  groups _ := [weights]
  weight name c hc := by
    obtain ⟨rfl,rfl⟩ := lookup_singleton_cases hc
    simp
  members name c hc := by
    obtain ⟨rfl,rfl⟩ := lookup_singleton_cases hc
    simp
  within name c hc g hg hbounded := by
    obtain ⟨rfl,rfl⟩ := lookup_singleton_cases hc
    obtain rfl := List.mem_singleton.mp hg
    exact h hbounded

/-- A group of weight 10 is kept under a maximum of 5 if there was none before, and a maximum of 5 cannot be lifted while a
group of weight 5 is installed. -/
theorem bounded_and_unbounded_not_admitted :
    ¬ AdmitsInstalled (selectorPipeline 5) (oneGroupCapacity 0 [10]) (oneGroup 0 [10] (by simp)) ∧
    ¬ AdmitsInstalled (selectorPipeline 0) (oneGroupCapacity 5 [5]) (oneGroup 5 [5] (by decide)) := by
  constructor
  · intro h
    have hnone : ∀ p ∈ (selectorPipeline 5).actionProfilesByName,¬ Refused (oneGroupCapacity 0 [10]) p.1 p.2 := by
      intro p hp
      rw [← checkUpdatedCapacity_eq_ok]
      obtain rfl := List.mem_singleton.mp hp
      decide
    obtain ⟨c,-,-,-,-,-,hgroups⟩ := h.admits _ (foldlM_addUpdatedCapacity.mpr ⟨hnone,rfl⟩) "wcmp_group_selector"
      (boundedSelector 5) _ (List.mem_singleton.mpr rfl) rfl
    have hle := hgroups (by decide) [10] (List.mem_singleton.mpr rfl)
    revert hle
    decide
  · intro h
    have hlookup : (oneGroupCapacity 5 [5]).lookup "wcmp_group_selector" = some
        { actionProfile := boundedSelector 5,currentTotalWeight := weightSum [5],currentTotalMembers := 1 } := rfl
    obtain ⟨map,hmap⟩ := h.succeeds fun name profile hprofile => by
      obtain ⟨rfl,rfl⟩ := Prod.mk.inj (List.mem_singleton.mp hprofile)
      exact ⟨fun _ => by decide,fun old _ htighter => htighter.1 rfl⟩
    refine (foldlM_addUpdatedCapacity.mp hmap).1 _ (List.mem_singleton.mpr rfl) (.inr ⟨_,hlookup,?_,?_⟩)
    · decide
    · decide

end SonicPins.P4rtApp
