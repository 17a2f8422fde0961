import SonicPins.P4rtApp.ActionProfileAccounting

/-! The capacity check with the integer types of the code: 32 bits for the members of a
group and their weights, 64 bits for totals. When such a number hides that a limit is passed. -/
namespace SonicPins.P4rtApp.Machine
open Lib Pdpi Sonic

variable {update : EntityUpdate} {cache : EntityCache} {capacities : ActionProfileCapacityMap}
  {resourcesInBatch : String → Int64} {info : IrP4Info}

abbrev ActionProfileResources := ActionProfileResourcesIn Int32 Int64

abbrev TableResources := TableResourcesIn Int32 Int64

abbrev ActionProfileResourceCapacity := ActionProfileResourceCapacityIn Int64

abbrev ActionProfileCapacityMap := AList (fun _ : String => ActionProfileResourceCapacity)

/-- The loop over the members of an action set. -/
def countAction (r : ActionProfileResources) (weight : Int32) : ActionProfileResources :=
  { r with
    numberOfActions := r.numberOfActions + 1,
    totalWeight := r.totalWeight + weight.toInt64,
    maxWeight := if r.maxWeight < weight then weight else r.maxWeight }

def actionProfileResources (name : String) (weights : List Int32) : ActionProfileResources :=
  weights.foldl countAction ⟨name,0,0,0⟩

/-- The total weight of a new entry is stored in 32 bits before it is compared. -/
instance : ResourceNumbers Int32 Int64 := ⟨actionProfileResources,Int32.toInt64,Int64.toInt32,Int32.toInt,Int64.toInt⟩

/-! ### The exact numbers behind -/

def ofExact (r : P4rtApp.ActionProfileResources) : ActionProfileResources :=
  ⟨r.name,.ofInt r.numberOfActions,.ofInt r.totalWeight,.ofInt r.maxWeight⟩

def ofExactTable (r : P4rtApp.TableResources) : TableResources := ⟨r.name,r.actionProfile.map ofExact⟩

theorem foldl_countAction (name : String) (weights : List Int32) (n total : Int) (greatest : Int32) :
    weights.foldl countAction ⟨name,.ofInt n,.ofInt total,greatest⟩ =
      ofExact ⟨name,n + weights.length,total + weightSum weights,(weights.map Int32.toInt).foldl max greatest.toInt⟩ := by
  induction weights generalizing n total greatest with
  | nil => simp [ofExact,weightSum]
  | cons w weights ih =>
    have hgreatest : (if greatest < w then w else greatest).toInt = max greatest.toInt w.toInt := by
      split
      · rename_i hlt
        exact (max_eq_right (Int32.lt_iff_toInt_lt.mp hlt).le).symm
      · rename_i hle
        exact (max_eq_left (not_lt.mp (mt Int32.lt_iff_toInt_lt.mpr hle))).symm
    have hstep : countAction ⟨name,.ofInt n,.ofInt total,greatest⟩ w =
        ⟨name,.ofInt (n + 1),.ofInt (total + w.toInt),if greatest < w then w else greatest⟩ := by
      simp [countAction]
    have hsum : weightSum (w :: weights) = w.toInt + weightSum weights := by simp [weightSum]
    rw [List.foldl_cons,hstep,ih,hgreatest,hsum,List.map_cons,List.foldl_cons,List.length_cons]
    congr 2
    · push_cast
      omega
    · omega

private theorem actionProfileResources_eq (name : String) (weights : List Int32) :
    actionProfileResources name weights = ofExact (P4rtApp.actionProfileResources name weights) := by
  have h := foldl_countAction name weights 0 0 0
  rw [Int.zero_add,Int.zero_add] at h
  exact h

theorem tableResources_eq (info : IrP4Info) (name : String) (table : IrTableDefinition) (weights : List Int32) :
    (tableResources info name table weights : StatusOr TableResources) =
      (tableResources info name table weights : StatusOr P4rtApp.TableResources).map ofExactTable := by
  unfold tableResources
  cases table.actionProfileId with
  | none => rfl
  | some id =>
    simp only
    cases getActionProfileName info id with
    | error status => rfl
    | ok profile =>
      have hcount : (ResourceNumbers.resources profile weights : ActionProfileResources) =
          ofExact (ResourceNumbers.resources profile weights) := actionProfileResources_eq profile weights
      simp only [Except.map,hcount,ofExactTable,Option.map_some]

theorem newResources_eq (info : IrP4Info) (type : UpdateType) (e : IrTableEntry) :
    (newResources info type e : StatusOr TableResources) =
      (newResources info type e : StatusOr P4rtApp.TableResources).map ofExactTable := by
  unfold newResources getResourceUsageForIrTableEntry
  split
  · cases info.tablesByName.lookup e.tableName with
    | none => rfl
    | some table =>
      simp only [tableResources_eq]
      cases (tableResources info e.tableName table (irActionSetWeights e) : StatusOr P4rtApp.TableResources) <;> rfl
  · rfl

private theorem oldResources_eq (info : IrP4Info) (type : UpdateType) (cached : Option Entity) :
    (oldResources info type cached : StatusOr TableResources) =
      (oldResources info type cached : StatusOr P4rtApp.TableResources).map ofExactTable := by
  unfold oldResources getResourceUsageForPiTableEntry
  split
  · cases cached with
    | none => rfl
    | some e =>
      simp only
      cases info.tablesById.lookup (entityTableEntry e).tableId with
      | none => rfl
      | some table =>
        simp only [tableResources_eq]
        cases (tableResources info table.preamble.aliasName table (piActionSetWeights (entityTableEntry e)) :
          StatusOr P4rtApp.TableResources) <;> rfl
  · rfl

private theorem resourceChange_eq (new old : P4rtApp.TableResources) :
    resourceChange (ofExactTable new) (ofExactTable old) = ofExactTable (resourceChange new old) := by
  obtain ⟨name,n⟩ := new
  obtain ⟨name',o⟩ := old
  cases o with
  | none => cases n <;> rfl
  | some o => cases n <;> simp [resourceChange,ofExactTable,ofExact]

/-! ### What the check lets through -/

section Check

/-- The limits of a profile, in whichever of the two semantics it has. -/
structure ProfileLimits where
  size : Int
  maxGroupSize : Int
  maxMemberWeight : Int

def ActionProfileResourceCapacity.withLimits (c : ActionProfileResourceCapacity) (l : ProfileLimits) : ActionProfileResourceCapacity :=
  { c with actionProfile := { c.actionProfile with
      size := l.size,maxGroupSize := l.maxGroupSize,sumOfMembers := c.actionProfile.sumOfMembers.map fun _ => l.maxMemberWeight } }

/-- What the check compares with the size of the profile. -/
abbrev projected (c : ActionProfileResourceCapacity) (inBatch : Int64) (change : ActionProfileResources) : Int :=
  (currentTotal c + inBatch + countedResources (usesSumOfMembers c) change).toInt

/-- What an insert or modify of a group is checked against. -/
structure CheckedChange where
  capacity : ActionProfileResourceCapacity
  inBatch : Int64
  weights : List Int32
  change : P4rtApp.ActionProfileResources

def checkedChange (info : IrP4Info) (update : EntityUpdate) (cache : EntityCache) (capacities : ActionProfileCapacityMap)
    (resourcesInBatch : String → Int64) : Option CheckedChange :=
  match update.entry with
  | .packetReplicationEngineEntry _ => none
  | .tableEntry e =>
    match newResources info update.updateType e,
      oldResources info update.updateType (cache.entries.lookup update.entityKey) with
    | .ok new,.ok old => do
      let _ ← new.actionProfile
      let change ← (resourceChange new old).actionProfile
      let capacity ← capacities.lookup change.name
      some ⟨capacity,resourcesInBatch change.name,irActionSetWeights e,change⟩
    | _,_ => none

namespace CheckedChange
variable (x : CheckedChange)

def withLimits (l : ProfileLimits) : CheckedChange := { x with capacity := x.capacity.withLimits l }

def profile : ActionProfile := x.capacity.actionProfile

/-- The size of the group in the semantics of its profile. -/
def groupTotal : Int := if x.profile.sumOfMembers.isSome then x.weights.length else weightSum x.weights

def total : Int :=
  match x.profile.sumOfMembers with
  | some _ => x.capacity.currentTotalMembers.toInt + x.inBatch.toInt + x.change.numberOfActions
  | none => x.capacity.currentTotalWeight.toInt + x.inBatch.toInt + x.change.totalWeight

/-- The group and the profile are within their limits; a limit of zero allows everything. -/
structure WithinLimits : Prop where
  group : x.profile.maxGroupSize ≠ 0 → x.groupTotal ≤ x.profile.maxGroupSize
  member : ∀ limit ∈ x.profile.sumOfMembers,limit ≠ 0 → ∀ w ∈ x.weights,w.toInt ≤ limit
  size : x.profile.size ≠ 0 → x.total ≤ x.profile.size

def groupTotal32 : Int := (Int32.ofInt x.groupTotal).toInt

def total64 : Int := projected x.capacity x.inBatch (ofExact x.change)

/-- Some limit is exceeded by the number that the code compares with it. -/
def Noticed : Prop :=
  exceeds x.groupTotal32 x.profile.maxGroupSize = true ∨ exceeds x.total64 x.profile.size = true ∨
    ∃ limit ∈ x.profile.sumOfMembers,exceeds x.change.maxWeight limit = true

/-- The numbers of the check fit in the types that the code has for them: a group in 32 bits, the profile in 64 bits. -/
structure Fits : Prop where
  group : x.groupTotal < 2 ^ 31
  size : x.total < 2 ^ 63

end CheckedChange

private theorem greatest_toInt (weights : List Int32) :
    (Int32.ofInt ((weights.map Int32.toInt).foldl max 0)).toInt = (weights.map Int32.toInt).foldl max 0 := by
  have h := foldl_countAction "" weights 0 0 0
  have hgreatest : ∀ (greatest : Int32),∃ w : Int32,(weights.map Int32.toInt).foldl max greatest.toInt = w.toInt := by
    clear h
    induction weights with
    | nil => exact fun greatest => ⟨greatest,rfl⟩
    | cons w weights ih =>
      intro greatest
      rw [List.map_cons,List.foldl_cons]
      rcases le_total greatest.toInt w.toInt with hle | hle
      · rw [max_eq_right hle]
        exact ih w
      · rw [max_eq_left hle]
        exact ih greatest
  obtain ⟨w,hw⟩ := hgreatest 0
  rw [show (0 : Int32).toInt = 0 from rfl] at hw
  rw [hw,Int32.ofInt_toInt]

private theorem isOk_check {check : StatusOr Unit} {r : TableResources} :
    (do check; Except.ok r : StatusOr TableResources).isOk = true ↔ check = .ok () := by
  cases check <;> simp [bind,Except.bind,Except.isOk,Except.toBool]

private theorem resourceChange_spec {new old : P4rtApp.TableResources} {n change : P4rtApp.ActionProfileResources}
    (hnew : new.actionProfile = some n) (hchange : (resourceChange new old).actionProfile = some change) :
    change.maxWeight = n.maxWeight := by
  unfold resourceChange at hchange
  split at hchange
  · rw [hnew] at hchange
    cases hchange
    rfl
  · rw [hnew] at hchange
    cases hchange
    rfl

theorem newResources_spec {type : UpdateType} {e : IrTableEntry} {new : P4rtApp.TableResources}
    {n : P4rtApp.ActionProfileResources} (h : newResources info type e = .ok new) (hn : new.actionProfile = some n) :
    n = P4rtApp.actionProfileResources n.name (irActionSetWeights e) := by
  unfold newResources at h
  split at h
  · have husage := mapError_eq_ok.mp h
    unfold P4rtApp.getResourceUsageForIrTableEntry at husage
    split at husage
    · cases husage
    · rw [tableResources_profile husage] at hn
      obtain ⟨name,-,rfl⟩ := Option.map_eq_some_iff.mp hn
      rfl
  · cases h
    cases hn

theorem checkedChange_accepted {x : CheckedChange}
    (hx : checkedChange info update cache capacities resourcesInBatch = some x) :
    x.change.maxWeight = (x.weights.map Int32.toInt).foldl max 0 ∧
      ((verifyCapacityAndGetTableResourceChange info update cache capacities resourcesInBatch).isOk = true ↔ ¬ x.Noticed) := by
  unfold checkedChange at hx
  cases hentry : update.entry with
  | packetReplicationEngineEntry e => simp [hentry] at hx
  | tableEntry e =>
    rw [hentry] at hx
    simp only at hx
    split at hx
    · rename_i new old hnew hold
      obtain ⟨n,hn,hx⟩ := Option.bind_eq_some_iff.mp hx
      obtain ⟨change,hchange,hx⟩ := Option.bind_eq_some_iff.mp hx
      obtain ⟨capacity,hcapacity,hx⟩ := Option.bind_eq_some_iff.mp hx
      cases hx
      have hcount := newResources_spec hnew hn
      have hmax : change.maxWeight = ((irActionSetWeights e).map Int32.toInt).foldl max 0 := by
        rw [resourceChange_spec hn hchange,hcount]
        rfl
      refine ⟨hmax,?_⟩
      have hrun : verifyCapacityAndGetTableResourceChange info update cache capacities resourcesInBatch =
          (do verifyCapacity capacity (resourcesInBatch change.name) (ofExact change) (ofExact n).numberOfActions
                (ofExact n).totalWeight.toInt32
              .ok (ofExactTable (resourceChange new old))) := by
        unfold verifyCapacityAndGetTableResourceChange
        rw [hentry]
        simp only [newResources_eq,oldResources_eq,hnew,hold,Except.map,bind,Except.bind,resourceChange_eq]
        have hmachine : (ofExactTable (resourceChange new old)).actionProfile = some (ofExact change) := by
          rw [ofExactTable,hchange]
          rfl
        have hlookup : capacities.lookup (ofExact change).name = some capacity := hcapacity
        have hcounted : (ofExactTable new).actionProfile.getD ⟨"",0,0,0⟩ = ofExact n := by
          rw [ofExactTable,hn]
          rfl
        simp only [hmachine,hlookup,hcounted]
        rfl
      rw [hrun,isOk_check,verifyCapacity_eq_ok]
      have hgroup : (if capacity.actionProfile.sumOfMembers.isSome then ResourceNumbers.count Int64 (ofExact n).numberOfActions
          else (ofExact n).totalWeight.toInt32.toInt) = CheckedChange.groupTotal32 ⟨capacity,resourcesInBatch change.name,
            irActionSetWeights e,change⟩ := by
        rw [hcount]
        unfold CheckedChange.groupTotal32 CheckedChange.groupTotal CheckedChange.profile
        cases capacity.actionProfile.sumOfMembers with
        | none => exact congrArg Int32.toInt Int64.toInt32_ofInt
        | some limit => rfl
      have hgreatest : ResourceNumbers.count Int64 (ofExact change).maxWeight = change.maxWeight := by
        show (Int32.ofInt change.maxWeight).toInt = change.maxWeight
        rw [hmax,greatest_toInt]
      rw [hgroup,hgreatest]
      simp only [CheckedChange.Noticed,not_or,not_exists,not_and,Bool.not_eq_true]
      exact ⟨fun ⟨hgroup,hmember,hsize⟩ => ⟨hgroup,hsize,hmember⟩,fun ⟨hgroup,hsize,hmember⟩ => ⟨hgroup,hmember,hsize⟩⟩
    · cases hx

theorem checkedChange_withLimits {capacities' : ActionProfileCapacityMap} {x : CheckedChange} {l : ProfileLimits}
    (hx : checkedChange info update cache capacities resourcesInBatch = some x)
    (hl : capacities'.lookup x.change.name = some (x.capacity.withLimits l)) :
    checkedChange info update cache capacities' resourcesInBatch = some (x.withLimits l) := by
  unfold checkedChange at hx ⊢
  split at hx
  · cases hx
  · split at hx
    · obtain ⟨n,hn,hx⟩ := Option.bind_eq_some_iff.mp hx
      obtain ⟨change,hchange,hx⟩ := Option.bind_eq_some_iff.mp hx
      obtain ⟨capacity,hcapacity,hx⟩ := Option.bind_eq_some_iff.mp hx
      cases hx
      refine Option.bind_eq_some_iff.mpr ⟨n,hn,Option.bind_eq_some_iff.mpr ⟨change,hchange,Option.bind_eq_some_iff.mpr ?_⟩⟩
      exact ⟨capacity.withLimits l,hl,rfl⟩
    · cases hx

private theorem oldResources_members {type : UpdateType} {cached : Option Entity} {old : P4rtApp.TableResources}
    (hcached : ∀ e ∈ cached,(entityWeights e).length < 2 ^ 31) (hold : oldResources info type cached = .ok old) :
    ∀ o ∈ old.actionProfile,0 ≤ o.numberOfActions ∧ o.numberOfActions < 2 ^ 31 := by
  intro o ho
  unfold oldResources at hold
  split at hold
  · split at hold
    · cases hold
    · rename_i e
      have husage := mapError_eq_ok.mp hold
      rw [getResourceUsageForPiTableEntry_profile husage] at ho
      obtain ⟨name,-,rfl⟩ := Option.map_eq_some_iff.mp ho
      have hlength : (piActionSetWeights (entityTableEntry e)).length < 2 ^ 31 := by
        cases e with
        | tableEntry e => exact hcached _ rfl
        | _ => exact Nat.two_pow_pos 31
      simp only [P4rtApp.actionProfileResources]
      omega
  · cases hold
    cases ho

/-- The change of the number of members is what the new group has, less at most `2 ^ 31 - 1`. -/
theorem checkedChange_members {x : CheckedChange}
    (hcached : ∀ e ∈ cache.entries.lookup update.entityKey,(entityWeights e).length < 2 ^ 31)
    (hx : checkedChange info update cache capacities resourcesInBatch = some x) :
    -2 ^ 31 < x.change.numberOfActions ∧ x.change.numberOfActions ≤ x.weights.length := by
  unfold checkedChange at hx
  split at hx
  · cases hx
  · split at hx
    · rename_i e _ _ _ new old hnew hold
      obtain ⟨n,hn,hx⟩ := Option.bind_eq_some_iff.mp hx
      obtain ⟨change,hchange,hx⟩ := Option.bind_eq_some_iff.mp hx
      obtain ⟨capacity,hcapacity,hx⟩ := Option.bind_eq_some_iff.mp hx
      cases hx
      have hcount : n.numberOfActions = (irActionSetWeights e).length := by
        rw [newResources_spec hnew hn]
        rfl
      have hreplaced := oldResources_members hcached hold
      unfold resourceChange at hchange
      simp only [hn,Option.getD_some] at hchange
      split at hchange
      · cases hchange
        simp only
        omega
      · rename_i o ho
        cases hchange
        have := hreplaced o ho
        simp only
        omega
    · cases hx

theorem CheckedChange.groupTotal_withLimits (x : CheckedChange) (l : ProfileLimits) : (x.withLimits l).groupTotal = x.groupTotal := by
  show (if (x.capacity.actionProfile.sumOfMembers.map fun _ => l.maxMemberWeight).isSome then (x.weights.length : Int)
    else weightSum x.weights) = _
  rw [Option.isSome_map]
  rfl

theorem CheckedChange.total_withLimits (x : CheckedChange) (l : ProfileLimits) : (x.withLimits l).total = x.total := by
  simp only [total,withLimits,profile,ActionProfileResourceCapacity.withLimits]
  cases x.capacity.actionProfile.sumOfMembers <;> rfl

theorem CheckedChange.le_groupTotal32 {x : CheckedChange} (h : x.groupTotal < 2 ^ 31) : x.groupTotal ≤ x.groupTotal32 := by
  unfold groupTotal32
  rcases le_or_gt (-2 ^ 31) x.groupTotal with hle | hlt
  · rw [Int32.toInt_ofInt_of_le hle h]
  · exact hlt.le.trans (Int32.le_toInt _)

theorem CheckedChange.le_total64 {x : CheckedChange} (h : x.Fits) (hlow : -2 ^ 31 < x.change.numberOfActions)
    (hhigh : x.change.numberOfActions ≤ x.weights.length) : x.total ≤ x.total64 := by
  have hread : x.total64 = (Int64.ofInt x.total).toInt := by
    have hgroup := h.group
    unfold total64 projected currentTotal countedResources usesSumOfMembers total
    unfold groupTotal profile at hgroup
    cases hmembers : x.capacity.actionProfile.sumOfMembers with
    | none => simp [profile,hmembers,ofExact]
    | some limit =>
      rw [hmembers,Option.isSome_some,if_pos rfl] at hgroup
      have hcount : ResourceNumbers.widen (Int32.ofInt x.change.numberOfActions) = Int64.ofInt x.change.numberOfActions :=
        Int32.toInt64_ofInt hlow.le (Int.lt_add_one_iff.mp (hhigh.trans_lt hgroup))
      simp [profile,hmembers,ofExact,hcount]
  rw [hread]
  rcases le_or_gt (-2 ^ 63) x.total with hle | hlt
  · rw [Int64.toInt_ofInt_of_le hle h.size]
  · exact hlt.le.trans (Int64.le_toInt _)

theorem CheckedChange.withinLimits_of_fits {x : CheckedChange} (h : x.Fits) (hlow : -2 ^ 31 < x.change.numberOfActions)
    (hhigh : x.change.numberOfActions ≤ x.weights.length) (hgreatest : x.change.maxWeight = (x.weights.map Int32.toInt).foldl max 0)
    (hnoticed : ¬ x.Noticed) : x.WithinLimits := by
  simp only [Noticed,not_or,not_exists,not_and,Bool.not_eq_true] at hnoticed
  obtain ⟨hgroup,hsize,hmember⟩ := hnoticed
  refine ⟨fun hne => ?_,fun limit hlimit hne w hw => ?_,fun hne => ?_⟩
  · exact (le_groupTotal32 h.group).trans (exceeds_eq_false.mp hgroup hne)
  · have hmax := exceeds_eq_false.mp (hmember limit hlimit) hne
    rw [hgreatest] at hmax
    exact ((le_foldl_max _ 0).2 _ (List.mem_map_of_mem hw)).trans hmax
  · exact (le_total64 h hlow hhigh).trans (exceeds_eq_false.mp hsize hne)

/-- A group too large for its type passes under the greatest limit of the type, a profile too large likewise. -/
theorem CheckedChange.fits_of_withinLimits {x : CheckedChange}
    (h : ∀ l,¬ (x.withLimits l).Noticed → (x.withLimits l).WithinLimits) : x.Fits := by
  have hmember : ∀ (l : ProfileLimits),l.maxMemberWeight = 0 →
      ∀ limit ∈ (x.withLimits l).profile.sumOfMembers,exceeds x.change.maxWeight limit = false := by
    intro l hl limit hlimit
    obtain ⟨_,-,rfl⟩ := Option.map_eq_some_iff.mp hlimit
    rw [hl]
    rfl
  constructor
  · by_contra hlarge
    let l : ProfileLimits := ⟨0,2 ^ 31 - 1,0⟩
    have hread : exceeds (x.withLimits l).groupTotal32 (2 ^ 31 - 1) = false := exceeds_eq_false.mpr fun _ =>
      Int.le_sub_one_of_lt (Int32.toInt_lt _)
    have hwithin := (h l (by
      rintro (hexceeds | hexceeds | ⟨limit,hlimit,hexceeds⟩)
      · exact Bool.noConfusion (hread.symm.trans hexceeds)
      · cases hexceeds
      · exact Bool.noConfusion ((hmember l rfl limit hlimit).symm.trans hexceeds))).group (show (2 ^ 31 - 1 : Int) ≠ 0 by decide)
    rw [groupTotal_withLimits] at hwithin
    exact hlarge (Int.lt_of_le_sub_one hwithin)
  · by_contra hlarge
    let l : ProfileLimits := ⟨2 ^ 63 - 1,0,0⟩
    have hread : exceeds (x.withLimits l).total64 (2 ^ 63 - 1) = false := exceeds_eq_false.mpr fun _ =>
      Int.le_sub_one_of_lt (Int64.toInt_lt _)
    have hwithin := (h l (by
      rintro (hexceeds | hexceeds | ⟨limit,hlimit,hexceeds⟩)
      · cases hexceeds
      · exact Bool.noConfusion (hread.symm.trans hexceeds)
      · exact Bool.noConfusion ((hmember l rfl limit hlimit).symm.trans hexceeds))).size (show (2 ^ 63 - 1 : Int) ≠ 0 by decide)
    rw [total_withLimits] at hwithin
    exact hlarge (Int.lt_of_le_sub_one hwithin)

/-- Under all limits that a profile may have, an insert or modify that is accepted keeps them, exactly when the size of the group
fits in 32 bits and that of the profile in 64 bits. A repeated field has fewer than `2 ^ 31` elements. -/
theorem accepted_within_limits_iff (info : IrP4Info) (update : EntityUpdate) (cache : EntityCache)
    (capacities : ActionProfileCapacityMap) (resourcesInBatch : String → Int64)
    (hcached : ∀ e ∈ cache.entries.lookup update.entityKey,(entityWeights e).length < 2 ^ 31) :
    (∀ x ∈ checkedChange info update cache capacities resourcesInBatch,∀ l capacities',
      capacities'.lookup x.change.name = some (x.capacity.withLimits l) →
      (verifyCapacityAndGetTableResourceChange info update cache capacities' resourcesInBatch).isOk = true →
        (x.withLimits l).WithinLimits) ↔
    ∀ x ∈ checkedChange info update cache capacities resourcesInBatch,x.Fits := by
  refine forall₂_congr fun x hx => ⟨fun h => CheckedChange.fits_of_withinLimits fun l hnoticed => ?_,
    fun h l capacities' hl haccepted => ?_⟩
  · have hlookup := AList.lookup_insert (a := x.change.name) (b := x.capacity.withLimits l) capacities
    exact h l _ hlookup ((checkedChange_accepted (checkedChange_withLimits hx hlookup)).2.mpr hnoticed)
  · obtain ⟨hgreatest,hiff⟩ := checkedChange_accepted (checkedChange_withLimits hx hl)
    obtain ⟨hlow,hhigh⟩ := checkedChange_members hcached hx
    have hfits : (x.withLimits l).Fits := ⟨x.groupTotal_withLimits l ▸ h.group,x.total_withLimits l ▸ h.size⟩
    exact CheckedChange.withinLimits_of_fits hfits hlow hhigh hgreatest (hiff.mp haccepted)

end Check

attribute [local instance] uncompressedInet

abbrev translated (u : Update) : Fallible EntityUpdate :=
  piUpdateToEntityUpdate samplePipeline.toIrP4Info noConstraints noTranslation "" u

/-- A modify of the group that an earlier write left in the cache. -/
def changedGroup : Update := ⟨.modify,.tableEntry (wcmpGroup "g1" [100,156])⟩

def cacheOfGroup : EntityCache := (write acceptAll sampleServer groupRequest).1.entityCache

def capacityOfGroup : ActionProfileCapacityMap :=
  AList.singleton "wcmp_group_selector" { actionProfile := wcmpSelector,currentTotalWeight := 3,currentTotalMembers := 2 }

theorem changedGroup_within_limits : ∃ e x,translated changedGroup = .ok e ∧
    checkedChange samplePipeline.toIrP4Info e cacheOfGroup capacityOfGroup (fun _ => 0) = some x ∧ x.total = 256 ∧
    ∀ l capacities',capacities'.lookup x.change.name = some (x.capacity.withLimits l) →
      (verifyCapacityAndGetTableResourceChange samplePipeline.toIrP4Info e cacheOfGroup capacities' fun _ => 0).isOk = true →
        (x.withLimits l).WithinLimits := by
  have h : (match translated changedGroup with
      | .ok e => (match checkedChange samplePipeline.toIrP4Info e cacheOfGroup capacityOfGroup fun _ => 0 with
        | some x => (cacheOfGroup.entries.lookup e.entityKey).all (fun e => (entityWeights e).length = 2) &&
            x.total = 256 && x.groupTotal = 256
        | none => false)
      | .error _ => false) = true := by decide +kernel
  split at h
  · rename_i e he
    split at h
    · rename_i x hx
      simp only [Bool.and_eq_true,Option.all_eq_true,decide_eq_true_eq] at h
      obtain ⟨⟨hcached,htotal⟩,hgroup⟩ := h
      have hfits : x.Fits := ⟨hgroup ▸ by decide,htotal ▸ by decide⟩
      refine ⟨e,x,he,hx,htotal,?_⟩
      refine (accepted_within_limits_iff _ e _ _ _ fun e he => ?_).mpr (fun y hy => ?_) x hx
      · exact lt_of_eq_of_lt (hcached e he) (by decide)
      · cases hx.symm.trans hy
        exact hfits
    · cases h
  · cases h

/-- A group of three members whose weights add up to 2^32 + 1. -/
def heavyGroup : Update := ⟨.insert,.tableEntry (wcmpGroup "g1" [2147483647,2147483647,3])⟩

/-- A profile whose groups may have a weight of 256. -/
def boundedCapacity : ActionProfileCapacityMap :=
  AList.singleton "wcmp_group_selector" { actionProfile := { wcmpSelector with size := 0,maxGroupSize := 256 } }

theorem heavyGroup_accepted : ∃ e x,translated heavyGroup = .ok e ∧
    checkedChange samplePipeline.toIrP4Info e sampleServer.entityCache boundedCapacity (fun _ => 0) = some x ∧
    (verifyCapacityAndGetTableResourceChange samplePipeline.toIrP4Info e sampleServer.entityCache boundedCapacity
      fun _ => 0).isOk = true ∧
    x.groupTotal = 4294967297 ∧ x.profile.maxGroupSize = 256 := by
  have h : (match translated heavyGroup with
      | .ok e => (match checkedChange samplePipeline.toIrP4Info e sampleServer.entityCache boundedCapacity fun _ => 0 with
        | some x => (verifyCapacityAndGetTableResourceChange samplePipeline.toIrP4Info e sampleServer.entityCache boundedCapacity
            fun _ => 0).isOk && x.groupTotal = 4294967297 && x.profile.maxGroupSize = 256
        | none => false)
      | .error _ => false) = true := by decide
  split at h
  · rename_i e he
    split at h
    · rename_i x hx
      simp only [Bool.and_eq_true,decide_eq_true_eq] at h
      exact ⟨e,x,he,hx,h.1.1,h.1.2,h.2⟩
    · cases h
  · cases h

end SonicPins.P4rtApp.Machine
