import Mathlib.Algebra.BigOperators.Group.List.Basic
import SonicPins.P4Fuzzer.SwitchStateBookkeeping
import SonicPins.P4rtApp.CapacityLimits

/-! When the fuzzer's oracle lets a switch answer RESOURCE_EXHAUSTED, and how that
compares with the server's own accounting. -/
namespace SonicPins.P4Fuzzer
open Lib Pdpi P4rtApp

variable {e : EntityUpdate} {t : IrTableEntry}

/-- A sum that is kept in an `int`. -/
def asInt (n : Int) : Int := (Int32.ofInt n).toInt

def getAllActionProfileResourceForTable (table : AList fun _ : TableEntryKey => TableEntry) : GroupResources :=
  ⟨mapTotal (fun e => (getAllActionProfileResourceForTableEntry e).actions) table,
    mapTotal (fun e => (getAllActionProfileResourceForTableEntry e).totalWeight) table⟩

/-- The weights that no group of a profile may have. -/
def memberError (profile : ActionProfile) (weight : Int32) : Option Status :=
  let maxMemberWeight := profile.sumOfMembers.getD 0
  if weight ≤ 0 then
    some (invalidArgument ("The new entry attempts to program a member with weight " ++ decimal weight.toInt ++
      ", which is never allowed."))
  else if exceeds weight.toInt maxMemberWeight then
    some (invalidArgument ("The action profile max_member_weight is " ++ decimal maxMemberWeight ++
      " and the new entry programs a member of weight " ++ decimal weight.toInt ++ "."))
  else none

/-- The size semantics of a profile, applied to resources. -/
def GroupResources.counted (profile : ActionProfile) (g : GroupResources) : Int :=
  if profile.sumOfMembers.isSome then g.actions else g.totalWeight

/-- The same for one group, whose members are counted by a repeated field. -/
def GroupResources.groupSize (profile : ActionProfile) (g : GroupResources) : Int :=
  if profile.sumOfMembers.isSome then g.actions else asInt g.totalWeight

def spaceReport (profile : ActionProfile) (type : UpdateType) (current needed removed : GroupResources) : String :=
  let size := decimal profile.size ++ ", and the new entry needs " ++ decimal (needed.groupSize profile) ++ "."
  if profile.sumOfMembers.isSome then
    "The action profile uses SumOfMembers and currently has " ++ decimal (asInt current.actions) ++
      " members with space for " ++ size ++
      if type = .modify then " The update is a MODIFY and will replace an entry that had " ++
        decimal removed.actions ++ " members." else ""
  else
    "The action profile uses SumOfWeights and has a current total weight of " ++ decimal (asInt current.totalWeight) ++
      " with space for " ++ size ++
      if type = .modify then " The update is a MODIFY and will replace an entry that had weight " ++
        decimal (asInt removed.totalWeight) ++ "." else ""

/-- The entry that a MODIFY replaces is looked up as it was sent. -/
def reasonActionProfileCanAccommodateTableEntry (profile : ActionProfile)
    (currentTable : AList fun _ : TableEntryKey => TableEntry) (type : UpdateType) (entry : TableEntry) : StatusOr String :=
  if type = .delete then .ok "The update is a DELETE which can always be accommodated."
  else
    let current := getAllActionProfileResourceForTable currentTable
    let needed := getAllActionProfileResourceForTableEntry entry
    let removed : Option GroupResources :=
      if type = .modify then (currentTable.lookup entry.key).map getAllActionProfileResourceForTableEntry else some {}
    match removed with
    | none => .error (invalidArgument " Cannot MODIFY an entry that does not exist. ")
    | some removed => match (piActionSetWeights entry).findSome? (memberError profile) with
      | some status => .error status
      | none =>
        if exceeds (needed.groupSize profile) profile.maxGroupSize then
          .error (invalidArgument ("The action profile max group size is " ++ decimal profile.maxGroupSize ++
            " and the new entry needs " ++ decimal (needed.groupSize profile) ++ "."))
        else
          let result := spaceReport profile type current needed removed
          if asInt (current.counted profile + needed.counted profile - removed.counted profile) ≤ profile.size then .ok result
          else .error ⟨.resourceExhausted,result⟩

/-- The size of a table is compared as an unsigned number. -/
def isFullFor (table : IrTableDefinition) (stored : AList fun _ : TableEntryKey => TableEntry) : Bool :=
  table.size.toUInt64.toNat < stored.entries.length + 1

def failedPrecondition (message : String) : Status := ⟨.failedPrecondition,message⟩

def keyNotFound : Status := ⟨.notFound,"Key not found"⟩

def mustAccept (table : IrTableDefinition) (results : List String) : Status :=
  failedPrecondition ("Table '" ++ table.preamble.aliasName ++ "' must accept the entry because: " ++
    String.intercalate " " results)

def SwitchState.tableExhaustedIsAllowed (s : SwitchState) (type : UpdateType) (entry : TableEntry) : Status :=
  match s.irP4Info.tablesById.lookup entry.tableId with
  | none => keyNotFound
  | some table =>
    let stored := (s.tables entry.tableId).unordered
    if type = .insert ∧ isFullFor table stored then .okStatus
    else
      let tableSizeResult := "The table is holding " ++ natText stored.entries.length ++ " entries and has space for " ++
        decimal table.size.toInt ++ "." ++
        if type = .modify then " The update is a MODIFY and replaces an existing entry." else ""
      match table.actionProfileId with
      | none => mustAccept table [tableSizeResult]
      | some id => match s.irP4Info.actionProfilesById.lookup id with
        | none => keyNotFound
        | some profile => match reasonActionProfileCanAccommodateTableEntry profile stored type entry with
          | .error status => if status.code = .resourceExhausted then .okStatus else status
          | .ok reason => mustAccept table [tableSizeResult,reason]

def SwitchState.multicastExhaustedIsAllowed (s : SwitchState) (type : UpdateType) (entry : MulticastGroupEntry) : Status :=
  let stored := s.multicast.unordered.lookup entry.multicastGroupId
  if type = .modify ∧ stored.isNone then
    invalidArgument " Cannot MODIFY a multicast group entry that does not exist. "
  else
    let limits := s.irP4Info.platformProperties
    let removed : Int := if type = .modify then stored.elim 0 fun e => e.replicas.length else 0
    let removedEntries : Int := if type = .modify then 1 else 0
    if s.multicast.current.totalMembers + entry.replicas.length - removed > limits.multicastGroupTableTotalReplicas.toInt ∨
        s.multicast.current.entries + 1 - removedEntries > limits.multicastGroupTableSize.toInt ∨
        entry.replicas.length > limits.multicastGroupTableMaxReplicasPerEntry.toInt then .okStatus
    else invalidArgument ("The current multicast_group_table_entry has " ++ natText entry.replicas.length ++
      " replicas and the max allowed number of replicas per entry is " ++
      decimal limits.multicastGroupTableMaxReplicasPerEntry.toInt ++ ".")

def SwitchState.resourceExhaustedIsAllowed (s : SwitchState) (u : Update) : Status :=
  if u.type = .delete then failedPrecondition "DELETEs should never trigger resource exhaustion."
  else match u.entity with
    | .tableEntry entry => s.tableExhaustedIsAllowed u.type entry
    | .packetReplicationEngineEntry (.multicastGroupEntry entry) => s.multicastExhaustedIsAllowed u.type entry
    | _ => ⟨.unimplemented,"ResourceExhaustedIsAllowed does not support p4.v1.Entity"⟩

/-- The limits on a single group, as the server checks them. -/
def WithinGroupLimits (profile : ActionProfile) (weights : List Int32) : Prop :=
  match profile.sumOfMembers with
  | some maxMemberWeight => exceeds weights.length profile.maxGroupSize = false ∧
      exceeds ((weights.map Int32.toInt).foldl max 0) maxMemberWeight = false
  | none => exceeds (asInt (weightSum weights)) profile.maxGroupSize = false

/-- The weights that an update replaces: those of the stored entry of a MODIFY. -/
def replacedWeights (type : UpdateType) (stored : Option TableEntry) : Option (List Int32) :=
  if type = .modify then stored.map piActionSetWeights else some []

def SwitchState.tableEntries (s : SwitchState) : List TableEntry :=
  (s.irP4Info.tablesById.map Prod.fst).flatMap fun id => (s.tables id).unordered.entries.map Sigma.snd

/-- What all tables together use of a profile. -/
def SwitchState.profileTotal (s : SwitchState) (profile : ActionProfile) : Int :=
  (s.tableEntries.map fun e => usedAmount profile.sumOfMembers.isSome s.irP4Info.toIrP4Info profile.preamble.aliasName
    (.tableEntry e)).sum

/-- What one table uses of a profile. -/
def SwitchState.ownTotal (s : SwitchState) (profile : ActionProfile) (id : UInt32) : Int :=
  mapTotal (fun e => actionSetAmount profile.sumOfMembers.isSome (piActionSetWeights e)) (s.tables id).unordered

/-- The total that a profile would have with a new group in the place of an old one. -/
def projection (profile : ActionProfile) (total : Int) (new old : List Int32) : Int :=
  total + actionSetAmount profile.sumOfMembers.isSome new - actionSetAmount profile.sumOfMembers.isSome old

/-- An admissible group for which the profile, over all its tables, is too small. -/
def SwitchState.Overflows (s : SwitchState) (profile : ActionProfile) (type : UpdateType) (canonical : TableEntry) : Prop :=
  ∃ old,replacedWeights type ((s.tables canonical.tableId).unordered.lookup canonical.key) = some old ∧
    WithinGroupLimits profile (piActionSetWeights canonical) ∧
    exceeds (projection profile (s.profileTotal profile) (piActionSetWeights canonical) old) profile.size = true

/-- A group for which the entries of its own table alone, in an `int`, are too many;
the entry that a MODIFY replaces has to be stored under the key as sent. -/
def SwitchState.OverflowsOwnTable (s : SwitchState) (profile : ActionProfile) (type : UpdateType) (entry : TableEntry) : Prop :=
  ∃ old,replacedWeights type ((s.tables entry.tableId).unordered.lookup entry.key) = some old ∧
    profile.size < asInt (projection profile (s.ownTotal profile entry.tableId) (piActionSetWeights entry) old)

section OracleVerdict
variable {s : SwitchState} {profile : ActionProfile} {type : UpdateType} {entry : TableEntry}

theorem counted_entry (profile : ActionProfile) (e : TableEntry) :
    (getAllActionProfileResourceForTableEntry e).counted profile =
      actionSetAmount profile.sumOfMembers.isSome (piActionSetWeights e) := by
  cases hmembers : profile.sumOfMembers <;> simp [GroupResources.counted,getAllActionProfileResourceForTableEntry,
    actionSetAmount,hmembers]

private theorem counted_table (s : SwitchState) (profile : ActionProfile) (id : UInt32) :
    (getAllActionProfileResourceForTable (s.tables id).unordered).counted profile = s.ownTotal profile id := by
  cases hmembers : profile.sumOfMembers <;> simp [GroupResources.counted,getAllActionProfileResourceForTable,
    getAllActionProfileResourceForTableEntry,SwitchState.ownTotal,actionSetAmount,hmembers]

private theorem exceeds_mono {a b limit : Int} (h : a ≤ b) (hb : exceeds b limit = false) : exceeds a limit = false := by
  by_cases hlimit : limit = 0
  · simp [exceeds,hlimit]
  · have hle : b ≤ limit := by simpa [exceeds,hlimit] using hb
    simpa [exceeds,hlimit] using h.trans hle

private theorem no_memberError {weights : List Int32} (hweights : ∀ w ∈ weights,(1 : Int32) ≤ w)
    (hlimits : WithinGroupLimits profile weights) : weights.findSome? (memberError profile) = none := by
  refine List.findSome?_eq_none_iff.mpr fun w hw => ?_
  have hpositive : ¬ w ≤ 0 := by
    have hone := Int32.le_iff_toInt_le.mp (hweights w hw)
    have h1 : (1 : Int32).toInt = 1 := rfl
    have h0 : (0 : Int32).toInt = 0 := rfl
    rw [Int32.le_iff_toInt_le]
    omega
  have hlimit : exceeds w.toInt (profile.sumOfMembers.getD 0) = false := by
    unfold WithinGroupLimits at hlimits
    cases hmembers : profile.sumOfMembers with
    | none => simp [exceeds]
    | some m =>
      rw [hmembers] at hlimits
      exact exceeds_mono ((le_foldl_max _ 0).2 _ (List.mem_map.mpr ⟨w,hw,rfl⟩)) hlimits.2
  simp [memberError,hpositive,hlimit]

private theorem groupSize_within (hlimits : WithinGroupLimits profile (piActionSetWeights entry)) :
    exceeds ((getAllActionProfileResourceForTableEntry entry).groupSize profile) profile.maxGroupSize = false := by
  unfold WithinGroupLimits at hlimits
  cases hmembers : profile.sumOfMembers with
  | none =>
    rw [hmembers] at hlimits
    simpa [GroupResources.groupSize,getAllActionProfileResourceForTableEntry,hmembers] using hlimits
  | some m =>
    rw [hmembers] at hlimits
    simpa [GroupResources.groupSize,getAllActionProfileResourceForTableEntry,hmembers] using hlimits.1

/-- Past the checks of a single group, the oracle only looks at the entry's own table. -/
theorem tableExhaustedIsAllowed_iff {table : IrTableDefinition} {id : UInt32}
    (htable : s.irP4Info.tablesById.lookup entry.tableId = some table) (hid : table.actionProfileId = some id)
    (hprofile : s.irP4Info.actionProfilesById.lookup id = some profile) (htype : type ≠ .delete)
    (hweights : ∀ w ∈ piActionSetWeights entry,1 ≤ w) (hlimits : WithinGroupLimits profile (piActionSetWeights entry)) :
    (s.tableExhaustedIsAllowed type entry).isOk = true ↔
      (type = .insert ∧ isFullFor table (s.tables entry.tableId).unordered = true) ∨
        s.OverflowsOwnTable profile type entry := by
  unfold SwitchState.tableExhaustedIsAllowed SwitchState.OverflowsOwnTable
  simp only [htable,hid,hprofile]
  by_cases hfull : type = .insert ∧ isFullFor table (s.tables entry.tableId).unordered = true
  · simp [hfull]
  · rw [if_neg hfull,or_iff_right hfull]
    unfold reasonActionProfileCanAccommodateTableEntry
    simp only [if_neg htype,no_memberError hweights hlimits,groupSize_within hlimits,Bool.false_eq_true,if_false,
      counted_entry,counted_table,replacedWeights,projection]
    by_cases hmodify : type = .modify
    · simp only [hmodify,if_true]
      cases hlookup : (s.tables entry.tableId).unordered.lookup entry.key with
      | none => simp [invalidArgument,Status.isOk]
      | some old =>
        simp only [Option.map_some,Option.some.injEq,exists_eq_left',counted_entry]
        split_ifs with hfits
        · simp [mustAccept,failedPrecondition,Status.isOk,hfits]
        · simpa using hfits
    · have hnone : ({} : GroupResources).counted profile = actionSetAmount profile.sumOfMembers.isSome [] := by
        cases hmembers : profile.sumOfMembers <;> simp [GroupResources.counted,actionSetAmount,hmembers,weightSum]
      simp only [hmodify,if_false,hnone,Option.some.injEq,exists_eq_left']
      split_ifs with hfits
      · simp [mustAccept,failedPrecondition,Status.isOk,hfits]
      · simpa using hfits

end OracleVerdict

section ServerVerdict

/-- The answer of a call that ran out of a resource. -/
def Exhausted {α : Type} (r : StatusOr α) : Prop := ∃ status,r = .error status ∧ status.code = .resourceExhausted

private theorem exhausted_bind {α β : Type} {r : StatusOr α} {f : α → StatusOr β} (h : ∀ a,¬ Exhausted (f a)) :
    Exhausted (r >>= f) ↔ Exhausted r := by
  cases r with
  | error status => simp [Exhausted,bind,Except.bind]
  | ok a => simpa [Exhausted,bind,Except.bind] using h a

theorem not_exhausted_ok {α : Type} (a : α) : ¬ Exhausted (.ok a : StatusOr α) := by
  rintro ⟨status,h,-⟩
  cases h

private theorem verifyCapacity_exhausted {c : ActionProfileResourceCapacity} {change : ActionProfileResources} {weights : List Int32}
    (hmax : change.maxWeight = (weights.map Int32.toInt).foldl max 0) :
    Exhausted (verifyCapacity c 0 change weights.length (Int32.ofInt (weightSum weights))) ↔
      WithinGroupLimits c.actionProfile weights ∧
        exceeds (currentTotal c + countedResources (usesSumOfMembers c) change) c.actionProfile.size = true := by
  unfold verifyCapacity WithinGroupLimits
  rw [add_zero,hmax,total_int,count_int,count_int]
  cases hmembers : c.actionProfile.sumOfMembers with
  | none =>
    simp only [asInt]
    generalize (Int32.ofInt (weightSum weights)).toInt = weight
    split_ifs with hgroup hsize
    · simp [Exhausted,invalidArgument,hgroup]
    · simp [Exhausted,hgroup,hsize]
    · simp [Exhausted,hsize]
  | some m =>
    simp only
    split_ifs with hgroup hmember hsize
    · simp [Exhausted,invalidArgument,hgroup]
    · simp [Exhausted,invalidArgument,hmember]
    · simp [Exhausted,hgroup,hmember,hsize]
    · simp [Exhausted,hsize]

variable [InetText] {info : AcceptedP4Info} {constraints : ConstraintInfo} {translation : SwitchTranslation} {role : String}

/-- What the server makes of an update that is not a DELETE: the canonical entry, and
an IR entry of the same table with the same weights. -/
theorem translated_update {type : UpdateType} {entry : TableEntry}
    (h : piUpdateToEntityUpdate info.toIrP4Info constraints translation role ⟨type,.tableEntry entry⟩ = .ok e)
    (htype : type ≠ .delete) : e.updateType = type ∧ ∃ c t table,e.piEntity = .tableEntry c ∧ e.entry = .tableEntry t ∧
      canonicalizeTableEntry info.toIrP4Info entry false = .ok c ∧ info.tablesById.lookup entry.tableId = some table ∧
      info.tablesByName.lookup t.tableName = some table ∧ irActionSetWeights t = piActionSetWeights entry ∧
      piActionSetWeights c = piActionSetWeights entry ∧ (∀ w ∈ piActionSetWeights entry,1 ≤ w) ∧
      ∀ actions,entry.action = some (.actionProfileActionSet actions) → table.usesOneshot = true := by
  have hoptions : pdpiOptions type = { keyOnly := false } := by simp [pdpiOptions,htype]
  obtain ⟨hkind,_,hupdate,-,hentry,hpi,-⟩ := piUpdateToEntityUpdate_spec h
  refine ⟨hkind,?_⟩
  obtain ⟨ir,hir,rfl⟩ := map_eq_ok.mp (mapError_eq_ok.mp hupdate)
  obtain ⟨c,hc,hpi⟩ := map_eq_ok.mp hpi
  obtain ⟨t,ht,hentry⟩ := map_eq_ok.mp hentry
  simp only [hoptions] at hir hc
  obtain ⟨table,htable,hname,hweights,hpositive,honeshot⟩ := piTableEntryToIr_weights rfl hir
  obtain ⟨-,-,-,hcweights⟩ := irTableEntryToPi_weights info.wellFormed rfl hc
  obtain ⟨htname,htweights⟩ := translateTableEntry_weights ht
  refine ⟨c,t,table,hpi.symm,hentry.symm,?_,htable,?_,htweights.trans hweights,hcweights.trans hweights,hpositive,honeshot⟩
  · exact bind_eq_ok.mpr ⟨ir,mapError_eq_ok.mpr hir,mapError_eq_ok.mpr hc⟩
  · rw [show t.tableName = table.preamble.aliasName from htname.trans hname]
    exact (info.wellFormed.table_of_id htable).2.1

end ServerVerdict

section Reflection

def cachedTableEntries (cache : EntityCache) : List TableEntry :=
  cache.entries.entries.filterMap fun x => match x.2 with
    | .tableEntry e => some e
    | _ => none

/-- The same entries are installed in the server's cache and in the switch state, and
the server's utilization map is about them. -/
structure Reflected (s : SwitchState) (cache : EntityCache) (capacities : ActionProfileCapacityMap) : Prop where
  sameEntries : (cachedTableEntries cache).Perm s.tableEntries
  accounted : Accounted s.irP4Info.toIrP4Info cache capacities
  profiles : ProfilesMatch s.irP4Info.toIrP4Info capacities

variable {s : SwitchState} {cache : EntityCache} {capacities : ActionProfileCapacityMap}

theorem mem_cachedTableEntries {e : TableEntry} :
    e ∈ cachedTableEntries cache ↔ cache.entries.lookup (.tableEntry e.key) = some (.tableEntry e) := by
  unfold cachedTableEntries
  rw [List.mem_filterMap]
  constructor
  · rintro ⟨⟨k,entity⟩,hmem,heq⟩
    have hlookup : cache.entries.lookup k = some entity := AList.mem_lookup_iff.mpr hmem
    cases entity with
    | tableEntry e' =>
      obtain rfl : e' = e := Option.some.inj heq
      have hkey : EntityKey.tableEntry e'.key = k := Except.ok.inj (cache.keyed _ _ hlookup)
      rwa [hkey]
    | _ => cases heq
  · intro hlookup
    exact ⟨⟨_,_⟩,AList.mem_lookup_iff.mp hlookup,rfl⟩

theorem mem_tableEntries {e : TableEntry} (hs : s.Good) :
    e ∈ s.tableEntries ↔ e.tableId ∈ s.irP4Info.tablesById.map Prod.fst ∧
      (s.tables e.tableId).unordered.lookup e.key = some e := by
  unfold SwitchState.tableEntries
  rw [List.mem_flatMap]
  constructor
  · rintro ⟨id,hid,hmem⟩
    obtain ⟨⟨k,e'⟩,hentry,rfl⟩ := List.mem_map.mp hmem
    have hlookup : (s.tables id).unordered.lookup k = some e' := AList.mem_lookup_iff.mpr hentry
    have hkey : k = e'.key := (hs.tables id).keyed _ _ hlookup
    have hown := hs.owned _ _ _ hlookup
    simp only [hown]
    exact ⟨hid,hkey ▸ hlookup⟩
  · rintro ⟨hid,hlookup⟩
    exact ⟨_,hid,List.mem_map.mpr ⟨⟨_,_⟩,AList.mem_lookup_iff.mp hlookup,rfl⟩⟩

theorem Reflected.lookup (h : Reflected s cache capacities) (hs : s.Good) {c : TableEntry} {table : IrTableDefinition}
    (htable : s.irP4Info.tablesById.lookup c.tableId = some table) :
    cache.entries.lookup (.tableEntry c.key) = ((s.tables c.tableId).unordered.lookup c.key).map Entity.tableEntry := by
  have hid : c.tableId ∈ s.irP4Info.tablesById.map Prod.fst := List.mem_map.mpr ⟨_,mem_of_lookup_eq_some htable,rfl⟩
  have htableOf : ∀ {e : TableEntry},e.key = c.key → e.tableId = c.tableId := fun hkey => congrArg TableEntryKey.tableId hkey
  cases hstored : (s.tables c.tableId).unordered.lookup c.key with
  | some e =>
    have hkey : c.key = e.key := (hs.tables _).keyed _ _ hstored
    have hmem : e ∈ s.tableEntries := by
      rw [mem_tableEntries hs,htableOf hkey.symm,← hkey]
      exact ⟨hid,hstored⟩
    rw [hkey]
    exact mem_cachedTableEntries.mp (h.sameEntries.mem_iff.mpr hmem)
  | none =>
    rw [Option.map_none,Option.eq_none_iff_forall_ne_some]
    intro entity hcached
    have hc : makeEntityKey (.tableEntry c) = .ok (.tableEntry c.key) := rfl
    obtain ⟨e,rfl,-⟩ := keyed_tableEntry hc (cache.keyed _ _ hcached)
    have hkey : e.key = c.key := by simpa [makeEntityKey] using cache.keyed _ _ hcached
    have hmem := (mem_tableEntries hs).mp (h.sameEntries.mem_iff.mp (mem_cachedTableEntries.mpr (hkey ▸ hcached)))
    rw [htableOf hkey,hkey,hstored] at hmem
    cases hmem.2

theorem Reflected.total (h : Reflected s cache capacities) {profile : ActionProfile} :
    mapTotal (usedAmount profile.sumOfMembers.isSome s.irP4Info.toIrP4Info profile.preamble.aliasName) cache.entries =
      s.profileTotal profile := by
  unfold SwitchState.profileTotal
  rw [← (h.sameEntries.map _).sum_eq]
  unfold mapTotal cachedTableEntries
  induction cache.entries.entries with
  | nil => rfl
  | cons x l ih =>
    obtain ⟨k,entity⟩ := x
    cases entity with
    | tableEntry e => simpa using ih
    | _ => simpa [usedAmount,entityProfile] using ih

end Reflection

section Agreement
variable {s : SwitchState} {cache : EntityCache} {capacities : ActionProfileCapacityMap} {table : IrTableDefinition}
  {profile : ActionProfile} {id : UInt32}

theorem tableResources_eq {info : IrP4Info} (hid : table.actionProfileId = some id)
    (hprofile : info.actionProfilesById.lookup id = some profile) (name : String) (weights : List Int32) :
    tableResources info name table weights =
      .ok ⟨name,some (actionProfileResources profile.preamble.aliasName weights)⟩ := by
  simp [tableResources,hid,getActionProfileName,hprofile,Except.map]

theorem newResources_eq {info : IrP4Info} {type : UpdateType} (htype : type = .insert ∨ type = .modify)
    (hname : info.tablesByName.lookup t.tableName = some table) (hid : table.actionProfileId = some id)
    (hprofile : info.actionProfilesById.lookup id = some profile) : newResources info type t =
      .ok ⟨t.tableName,some (actionProfileResources profile.preamble.aliasName (irActionSetWeights t))⟩ := by
  rw [newResources,if_pos htype,getResourceUsageForIrTableEntry,hname]
  simp only [tableResources_eq hid hprofile]
  rfl

/-- The resources of the replaced entry: none, or those of its weights. -/
inductive Replaces (name : String) : TableResources → List Int32 → Prop
  | nothing : Replaces name {} []
  | entry (tableName : String) (weights : List Int32) :
      Replaces name ⟨tableName,some (actionProfileResources name weights)⟩ weights

theorem Replaces.change {name : String} {old : TableResources} {oldWeights : List Int32} (h : Replaces name old oldWeights)
    (tableName : String) (weights : List Int32) : ∃ r,(resourceChange ⟨tableName,
      some (actionProfileResources name weights)⟩ old).actionProfile = some r ∧
      r.name = name ∧ r.maxWeight = (weights.map Int32.toInt).foldl max 0 ∧
      ∀ members,countedResources members r = actionSetAmount members weights - actionSetAmount members oldWeights := by
  cases h with
  | nothing =>
    refine ⟨_,rfl,rfl,rfl,fun members => ?_⟩
    cases members <;> simp [countedResources,actionProfileResources,actionSetAmount,weightSum]
  | entry tableName' weights' =>
    refine ⟨_,rfl,rfl,rfl,fun members => ?_⟩
    cases members <;> simp [countedResources,actionProfileResources,actionSetAmount]

/-- The server's verdict in terms of the installed entries. -/
theorem verify_exhausted_iff (href : Reflected s cache capacities)
    {old : TableResources} {oldWeights : List Int32} (hentry : e.entry = .tableEntry t)
    (htype : e.updateType = .insert ∨ e.updateType = .modify)
    (hname : s.irP4Info.tablesByName.lookup t.tableName = some table) (hid : table.actionProfileId = some id)
    (hprofile : s.irP4Info.actionProfilesById.lookup id = some profile)
    (hold : oldResources s.irP4Info.toIrP4Info e.updateType (cache.entries.lookup e.entityKey) = .ok old)
    (hreplaces : Replaces profile.preamble.aliasName old oldWeights) :
    Exhausted (verifyCapacityAndGetTableResourceChange s.irP4Info.toIrP4Info e cache capacities fun _ => 0) ↔
      WithinGroupLimits profile (irActionSetWeights t) ∧
        exceeds (projection profile (s.profileTotal profile) (irActionSetWeights t) oldWeights) profile.size = true := by
  obtain ⟨-,hbyName⟩ := s.irP4Info.wellFormed.profiles.lookup_name hprofile
  obtain ⟨c,hc,htotals⟩ := href.accounted _ _ hbyName
  obtain rfl : profile = c.actionProfile := Option.some.inj (hbyName.symm.trans (href.profiles _ _ hc))
  obtain ⟨r,hr,hrname,hrmax,hrcounted⟩ := hreplaces.change t.tableName (irActionSetWeights t)
  have hcurrent : currentTotal c = s.profileTotal c.actionProfile := by
    rw [← href.total,← htotals]
    rfl
  have hprojected : currentTotal c + countedResources (usesSumOfMembers c) r =
      projection c.actionProfile (s.profileTotal c.actionProfile) (irActionSetWeights t) oldWeights := by
    rw [hcurrent,hrcounted,projection]
    exact (add_sub_assoc _ _ _).symm
  have hlookup : capacities.lookup r.name = some c := hrname ▸ hc
  simp only [verifyCapacityAndGetTableResourceChange,hentry,newResources_eq htype hname hid hprofile,hold,bind,Except.bind,
    hr,hlookup]
  rw [← hprojected,← verifyCapacity_exhausted hrmax]
  exact exhausted_bind fun _ => not_exhausted_ok _

variable [InetText] {info : AcceptedP4Info} {constraints : ConstraintInfo} {translation : SwitchTranslation} {role : String}
  {type : UpdateType} {entry : TableEntry}

/-- The table with a given id and the action profile that it uses. -/
def SwitchState.profileOf (s : SwitchState) (tableId : UInt32) : Option (IrTableDefinition × ActionProfile) :=
  (s.irP4Info.tablesById.lookup tableId).bind fun table => table.actionProfileId.bind fun id =>
    (s.irP4Info.actionProfilesById.lookup id).map fun profile => (table,profile)

omit [InetText] in
private theorem profileOf_eq (htable : s.irP4Info.tablesById.lookup entry.tableId = some table) (honeshot : table.usesOneshot = true) :
    ∃ id profile,table.actionProfileId = some id ∧ s.irP4Info.actionProfilesById.lookup id = some profile ∧
      s.profileOf entry.tableId = some (table,profile) := by
  have hwf := (s.irP4Info.wellFormed.table_of_id htable).2.2
  obtain ⟨id,hid⟩ := Option.isSome_iff_exists.mp (hwf.oneshot.symm.trans honeshot)
  obtain ⟨profile,hprofile⟩ := Option.isSome_iff_exists.mp (hwf.profile id hid)
  exact ⟨id,profile,hid,hprofile,by simp [SwitchState.profileOf,htable,hid,hprofile]⟩

omit [InetText] in
/-- The server answers RESOURCE_EXHAUSTED when the profile overflows. -/
theorem server_exhausted_iff (hs : s.Good) (href : Reflected s cache capacities)
    {c : TableEntry} (hentry : e.entry = .tableEntry t) (hpi : e.piEntity = .tableEntry c)
    (htype : e.updateType = .insert ∨ e.updateType = .modify) (hweights : irActionSetWeights t = piActionSetWeights c)
    (hname : s.irP4Info.tablesByName.lookup t.tableName = some table)
    (htable : s.irP4Info.tablesById.lookup c.tableId = some table) (hid : table.actionProfileId = some id)
    (hprofile : s.irP4Info.actionProfilesById.lookup id = some profile) :
    Exhausted (verifyCapacityAndGetTableResourceChange s.irP4Info.toIrP4Info e cache capacities fun _ => 0) ↔
      s.Overflows profile e.updateType c := by
  have hkey : e.entityKey = .tableEntry c.key := by
    have hkeyed := e.keyed
    rw [hpi] at hkeyed
    exact (Except.ok.inj hkeyed).symm
  have hcached := href.lookup hs htable
  unfold SwitchState.Overflows
  rw [← hweights]
  rcases htype with hinsert | hmodify
  · have hold : oldResources s.irP4Info.toIrP4Info e.updateType (cache.entries.lookup e.entityKey) =
        .ok ({} : TableResources) := by
      simp [oldResources,hinsert]
    rw [verify_exhausted_iff href hentry (.inl hinsert) hname hid hprofile hold .nothing]
    simp [replacedWeights,hinsert]
  · cases hstored : (s.tables c.tableId).unordered.lookup c.key with
    | none =>
      have hlookup : cache.entries.lookup e.entityKey = none := by
        rw [hkey,hcached,hstored]
        rfl
      simp only [replacedWeights,hmodify,if_true,Option.map_none,reduceCtorEq,false_and,exists_false,iff_false]
      rintro ⟨status,hstatus,hcode⟩
      simp only [verifyCapacityAndGetTableResourceChange,hentry,newResources_eq (.inr rfl) hname hid hprofile,hlookup,
        oldResources,hmodify,true_or,if_true,bind,Except.bind,Except.error.injEq] at hstatus
      subst hstatus
      cases hcode
    | some stored =>
      have hlookup : cache.entries.lookup e.entityKey = some (.tableEntry stored) := by
        rw [hkey,hcached,hstored]
        rfl
      have hold : oldResources s.irP4Info.toIrP4Info e.updateType (cache.entries.lookup e.entityKey) =
          .ok ⟨table.preamble.aliasName,
            some (actionProfileResources profile.preamble.aliasName (piActionSetWeights stored))⟩ := by
        rw [hlookup,oldResources,if_pos (.inl hmodify)]
        simp only [entityTableEntry,getResourceUsageForPiTableEntry,hs.owned _ _ _ hstored,htable,
          tableResources_eq hid hprofile]
        rfl
      rw [verify_exhausted_iff href hentry (.inr hmodify) hname hid hprofile hold (.entry _ _)]
      simp [replacedWeights,hmodify]

/-- The profile does not overflow, or the oracle sees it: in a table that is full, or
in the entries of the own table alone. -/
def SwitchState.OracleFollows (s : SwitchState) (type : UpdateType) (entry canonical : TableEntry) : Prop :=
  ∃ table profile,s.profileOf entry.tableId = some (table,profile) ∧
    (¬ s.Overflows profile type canonical ∨ (type = .insert ∧ isFullFor table (s.tables entry.tableId).unordered = true) ∨
      s.OverflowsOwnTable profile type entry)

/-- The oracle accepts the server's RESOURCE_EXHAUSTED exactly when the entries of the
own table are enough to see it. -/
theorem oracle_follows_server_iff {visited : List SwitchState} (hlife : Life info visited s)
    (href : Reflected s cache capacities) {actions : List ActionProfileAction} {e : EntityUpdate}
    (htype : type = .insert ∨ type = .modify) (haction : entry.action = some (.actionProfileActionSet actions))
    (h : piUpdateToEntityUpdate s.irP4Info.toIrP4Info constraints translation role ⟨type,.tableEntry entry⟩ = .ok e) :
    ∃ canonical,e.piEntity = .tableEntry canonical ∧
      ((Exhausted (verifyCapacityAndGetTableResourceChange s.irP4Info.toIrP4Info e cache capacities fun _ => 0) →
        (s.resourceExhaustedIsAllowed ⟨type,.tableEntry entry⟩).isOk = true) ↔ s.OracleFollows type entry canonical) := by
  have hdelete : type ≠ .delete := by rcases htype with rfl | rfl <;> simp
  obtain ⟨hkind,c,t,table,hpi,hentry,hcanonical,htable,hname,htweights,hcweights,hpositive,honeshot⟩ :=
    translated_update h hdelete
  obtain ⟨hcid,-,-⟩ := canonicalizeTableEntry_spec hcanonical htable
  obtain ⟨id,profile,hid,hprofile,hof⟩ := profileOf_eq htable (honeshot actions haction)
  have hctable := htable
  rw [← hcid] at hctable
  have hserver := server_exhausted_iff hlife.good.1 href hentry hpi (hkind ▸ htype) (htweights.trans hcweights.symm) hname
    hctable hid hprofile
  rw [hkind] at hserver
  refine ⟨c,hpi,?_⟩
  have hfollows : s.OracleFollows type entry c ↔ (s.Overflows profile type c →
      (type = .insert ∧ isFullFor table (s.tables entry.tableId).unordered = true) ∨
        s.OverflowsOwnTable profile type entry) := by
    constructor
    · rintro ⟨table',profile',hof',hor⟩ hoverflows
      cases hof.symm.trans hof'
      exact hor.resolve_left (not_not.mpr hoverflows)
    · intro himp
      exact ⟨table,profile,hof,(em (s.Overflows profile type c)).elim (fun h => .inr (himp h)) .inl⟩
  rw [hserver,hfollows]
  refine forall_congr' fun hoverflows => ?_
  obtain ⟨-,-,hlimits,-⟩ := hoverflows
  rw [hcweights] at hlimits
  simp only [SwitchState.resourceExhaustedIsAllowed,if_neg hdelete]
  exact tableExhaustedIsAllowed_iff htable hid hprofile hdelete hpositive hlimits

end Agreement

attribute [local instance] uncompressedInet

def secondGroupTable : IrTableDefinition :=
  { wcmpGroupTable with preamble := { id := 0x02000005,aliasName := "second_group_table" },size := 100 }

def firstGroupTable : IrTableDefinition := { wcmpGroupTable with size := 100 }

/-- Two tables whose groups are in the same action profile, of size 10. -/
def sharedProfile : AcceptedP4Info where
  tablesById := [(0x02000003,firstGroupTable),(0x02000005,secondGroupTable)]
  tablesByName := [("wcmp_group_table",firstGroupTable),("second_group_table",secondGroupTable)]
  actionsById := [(0x01000002,setNexthopAction)]
  actionsByName := [("set_nexthop_id",setNexthopAction)]
  actionProfilesById := [(0x11000001,wcmpSelector)]
  actionProfilesByName := [("wcmp_group_selector",wcmpSelector)]
  wellFormed := by decide

def insertFirstGroup : Call := .applyUpdate ⟨.insert,.tableEntry (wcmpGroup "g1" [8])⟩

def firstGroupState : SwitchState :=
  ((SwitchState.call { irP4Info := sharedProfile } insertFirstGroup).get (by decide)).1

theorem firstGroupState_life : Life sharedProfile [{ irP4Info := sharedProfile },firstGroupState] firstGroupState := by
  have hsome : ((SwitchState.call { irP4Info := sharedProfile } insertFirstGroup)).isSome = true := by decide
  exact Life.fresh.call (Option.some_get hsome).symm (by decide)

def firstGroupCache : EntityCache where
  entries := AList.singleton (.tableEntry (wcmpGroup "g1" [8]).key) (.tableEntry (wcmpGroup "g1" [8]))
  keyed := by
    intro k e h
    have hmem := AList.mem_lookup_iff.mp h
    cases List.mem_singleton.mp hmem
    rfl

def firstGroupCapacities : ActionProfileCapacityMap :=
  AList.singleton "wcmp_group_selector" ⟨wcmpSelector,8,1⟩

theorem firstGroup_reflected : Reflected firstGroupState firstGroupCache firstGroupCapacities where
  sameEntries := by decide
  accounted := by
    intro name profile h
    obtain rfl : name = "wcmp_group_selector" := by
      by_contra hne
      have hnone : sharedProfile.actionProfilesByName.lookup name = none := by
        simp [sharedProfile,List.lookup_cons,beq_eq_false_iff_ne.mpr hne]
      cases hnone.symm.trans h
    exact ⟨⟨wcmpSelector,8,1⟩,by decide,fun members => by cases members <;> decide⟩
  profiles := by
    intro name c h
    obtain ⟨rfl,rfl⟩ := lookup_singleton_cases h
    decide

def secondGroup : TableEntry := { wcmpGroup "g2" [5] with tableId := 0x02000005 }

instance {α : Type} (r : StatusOr α) : Decidable (Exhausted r) := match r with
  | .ok a => .isFalse (not_exhausted_ok a)
  | .error status => decidable_of_iff (status.code = .resourceExhausted) (by simp [Exhausted])

/-- The server counts 8 of the first table, the oracle does not, and the profile has size 10. -/
theorem shared_profile_disagreement :
    Life sharedProfile [{ irP4Info := sharedProfile },firstGroupState] firstGroupState ∧
    Reflected firstGroupState firstGroupCache firstGroupCapacities ∧
    ∃ e,piUpdateToEntityUpdate firstGroupState.irP4Info.toIrP4Info noConstraints noTranslation ""
        ⟨.insert,.tableEntry secondGroup⟩ = .ok e ∧
      Exhausted (verifyCapacityAndGetTableResourceChange firstGroupState.irP4Info.toIrP4Info e firstGroupCache
        firstGroupCapacities fun _ => 0) ∧
      ¬ (firstGroupState.resourceExhaustedIsAllowed ⟨.insert,.tableEntry secondGroup⟩).isOk = true := by
  refine ⟨firstGroupState_life,firstGroup_reflected,?_⟩
  have hserver : (piUpdateToEntityUpdate firstGroupState.irP4Info.toIrP4Info noConstraints noTranslation ""
      ⟨.insert,.tableEntry secondGroup⟩).map (fun e => decide (Exhausted (verifyCapacityAndGetTableResourceChange
        firstGroupState.irP4Info.toIrP4Info e firstGroupCache firstGroupCapacities fun _ => 0))) = .ok true := by
    decide
  obtain ⟨e,he,hexhausted⟩ := map_eq_ok.mp hserver
  exact ⟨e,he,of_decide_eq_true hexhausted,by decide⟩

theorem oracle_follows_server_second_group : ∃ e canonical,
    piUpdateToEntityUpdate firstGroupState.irP4Info.toIrP4Info noConstraints noTranslation ""
      ⟨.insert,.tableEntry secondGroup⟩ = .ok e ∧ e.piEntity = .tableEntry canonical ∧
    ((Exhausted (verifyCapacityAndGetTableResourceChange firstGroupState.irP4Info.toIrP4Info e firstGroupCache
        firstGroupCapacities fun _ => 0) →
      (firstGroupState.resourceExhaustedIsAllowed ⟨.insert,.tableEntry secondGroup⟩).isOk = true) ↔
      firstGroupState.OracleFollows .insert secondGroup canonical) := by
  have hok : (piUpdateToEntityUpdate firstGroupState.irP4Info.toIrP4Info noConstraints noTranslation ""
      ⟨.insert,.tableEntry secondGroup⟩).map (fun _ => true) = .ok true := by decide
  obtain ⟨e,he,-⟩ := map_eq_ok.mp hok
  have hactions : secondGroup.action = some (.actionProfileActionSet [⟨nexthop "n1",5,[]⟩]) := rfl
  obtain ⟨canonical,hcanonical,hiff⟩ := oracle_follows_server_iff firstGroupState_life firstGroup_reflected (.inl rfl)
    hactions he
  exact ⟨e,canonical,he,hcanonical,hiff⟩

end SonicPins.P4Fuzzer
