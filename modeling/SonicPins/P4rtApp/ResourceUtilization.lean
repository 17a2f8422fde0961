import Mathlib.Data.List.AList
import SonicPins.P4rtApp.EntityUpdate

/-! The action profile resources that table entries use, and the check of a change against the capacities, in whichever number
types: exact totals (64 bits hold more than any cache can use) or, in `MachineCounters`, those of the code. -/
namespace SonicPins.P4rtApp
open Lib Pdpi Sonic

/-- The entities that were programmed, each under its own key. -/
structure EntityCache where
  entries : AList (fun _ : EntityKey => Entity)
  keyed : ∀ k e,entries.lookup k = some e → makeEntityKey e = .ok k

theorem keyed_empty (k : EntityKey) (e : Entity) (h : (∅ : AList fun _ : EntityKey => Entity).lookup k = some e) :
    makeEntityKey e = .ok k := by cases h

/-- What is used of a profile: a number of members, their weight, and the greatest weight of one. -/
structure ActionProfileResourcesIn (κ τ : Type) where
  name : String
  numberOfActions : κ
  totalWeight : τ
  maxWeight : κ
  deriving DecidableEq,Repr

structure TableResourcesIn (κ τ : Type) where
  name : String := ""
  actionProfile : Option (ActionProfileResourcesIn κ τ) := none
  deriving DecidableEq,Repr

structure ActionProfileResourceCapacityIn (τ : Type) [OfNat τ 0] where
  actionProfile : ActionProfile
  currentTotalWeight : τ := 0
  currentTotalMembers : τ := 0
  deriving DecidableEq,Repr

abbrev ActionProfileResources := ActionProfileResourcesIn Int Int

abbrev TableResources := TableResourcesIn Int Int

abbrev ActionProfileResourceCapacity := ActionProfileResourceCapacityIn Int

abbrev ActionProfileCapacityMap := AList (fun _ : String => ActionProfileResourceCapacity)

def getActionProfileName (info : IrP4Info) (id : UInt32) : StatusOr String :=
  match info.actionProfilesById.lookup id with
  | none => .error ⟨.notFound,"Could not find action profile definition for ID: " ++ natText id.toNat⟩
  | some profile => .ok profile.preamble.aliasName

def irActionSetWeights (e : IrTableEntry) : List Int32 :=
  match e.type with
  | .actionSet actions => actions.map IrActionSetInvocation.weight
  | _ => []

def piActionSetWeights (e : TableEntry) : List Int32 :=
  match e.action with
  | some (.actionProfileActionSet actions) => actions.map ActionProfileAction.weight
  | _ => []

def weightSum (weights : List Int32) : Int := (weights.map Int32.toInt).sum

def actionProfileResources (name : String) (weights : List Int32) : ActionProfileResources :=
  ⟨name,weights.length,weightSum weights,(weights.map Int32.toInt).foldl max 0⟩

/-- The types of members and of totals: how they are counted, converted into each other, and read. -/
class ResourceNumbers (κ : outParam Type) (τ : Type) where
  resources : String → List Int32 → ActionProfileResourcesIn κ τ
  widen : κ → τ
  narrow : τ → Int32
  count : κ → Int
  total : τ → Int

instance : ResourceNumbers Int Int := ⟨actionProfileResources,fun n => n,Int32.ofInt,fun n => n,fun n => n⟩

@[simp] theorem resources_int : (ResourceNumbers.resources : String → List Int32 → ActionProfileResources) = actionProfileResources :=
  rfl

@[simp] theorem widen_int (n : Int) : (ResourceNumbers.widen n : Int) = n := rfl

@[simp] theorem count_int (n : Int) : ResourceNumbers.count Int n = n := rfl

@[simp] theorem total_int (n : Int) : ResourceNumbers.total n = n := rfl

section Numbers
open ResourceNumbers

variable {κ τ : Type} [ResourceNumbers κ τ] [OfNat τ 0] [Add τ]

/-- The resources of a table entry, without a profile if its table has none. -/
def tableResources (info : IrP4Info) (name : String) (table : IrTableDefinition) (weights : List Int32) :
    StatusOr (TableResourcesIn κ τ) :=
  match table.actionProfileId with
  | none => .ok { name := name }
  | some id => (getActionProfileName info id).map fun profile => ⟨name,some (resources profile weights)⟩

def getResourceUsageForIrTableEntry (info : IrP4Info) (e : IrTableEntry) : StatusOr (TableResourcesIn κ τ) :=
  match info.tablesByName.lookup e.tableName with
  | none => .error ⟨.notFound,"Could not find table definition for: " ++ e.tableName⟩
  | some table => tableResources info e.tableName table (irActionSetWeights e)

def getResourceUsageForPiTableEntry (info : IrP4Info) (e : TableEntry) : StatusOr (TableResourcesIn κ τ) :=
  match info.tablesById.lookup e.tableId with
  | none => .error ⟨.notFound,"Could not find table definition for ID: " ++ natText e.tableId.toNat⟩
  | some table => tableResources info table.preamble.aliasName table (piActionSetWeights e)

def usesSumOfMembers (c : ActionProfileResourceCapacityIn τ) : Bool := c.actionProfile.sumOfMembers.isSome

/-- A limit of zero allows everything. -/
def exceeds (value limit : Int) : Bool := limit ≠ 0 && value > limit

/-- The part of a change that one of the size semantics counts. -/
def countedResources (sumOfMembers : Bool) (r : ActionProfileResourcesIn κ τ) : τ :=
  if sumOfMembers then widen r.numberOfActions else r.totalWeight

def currentTotal (c : ActionProfileResourceCapacityIn τ) : τ :=
  if usesSumOfMembers c then c.currentTotalMembers else c.currentTotalWeight

/-- The limits of one request, then the size of the profile. The weight of the
request is read as a 32 bit number. -/
def verifyCapacity (c : ActionProfileResourceCapacityIn τ) (inBatch : τ) (change : ActionProfileResourcesIn κ τ)
    (actionsInNewRequest : κ) (weightInNewRequest : Int32) : StatusOr Unit :=
  let projected := total (currentTotal c + inBatch + countedResources (usesSumOfMembers c) change)
  let exhausted (semantics : String) : Status := ⟨.resourceExhausted,"[P4RT App] not enough resources to fit in '" ++
    change.name ++ "' using " ++ semantics ++ " semantics. Projected utilization was '" ++ decimal projected ++
    "' but we can only fit '" ++ decimal c.actionProfile.size ++ "'."⟩
  match c.actionProfile.sumOfMembers with
  | some maxMemberWeight =>
    if exceeds (count τ actionsInNewRequest) c.actionProfile.maxGroupSize then
      .error (invalidArgument ("[P4RT App] too many actions. The max allowed is " ++ decimal c.actionProfile.maxGroupSize ++
        ", but got " ++ decimal (count τ actionsInNewRequest)))
    else if exceeds (count τ change.maxWeight) maxMemberWeight then
      .error (invalidArgument ("[P4RT App] Action had too high weight. The max allowed is " ++ decimal maxMemberWeight ++
        ", but got " ++ decimal (count τ change.maxWeight)))
    else if exceeds projected c.actionProfile.size then .error (exhausted "SumOfMembers")
    else .ok ()
  | none =>
    if exceeds weightInNewRequest.toInt c.actionProfile.maxGroupSize then
      .error (invalidArgument ("[P4RT App] too much weight in actions. The max allowed is " ++
        decimal c.actionProfile.maxGroupSize ++ ", but got " ++ decimal weightInNewRequest.toInt))
    else if exceeds projected c.actionProfile.size then .error (exhausted "SumOfWeights")
    else .ok ()

theorem exceeds_eq_false {value limit : Int} : exceeds value limit = false ↔ (limit ≠ 0 → value ≤ limit) := by
  simp [exceeds]

/-- All of the limits that the semantics of the profile has. -/
theorem verifyCapacity_eq_ok {c : ActionProfileResourceCapacityIn τ} {inBatch : τ} {change : ActionProfileResourcesIn κ τ}
    {actions : κ} {weight : Int32} : verifyCapacity c inBatch change actions weight = .ok () ↔
      exceeds (if c.actionProfile.sumOfMembers.isSome then count τ actions else weight.toInt) c.actionProfile.maxGroupSize = false ∧
      (∀ limit ∈ c.actionProfile.sumOfMembers,exceeds (count τ change.maxWeight) limit = false) ∧
      exceeds (total (currentTotal c + inBatch + countedResources (usesSumOfMembers c) change)) c.actionProfile.size = false := by
  unfold verifyCapacity
  cases hmembers : c.actionProfile.sumOfMembers with
  | some limit =>
    simp only [Option.isSome_some,if_true,Option.mem_def,Option.some.injEq,forall_eq']
    split_ifs <;> simp_all
  | none =>
    simp only [Option.isSome_none,Bool.false_eq_true,if_false,Option.mem_def,reduceCtorEq,false_implies,implies_true,true_and]
    split_ifs <;> simp_all

variable [OfNat κ 0] [Sub κ] [Sub τ]

def newResources (info : IrP4Info) (type : UpdateType) (e : IrTableEntry) : StatusOr (TableResourcesIn κ τ) :=
  if type = .insert ∨ type = .modify then
    (getResourceUsageForIrTableEntry info e).mapError fun _ => invalidArgument "[P4RT App] Could not get table resources."
  else .ok {}

def oldResources (info : IrP4Info) (type : UpdateType) (cached : Option Entity) : StatusOr (TableResourcesIn κ τ) :=
  if type = .modify ∨ type = .delete then
    match cached with
    | none => .error ⟨.notFound,"[P4RT App] Could not find cache entry for resource accounting."⟩
    | some e => (getResourceUsageForPiTableEntry info (entityTableEntry e)).mapError fun _ =>
        ⟨.notFound,"[P4RT App] Could not get resources for cached table entry."⟩
  else .ok {}

def resourceChange (new old : TableResourcesIn κ τ) : TableResourcesIn κ τ :=
  match old.actionProfile with
  | none => match new.actionProfile with
    | none => {}
    | some n => ⟨new.name,some n⟩
  | some o =>
    let n := new.actionProfile.getD ⟨o.name,0,0,0⟩
    ⟨old.name,some { n with
      numberOfActions := n.numberOfActions - o.numberOfActions,totalWeight := n.totalWeight - o.totalWeight }⟩

def verifyCapacityAndGetTableResourceChange (info : IrP4Info) (update : EntityUpdate) (cache : EntityCache)
    (capacities : AList fun _ : String => ActionProfileResourceCapacityIn τ) (resourcesInBatch : String → τ) :
    StatusOr (TableResourcesIn κ τ) :=
  match update.entry with
  | .packetReplicationEngineEntry _ => .ok {}
  | .tableEntry e => do
    let new : TableResourcesIn κ τ ← newResources info update.updateType e
    let old ← oldResources info update.updateType (cache.entries.lookup update.entityKey)
    let change := resourceChange new old
    match change.actionProfile with
    | none => .ok change
    | some profile => match capacities.lookup profile.name with
      | none => .error ⟨.notFound,"[P4RT App] Could not get the current capacity data for '" ++ profile.name ++ "'"⟩
      | some capacity =>
        let n := new.actionProfile.getD ⟨"",0,0,0⟩
        verifyCapacity capacity (resourcesInBatch profile.name) profile n.numberOfActions (narrow n.totalWeight)
        .ok change

end Numbers

end SonicPins.P4rtApp
