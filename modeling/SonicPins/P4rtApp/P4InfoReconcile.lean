import SonicPins.Lib.SetDifference
import SonicPins.P4rtApp.EntityCacheRebuild

/-! What has to change when a new P4Info replaces the current one. -/
namespace SonicPins.P4rtApp
open Lib Pdpi Sonic

structure HashPacketFieldConfig where
  key : String
  fields : List String := []
  switchTableKey : String := ""
  deriving DecidableEq

abbrev HashParamConfigs := List (String × String)

/-- What a valid config stands for. -/
structure ConfigInfo where
  irP4Info : AcceptedP4Info
  constraints : ConstraintInfo
  hashPacketFieldConfigs : List HashPacketFieldConfig := []
  hashParamConfigs : HashParamConfigs := []

/-- The functions of a P4Info that pushing a config rests on: its validation and conversion,
the comparison of two of them, its hash settings in the order of their keys, and the values of
the definition of an ACL table. -/
structure PipelineFunctions where
  validateP4Info : String → StatusOr Unit
  p4ToConstraintInfo : String → StatusOr ConstraintInfo
  createIrP4Info : String → StatusOr AcceptedP4Info
  isEquivalent : IrP4Info → IrP4Info → Bool
  extractHashPacketFieldConfigs : IrP4Info → StatusOr (List HashPacketFieldConfig)
  extractHashParamConfigs : IrP4Info → StatusOr HashParamConfigs
  aclTableDefinitionValues : IrTableDefinition → StatusOr (List FieldValue)

def generateSonicDbKeyFromTableName (tableName : String) : String :=
  aclTableDefinitionName ++ ":ACL_" ++ asciiToUpper tableName

def generateSonicDbKeyFromIrTable (table : IrTableDefinition) : StatusOr String :=
  if table.preamble.aliasName.isEmpty then .error (invalidArgument "Table [] is missing an alias.")
  else .ok (generateSonicDbKeyFromTableName table.preamble.aliasName)

def appDbAclTableDefinition (fs : PipelineFunctions) (table : IrTableDefinition) : StatusOr KeyOpFieldsValues := do
  let key ← generateSonicDbKeyFromIrTable table
  let values ← fs.aclTableDefinitionValues table
  .ok ⟨key,.set,values⟩

/-- Two rows with equally many fields, and every field of the second with the value it has in the
first. -/
def kfvEq (left right : KeyOpFieldsValues) : Bool :=
  left.key = right.key && left.op = right.op && left.values.length = right.values.length &&
    right.values.all fun v => lastField left.values v.1 = some v.2

def kfvFieldLookup (kfv : KeyOpFieldsValues) (field : String) : StatusOr Bytes :=
  match kfv.values.find? fun v => v.1 = field with
  | some v => .ok v.2
  | none => .error ⟨.notFound,"Tuple with key " ++ kfv.key ++ " does not contain the field: " ++ field⟩

section Transition

structure P4InfoReconcileTransition where
  hashingPacketFieldConfigsToDelete : List String := []
  hashingPacketFieldConfigsToSet : List String := []
  updateSwitchTable : Bool := false
  aclTablesToDelete : List String := []
  aclTablesToAdd : List String := []
  nonessentialAclTablesToModify : List String := []
  essentialAclTablesToModify : List String := []
  deriving DecidableEq

variable (fs : PipelineFunctions)

def existingHashError (what : String) (s : Status) : Status :=
  ⟨.internal,"Failed to calculate hash " ++ what ++ " fields from existing P4Info: " ++ s.message⟩

def calculateHashingDifference (old new : IrP4Info) (t : P4InfoReconcileTransition) : StatusOr P4InfoReconcileTransition := do
  let oldFields ← (fs.extractHashPacketFieldConfigs old).mapError (existingHashError "packets")
  let oldParams ← (fs.extractHashParamConfigs old).mapError (existingHashError "parameter")
  let newFields ← (fs.extractHashPacketFieldConfigs new).mapError fun s =>
    ⟨s.code,"Failed to calculate hash packet fields from new forwarding pipeline config. " ++ s.message⟩
  let newParams ← (fs.extractHashParamConfigs new).mapError fun s =>
    ⟨s.code,"failed to calculate hash parameters from new forwarding pipeline config. " ++ s.message⟩
  let diff := setDifference (fun a b => decide (a.key < b.key)) oldFields newFields
  let newKeys := newFields.map HashPacketFieldConfig.key
  let toDelete := (diff.deleted.map HashPacketFieldConfig.key).filter (· ∉ newKeys)
  let toSet := diff.added.map HashPacketFieldConfig.key
  .ok { t with
    hashingPacketFieldConfigsToDelete := t.hashingPacketFieldConfigsToDelete ++ toDelete,
    hashingPacketFieldConfigsToSet := t.hashingPacketFieldConfigsToSet ++ toSet,
    updateSwitchTable := !toDelete.isEmpty || !toSet.isEmpty || oldParams ≠ newParams }

def getAclTableNames (info : IrP4Info) : StatusOr (List String) := do
  let types ← info.tablesByName.mapM fun (name,table) => (getTableType table).mapError fun s =>
    ⟨s.code,"Failed to determine table type of table '" ++ name ++ "': " ++ s.message⟩
  let names := ((info.tablesByName.zip types).filter fun t => t.2 = .acl).map fun t => t.1.1
  .ok (names.insertionSort (· ≤ ·))

/-- Whether the definition of a table changes, or is to be installed again. -/
def isValidModification (oldTable newTable : IrTableDefinition) : StatusOr Bool := do
  let oldRow ← (appDbAclTableDefinition fs oldTable).mapError fun s =>
    ⟨.internal,"Failed to generate AppDB representation of ACL table from existing P4Info: " ++ s.message⟩
  let newRow ← (appDbAclTableDefinition fs newTable).mapError fun s =>
    ⟨s.code,"Failed to generate AppDB format for ACL table " ++ newTable.preamble.aliasName ++ s.message⟩
  let oldStage ← kfvFieldLookup oldRow "stage"
  let newStage ← kfvFieldLookup newRow "stage"
  if oldStage ≠ newStage then .error ⟨.failedPrecondition,"ACL tables may not change stage. Cannot transition table '" ++
    newTable.preamble.aliasName ++ "' from stage '" ++ (ofUtf8? oldStage).getD (cEscape oldStage) ++ "' to '" ++
    (ofUtf8? newStage).getD (cEscape newStage) ++ "'"⟩
  else .ok (!kfvEq oldRow newRow || (getAnnotationBody "reinstall_during_upgrade" newTable.preamble.annotations).isOk)

/-- A name that is in the map of tables. -/
def tableNamed (info : IrP4Info) (name : String) : Fallible IrTableDefinition :=
  match info.tablesByName.lookup name with
  | some table => .ok table
  | none => .error (.thrown "at")

/-- Sorts one table of both P4Infos into those to modify. -/
def addModification (old new : IrP4Info) (t : P4InfoReconcileTransition) (name : String) : Fallible P4InfoReconcileTransition := do
  let oldTable ← tableNamed old name
  let newTable ← tableNamed new name
  let modified ← orFail (isValidModification fs oldTable newTable)
  if !modified then .ok t
  else if (getAnnotationBody "nonessential_for_upgrade" newTable.preamble.annotations).isOk then
    .ok { t with nonessentialAclTablesToModify := t.nonessentialAclTablesToModify ++ [name] }
  else .ok { t with essentialAclTablesToModify := t.essentialAclTablesToModify ++ [name] }

def calculateAclDifference (old new : IrP4Info) (t : P4InfoReconcileTransition) : Fallible P4InfoReconcileTransition := do
  let oldNames ← orFail (getAclTableNames old)
  let newNames ← orFail (getAclTableNames new)
  let diff := setDifference (fun a b => decide (a < b)) oldNames newNames
  diff.intersection.foldlM (addModification fs old new) { t with aclTablesToAdd := diff.added,aclTablesToDelete := diff.deleted }

def calculateTransition (old new : IrP4Info) : Fallible P4InfoReconcileTransition := do
  let t ← orFail (calculateHashingDifference fs old new {})
  calculateAclDifference fs old new t

/-- Changes that OrchAgent does not support. -/
def isSupportedTransition (t : P4InfoReconcileTransition) : StatusOr Unit :=
  if "acl_pre_ingress_table" ∈ t.aclTablesToDelete ∨ "acl_pre_ingress_table" ∈ t.essentialAclTablesToModify ∨
      "acl_pre_ingress_table" ∈ t.nonessentialAclTablesToModify then
    .error ⟨.failedPrecondition,"Updating table 'acl_pre_ingress_table' is not currently supported."⟩
  else match t.hashingPacketFieldConfigsToDelete.find? fun f => f = "compute_lag_hash_ipv4" || f = "compute_lag_hash_ipv6" with
    | some field => .error ⟨.failedPrecondition,"Updating hash config '" ++ field ++ "' is not currently supported."⟩
    | none => .ok ()

end Transition

def getActionProfileResourceCapacity (profile : ActionProfile) : ActionProfileResourceCapacity := { actionProfile := profile }

/-- The limit on all groups together, of a profile that counts weights. -/
def getMaxWeightForAllGroups (c : ActionProfileResourceCapacity) : Option Int :=
  if usesSumOfMembers c then none else some c.actionProfile.size

/-- The capacity of a profile of the new P4Info with the totals that are recorded for its name. -/
def updatedCapacity (original : ActionProfileCapacityMap) (name : String) (profile : ActionProfile) :
    ActionProfileResourceCapacity :=
  match original.lookup name with
  | none => getActionProfileResourceCapacity profile
  | some c => { getActionProfileResourceCapacity profile with
      currentTotalWeight := c.currentTotalWeight,currentTotalMembers := c.currentTotalMembers }

def checkUpdatedCapacity (original : ActionProfileCapacityMap) (name : String) (c : ActionProfileResourceCapacity) : StatusOr Unit :=
  if (getMaxWeightForAllGroups c).any fun limit => limit ≠ 0 && c.currentTotalWeight > limit then
    .error ⟨.failedPrecondition,"The new ForwardingPipelineConfig capacity for action profile '" ++ name ++
      "' with SumOfWeight size semantics (" ++ decimal c.actionProfile.size ++ ") is less than the current usage (" ++
      decimal c.currentTotalWeight ++ ")"⟩
  else if c.currentTotalWeight > 0 && (original.lookup name).any fun o => c.actionProfile.maxGroupSize < o.actionProfile.maxGroupSize then
    .error ⟨.failedPrecondition,"The new ForwardingPipelineConfig max group size for action profile '" ++ name ++ "' (" ++
      decimal c.actionProfile.maxGroupSize ++ ") is smaller than the original size (" ++
      decimal (((original.lookup name).map fun o => o.actionProfile.maxGroupSize).getD 0) ++
      "). Shrinking the max group size is currently unsupported."⟩
  else .ok ()

def addUpdatedCapacity (original map : ActionProfileCapacityMap) (profile : String × ActionProfile) :
    StatusOr ActionProfileCapacityMap := do
  let c := updatedCapacity original profile.1 profile.2
  checkUpdatedCapacity original profile.1 c
  .ok (map.insert profile.1 c)

def getUpdatedResourceCapacities (info : IrP4Info) (original : ActionProfileCapacityMap) : StatusOr ActionProfileCapacityMap :=
  info.actionProfilesByName.foldlM (addUpdatedCapacity original) ∅

def addCapacities (info : IrP4Info) (map : ActionProfileCapacityMap) : ActionProfileCapacityMap :=
  info.actionProfilesByName.foldl (fun map p => map.insert p.1 (getActionProfileResourceCapacity p.2)) map

end SonicPins.P4rtApp
