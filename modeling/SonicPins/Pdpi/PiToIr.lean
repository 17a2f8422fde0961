import Mathlib.Data.List.Dedup
import Mathlib.Data.String.Basic
import SonicPins.Pdpi.Values

/-! Translation of PI entities to IR. Every part collects the reasons why it is
invalid; an entity is translated when there are none. -/
namespace SonicPins.Pdpi
open Lib

/-- `kNewBullet` in front of a reason. -/
def bullet (reason : String) : String := "- " ++ reason

/-- `GenerateFormattedError` on reasons joined by newlines. -/
def generateFormattedError (field errorString : String) : String :=
  match strSplit '\n' errorString with
  | [_] => field ++ " is invalid: " ++ (strDropPrefix "- " errorString).getD errorString
  | errors => field ++ " is invalid for the following reasons:\n" ++ "  " ++ String.intercalate "\n  " errors

def invalidReasons (field : String) (reasons : List String) : Status :=
  invalidArgument (generateFormattedError field (String.intercalate "\n" reasons))

def unlessInvalid {α : Type} (field : String) (reasons : List String) (a : α) : StatusOr α :=
  if reasons.isEmpty then .ok a else .error (invalidReasons field reasons)

def tableName (name : String) : String := "Table entry for '" ++ name ++ "'"
def matchFieldName (name : String) : String := "Match field '" ++ name ++ "'"
def actionName (name : String) : String := "Action '" ++ name ++ "'"
def paramName (name : String) : String := "Param '" ++ name ++ "'"

def getMissingFields (actual expected : List String) : List String :=
  (expected.filter fun k => k ∉ actual).mergeSort (· ≤ ·)

/-- The names of the exact match fields. -/
def getMandatoryMatches (table : IrTableDefinition) : List String :=
  ((table.matchFieldsByName.filter fun m => m.2.matchField.matchType = .exact).map fun m => m.2.matchField.name).dedup

def checkMandatoryMatches (actual : List String) (table : IrTableDefinition) : List String :=
  let expected := getMandatoryMatches table
  if actual.dedup.length = expected.length then []
  else [bullet ("Missing matches: '" ++ String.intercalate "', '" (getMissingFields actual expected) ++ "'. Expected " ++
    natText expected.length ++ " mandatory match conditions, but found " ++ natText actual.dedup.length ++ " instead.")]

def checkParams (actual : List String) (action : IrActionDefinition) : List String :=
  if actual.dedup.length = action.paramsByName.length then []
  else [bullet ("Missing parameters: '" ++
    String.intercalate "'. '" (getMissingFields actual (action.paramsByName.map Prod.fst)) ++ "'. Expected " ++
    natText action.paramsByName.length ++ " parameters, but found " ++ natText actual.dedup.length ++ " instead.")]

def MatchType.name : MatchType → String
  | .unspecified => "UNSPECIFIED"
  | .exact => "EXACT"
  | .lpm => "LPM"
  | .ternary => "TERNARY"
  | .range => "RANGE"
  | .optional => "OPTIONAL"

def wildcardLpm : String :=
  bullet "A wild-card LPM match (i.e., prefix length of 0) must be represented by omitting the match altogether."

def wildcardTernary : String :=
  bullet "A wild-card ternary match (i.e., mask of 0) must be represented by omitting the match altogether."

/-- Translates each item and separates the reasons from the results. -/
def partitionResults {α β : Type} (f : α → Except String β) : List α → List String × List β
  | [] => ([],[])
  | a :: as =>
    let rest := partitionResults f as
    match f a with
    | .error reason => (reason :: rest.1,rest.2)
    | .ok b => (rest.1,b :: rest.2)

/-- The same for items of which every key is used once. -/
def partitionDistinct {α β κ : Type} [DecidableEq κ] (key : α → κ) (duplicate : κ → String) (f : α → Except String β) :
    List κ → List α → List String × List β
  | _,[] => ([],[])
  | used,a :: as =>
    let rest := partitionDistinct key duplicate f (key a :: used) as
    if key a ∈ used then (duplicate (key a) :: rest.1,rest.2)
    else match f a with
      | .error reason => (reason :: rest.1,rest.2)
      | .ok b => (rest.1,b :: rest.2)

/-- The message of a failed step, as the only reason. -/
def reasonOf {α : Type} (r : StatusOr α) : Except (List String) α := r.mapError fun s => [bullet s.message]

section Matches
variable [InetText]

def piLpmToIr (d : IrMatchFieldDefinition) (value : Bytes) (prefixLen : Int32) : Except (List String) IrMatchValue := do
  let mask ← reasonOf (prefixLenToMask prefixLen.toInt d.matchField.bitwidth)
  let value ← reasonOf (arbitraryToNormalizedByteString value d.matchField.bitwidth)
  let common ← reasonOf (intersection value mask)
  if value ≠ common then
    .error [bullet ("Lpm value has masked bits that are set. Value: '" ++ cEscape value ++ "' Prefix Length: " ++
      natText prefixLen.toUInt32.toNat)]
  else
    let ir ← reasonOf (arbitraryByteStringToIrValue d.format d.matchField.bitwidth value)
    .ok (.lpm ir prefixLen)

def piTernaryToIr (d : IrMatchFieldDefinition) (value mask : Bytes) : Except (List String) IrMatchValue := do
  let value ← reasonOf (arbitraryToNormalizedByteString value d.matchField.bitwidth)
  let mask ← reasonOf (arbitraryToNormalizedByteString mask d.matchField.bitwidth)
  if isAllZeros mask then .error [wildcardTernary]
  else
    let common ← reasonOf (intersection value mask)
    if value ≠ common then
      .error [bullet ("Ternary value has masked bits that are set. Value: " ++ cEscape value ++ " Mask: " ++ cEscape mask)]
    else
      let irValue ← reasonOf (arbitraryByteStringToIrValue d.format d.matchField.bitwidth value)
      let irMask ← reasonOf (arbitraryByteStringToIrValue d.format d.matchField.bitwidth mask)
      .ok (.ternary irValue irMask)

def piMatchValueToIr (d : IrMatchFieldDefinition) (value : MatchValue) : Except (List String) IrMatchValue :=
  match d.matchField.matchType with
  | .exact => match value with
    | .exact value => (reasonOf (arbitraryByteStringToIrValue d.format d.matchField.bitwidth value)).map .exact
    | _ => .error [bullet "Must be an exact match type."]
  | .lpm => match value with
    | .lpm value prefixLen =>
      if prefixLen = 0 then
        match piLpmToIr d value prefixLen with
        | .ok _ => .error [wildcardLpm]
        | .error reasons => .error (wildcardLpm :: reasons)
      else piLpmToIr d value prefixLen
    | _ => .error [bullet "Must be an LPM match type."]
  | .ternary => match value with
    | .ternary value mask => piTernaryToIr d value mask
    | _ => .error [bullet "Must be a ternary match type."]
  | .optional => match value with
    | .optional value => (reasonOf (arbitraryByteStringToIrValue d.format d.matchField.bitwidth value)).map .optional
    | _ => .error [bullet "Must be an optional match type."]
  | other => .error [bullet ("Unsupported match type '" ++ other.name ++ "'.")]

def unsupportedReason (what : String) (isUnsupported : Bool) (options : TranslationOptions) : List String :=
  if isUnsupported && !options.allowUnsupported then [bullet (what ++ " has @unsupported annotation.")] else []

def piMatchFieldToIr (options : TranslationOptions) (d : IrMatchFieldDefinition) (m : FieldMatch) : StatusOr IrMatch :=
  let unsupported := unsupportedReason "Match field" d.isUnsupported options
  match piMatchValueToIr d m.value with
  | .ok value => unlessInvalid (matchFieldName d.matchField.name) unsupported ⟨d.matchField.name,value⟩
  | .error reasons => .error (invalidReasons (matchFieldName d.matchField.name) (unsupported ++ reasons))

/-- One match with its definition, or the reason against it. -/
def piMatchToIr (options : TranslationOptions) (table : IrTableDefinition) (m : FieldMatch) :
    Except String (IrMatchFieldDefinition × IrMatch) :=
  match table.matchFieldsById.lookup m.fieldId with
  | none => .error (bullet ("Match field " ++ natText m.fieldId.toNat ++ " does not exist in table '" ++
      table.preamble.aliasName ++ "'."))
  | some d => match piMatchFieldToIr options d m with
    | .error status => .error (bullet status.message)
    | .ok ir => .ok (d,ir)

/-- The translated matches of an entry, and the reasons against the others. -/
def piMatchesToIr (options : TranslationOptions) (table : IrTableDefinition) (ms : List FieldMatch) :
    List String × List (IrMatchFieldDefinition × IrMatch) :=
  partitionDistinct FieldMatch.fieldId
    (fun id => bullet ("Duplicate match field found with ID " ++ natText id.toNat ++ ".")) (piMatchToIr options table) [] ms

def mandatoryNames {α : Type} (translated : List (IrMatchFieldDefinition × α)) : List String :=
  (translated.filter fun m => m.1.matchField.matchType = .exact).map fun m => m.1.matchField.name

end Matches

section Actions
variable [InetText]

def piParamToIr (action : IrActionDefinition) (p : ActionParamValue) : Except String IrActionParam :=
  match action.paramsById.lookup p.paramId with
  | none => .error (bullet ("Unable to find param ID " ++ natText p.paramId.toNat ++ "."))
  | some d => match arbitraryByteStringToIrValue d.format d.param.bitwidth p.value with
    | .error status => .error (bullet (paramName d.param.name ++ ": " ++ status.message))
    | .ok value => .ok ⟨d.param.name,value⟩

def piParamsToIr (action : IrActionDefinition) (ps : List ActionParamValue) : List String × List IrActionParam :=
  partitionDistinct ActionParamValue.paramId
    (fun id => bullet ("Duplicate param field with ID " ++ natText id.toNat ++ ".")) (piParamToIr action) [] ps

def piActionToIr (info : IrP4Info) (options : TranslationOptions) (validActions : List IrActionDefinition)
    (a : Action) : StatusOr IrActionInvocation :=
  match info.actionsById.lookup a.actionId with
  | none => .error (invalidArgument (bullet ("Action ID " ++ natText a.actionId.toNat ++ " does not exist in the P4Info.")))
  | some d =>
    if !validActions.any fun v => v.preamble.id = a.actionId then
      .error (invalidArgument (generateFormattedError ("Action ID " ++ natText a.actionId.toNat)
        "It is not a valid action for this table."))
    else
      let (reasons,params) := piParamsToIr d a.params
      unlessInvalid (actionName d.preamble.aliasName)
        (unsupportedReason "Action" d.isUnsupported options ++ reasons ++ checkParams (params.map IrActionParam.name) d)
        ⟨d.preamble.aliasName,params⟩

/-- One member of an action set, or the reason against it. -/
def piActionProfileActionToIr (info : IrP4Info) (options : TranslationOptions) (validActions : List IrActionDefinition)
    (a : ActionProfileAction) : Except String IrActionSetInvocation :=
  match piActionToIr info options validActions a.action with
  | .error status => .error (bullet status.message)
  | .ok action =>
    if a.weight < 1 then
      .error (bullet ("Expected positive action set weight, but got " ++ decimal a.weight.toInt ++ " instead."))
    else .ok ⟨action,a.weight,a.watchPort⟩

def piActionSetToIr (info : IrP4Info) (options : TranslationOptions) (validActions : List IrActionDefinition)
    (actions : List ActionProfileAction) : StatusOr (List IrActionSetInvocation) :=
  let (reasons,irActions) := partitionResults (piActionProfileActionToIr info options validActions) actions
  unlessInvalid "Action Set" reasons irActions

/-- The action of an entry with the reasons against it. -/
def piTableActionToIr (info : IrP4Info) (options : TranslationOptions) (table : IrTableDefinition)
    (action : Option TableAction) : List String × IrTableEntryType :=
  if table.entryActions.isEmpty then
    if action.isSome then ([bullet "Action found for table which has no actions defined."],.notSet) else ([],.notSet)
  else match action with
    | none => ([bullet "Action is required."],.notSet)
    | some (.action a) =>
      if table.usesOneshot then
        ([bullet "Table requires an action set since it uses oneshot. Got action instead."],.notSet)
      else match piActionToIr info options table.entryActions a with
        | .error status => ([bullet status.message],.notSet)
        | .ok ir => ([],.action ir)
    | some (.actionProfileActionSet actions) =>
      if !table.usesOneshot then
        ([bullet "Table requires an action since it does not use oneshot. Got action set instead."],.notSet)
      else match piActionSetToIr info options table.entryActions actions with
        | .error status => ([bullet status.message],.notSet)
        | .ok ir => ([],.actionSet ir)
    | some .notSet => ([bullet "Unsupported action type: 0"],.notSet)
    | some (.actionProfileMemberId _) => ([bullet "Unsupported action type: 2"],.notSet)
    | some (.actionProfileGroupId _) => ([bullet "Unsupported action type: 3"],.notSet)

end Actions

section TableEntries
variable [InetText]

/-- A priority is required, or refused, and must be positive. -/
def priorityReasons (table : IrTableDefinition) (priority : Int32) (refused : String) : List String :=
  if table.requiresPriority then
    if priority ≤ 0 then
      [bullet ("Table entries with ternary or optional matches require a positive non-zero priority. Got " ++
        decimal priority.toInt ++ " instead.")]
    else []
  else if priority ≠ 0 then [bullet (refused ++ " Got " ++ decimal priority.toInt ++ " instead.")] else []

def meterReasons (table : IrTableDefinition) (hasMeterConfig : Bool) : List String :=
  if !table.hasMeter && hasMeterConfig then
    [bullet "Table does not have a meter, but table entry contained a meter config."]
  else []

/-- Meter counters need a metered table and a meter config beside them. -/
def meterCounterReasons (table : IrTableDefinition) (hasMeterConfig hasMeterCounterData : Bool)
    (unsupported unconfigured : String) : List String :=
  if hasMeterCounterData then
    (if !table.hasMeter then [bullet unsupported] else []) ++ (if !hasMeterConfig then [bullet unconfigured] else [])
  else []

def counterReasons (table : IrTableDefinition) (hasCounterData : Bool) : List String :=
  if !table.hasCounter && hasCounterData then
    [bullet "Table does not have a counter, but table entry contained counter data."]
  else []

def piTableEntryToIr (info : IrP4Info) (pi : TableEntry) (options : TranslationOptions) : StatusOr IrTableEntry :=
  match info.tablesById.lookup pi.tableId with
  | none => .error (invalidArgument ("Table ID " ++ natText pi.tableId.toNat ++ " does not exist in the P4Info."))
  | some table =>
    let (matchReasons,translated) := piMatchesToIr options table pi.matches_
    let keyReasons :=
      unsupportedReason ("Table '" ++ table.preamble.aliasName ++ "'") table.isUnsupported options ++ matchReasons ++
      checkMandatoryMatches (mandatoryNames translated) table ++
      priorityReasons table pi.priority "Table entries with no ternary or optional matches cannot have a priority."
    let key : IrTableEntry :=
      { tableName := table.preamble.aliasName,matches_ := translated.map Prod.snd,priority := pi.priority }
    if options.keyOnly then unlessInvalid (tableName table.preamble.aliasName) keyReasons key
    else
      let (actionReasons,type) := piTableActionToIr info options table pi.action
      unlessInvalid (tableName table.preamble.aliasName)
        (keyReasons ++ actionReasons ++ meterReasons table pi.meterConfig.isSome ++
          meterCounterReasons table pi.meterConfig.isSome pi.meterCounterData.isSome
            "Table does not support meters, but table entry contained a meter counter."
            "Pi entry does not have a meter config, but table entry contained a meter counter." ++
          counterReasons table pi.counterData.isSome)
        { key with
          type := type,meterConfig := pi.meterConfig,counterData := pi.counterData,
          meterCounterData := pi.meterCounterData,controllerMetadata := pi.metadata }

end TableEntries

def BackupReplica.printShortTextProto (b : BackupReplica) : String :=
  "backup_replicas \x7b port: \"" ++ cEscape b.port ++ "\" instance: " ++ natText b.instanceId.toNat ++ " \x7d "

/-- `PrintShortTextProto` of a replica without a port. -/
def Replica.printShortTextProto (r : Replica) : String :=
  (match r.portKind with
    | .egressPort p => "egress_port: " ++ natText p.toNat ++ " "
    | _ => "") ++ "instance: " ++ natText r.instanceId.toNat ++ " " ++
  String.join (r.backupReplicas.map BackupReplica.printShortTextProto)

def piReplicaToIr (r : Replica) : StatusOr IrReplica :=
  match r.portKind with
  | .port port => .ok ⟨port,r.instanceId,r.backupReplicas.map fun b => ⟨b.port,b.instanceId⟩⟩
  | _ => .error (invalidArgument ("expected `port` field to be set in Replica, but found < " ++
      r.printShortTextProto ++ " >"))

/-- Bytes inside a message: the text they encode. -/
def bytesText (b : Bytes) : String := (ofUtf8? b).getD (cEscape b)

def duplicatePair (kind : String) (port : Bytes) (instanceId : UInt32) : String :=
  bullet ("Each " ++ kind ++ " must have a unique (port, instance)-pair, but found multiple primary/backup " ++
    "replicas with pair ('" ++ bytesText port ++ "', " ++ natText instanceId.toNat ++ ").")

def duplicatePort (port : Bytes) : String :=
  bullet ("A primary replica and its backup replicas must have unique ports. " ++
    "Replica and its backups contained duplicates of port '" ++ bytesText port ++ "'.")

/-- The ports of a replica and its backups are pairwise different. -/
def backupPortReasons : List Bytes → List (Bytes × UInt32) → List String
  | _,[] => []
  | seen,(port,_) :: bs =>
    if port ∈ seen then duplicatePort port :: backupPortReasons seen bs else backupPortReasons (port :: seen) bs

/-- No (port, instance) pair is used twice by a primary or backup replica. -/
def backupPairReasons : List (Bytes × UInt32) → List (Bytes × UInt32) → List String × List (Bytes × UInt32)
  | seen,[] => ([],seen)
  | seen,b :: bs =>
    if b ∈ seen then
      let (reasons,seen) := backupPairReasons seen bs
      (duplicatePair "backup replica" b.1 b.2 :: reasons,seen)
    else backupPairReasons (b :: seen) bs

/-- The uniqueness checks of one replica, and the pairs seen after it. -/
def replicaReasons (seen : List (Bytes × UInt32)) (primary : Bytes × UInt32) (backups : List (Bytes × UInt32)) :
    List String × List (Bytes × UInt32) :=
  let primaryReasons := if primary ∈ seen then [duplicatePair "replica" primary.1 primary.2] else []
  let (pairReasons,seen) := backupPairReasons (primary :: seen) backups
  (primaryReasons ++ backupPortReasons [primary.1] backups ++ pairReasons,seen)

def piReplicasToIr : List (Bytes × UInt32) → List Replica → List String × List IrReplica
  | _,[] => ([],[])
  | seen,r :: rs => match piReplicaToIr r with
    | .error status =>
      let rest := piReplicasToIr seen rs
      (bullet status.message :: rest.1,rest.2)
    | .ok ir =>
      let (reasons,seen) := replicaReasons seen (ir.port,ir.instanceId)
        (r.backupReplicas.map fun b => (b.port,b.instanceId))
      let rest := piReplicasToIr seen rs
      (reasons ++ rest.1,ir :: rest.2)

def piMulticastGroupEntryToIr (pi : MulticastGroupEntry) (options : TranslationOptions) : StatusOr IrMulticastGroupEntry :=
  if options.keyOnly then .ok { multicastGroupId := pi.multicastGroupId,metadata := pi.metadata }
  else
    let (reasons,replicas) := piReplicasToIr [] pi.replicas
    unlessInvalid ("MulticastGroupEntry with group id '" ++ natText pi.multicastGroupId.toNat ++ "'") reasons
      ⟨pi.multicastGroupId,replicas,pi.metadata⟩

def piCloneSessionEntryToIr (pi : CloneSessionEntry) (options : TranslationOptions) : StatusOr IrCloneSessionEntry :=
  if options.keyOnly then .ok { sessionId := pi.sessionId }
  else
    let (reasons,replicas) := partitionResults
      (fun r => (piReplicaToIr r).mapError fun status => bullet status.message) pi.replicas
    unlessInvalid ("CloneSessionEntry with group id '" ++ natText pi.sessionId.toNat ++ "'") reasons
      ⟨pi.sessionId,replicas,pi.classOfService,pi.packetLengthBytes⟩

def piPacketReplicationEngineEntryToIr (pi : PacketReplicationEngineEntry) (options : TranslationOptions) :
    StatusOr IrPacketReplicationEngineEntry :=
  match pi with
  | .multicastGroupEntry e => (piMulticastGroupEntryToIr e options).map .multicastGroupEntry
  | .cloneSessionEntry e => (piCloneSessionEntryToIr e options).map .cloneSessionEntry
  | .notSet => .error ⟨.unimplemented,"The PRE entry type is not supported."⟩

def piEntityToIr [InetText] (info : IrP4Info) (pi : Entity) (options : TranslationOptions) : StatusOr IrEntity :=
  match pi with
  | .tableEntry e => (piTableEntryToIr info e options).map .tableEntry
  | .packetReplicationEngineEntry e =>
    (piPacketReplicationEngineEntryToIr e options).map .packetReplicationEngineEntry
  | .notSet => .error (invalidArgument (generateFormattedError "Entity" "Oneof message is not set: entity"))
  | .other field => .error ⟨.unimplemented,generateFormattedError "Entity" ("Entity '" ++ field ++ "' is not supported.")⟩

end SonicPins.Pdpi
