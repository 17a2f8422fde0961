import SonicPins.Pdpi.PiToIr

/-! Translation of IR entities to PI, the inverse that normalizes the PI. -/
namespace SonicPins.Pdpi
open Lib

section Matches
variable [InetText]

/-- Validates the format of a value and encodes it as bytes. -/
def irValueToBytes (options : TranslationOptions) (format : Format) (bitwidth : Nat) (value : IrValue) :
    StatusOr Bytes :=
  let valid := validateIrValueFormat value format options
  if !valid.isOk then .error valid else irValueToNormalizedByteString value bitwidth

/-- Strings are kept; numbers lose their leading zeros. -/
def canonicalFor (format : Format) (bytes : Bytes) : Bytes :=
  if format = .string then bytes else arbitraryToCanonicalByteString bytes

def irLpmToPi (options : TranslationOptions) (d : IrMatchFieldDefinition) (value : IrValue) (prefixLength : Int32) :
    Except (List String) MatchValue := do
  let bitwidth := d.matchField.bitwidth
  let prefixLen := prefixLength.toUInt32.toNat
  if prefixLen > bitwidth then
    .error [bullet ("Prefix length " ++ natText prefixLen ++ " is greater than bitwidth " ++ natText bitwidth ++ " in LPM.")]
  else
    let bytes ← reasonOf (irValueToBytes options d.format bitwidth value)
    if prefixLen = 0 then .error [wildcardLpm]
    else
      let mask ← reasonOf (prefixLenToMask prefixLen bitwidth)
      let common ← reasonOf (intersection bytes mask)
      if bytes ≠ common then
        .error [bullet ("Lpm value has masked bits that are set. Value: " ++ value.printTextProto ++ "Prefix Length: " ++
          natText prefixLen)]
      else .ok (.lpm (arbitraryToCanonicalByteString bytes) prefixLength)

def irTernaryToPi (options : TranslationOptions) (d : IrMatchFieldDefinition) (value mask : IrValue) :
    Except (List String) MatchValue := do
  let validValue := validateIrValueFormat value d.format options
  let validMask := validateIrValueFormat mask d.format options
  if !validValue.isOk then .error [bullet validValue.message]
  else if !validMask.isOk then .error [bullet validMask.message]
  else
    let bytes ← reasonOf (irValueToNormalizedByteString value d.matchField.bitwidth)
    let maskBytes ← reasonOf (irValueToNormalizedByteString mask d.matchField.bitwidth)
    if isAllZeros maskBytes then .error [wildcardTernary]
    else
      let common ← reasonOf (intersection bytes maskBytes)
      if bytes ≠ common then
        .error [bullet ("Ternary value has masked bits that are set. Value: " ++ value.printTextProto ++ "Mask: " ++
          mask.printTextProto)]
      else .ok (.ternary (arbitraryToCanonicalByteString bytes) (arbitraryToCanonicalByteString maskBytes))

/-- An optional match of the wrong kind is also checked as an unset value. -/
def irOptionalToPi (options : TranslationOptions) (d : IrMatchFieldDefinition) (value : IrValue) :
    Except (List String) MatchValue :=
  (reasonOf (irValueToBytes options d.format d.matchField.bitwidth value)).map fun bytes =>
    .optional (canonicalFor d.format bytes)

def irMatchValueToPi (options : TranslationOptions) (d : IrMatchFieldDefinition) (value : IrMatchValue) :
    Except (List String) MatchValue :=
  match d.matchField.matchType with
  | .exact => match value with
    | .exact value =>
      (reasonOf (irValueToBytes options d.format d.matchField.bitwidth value)).map fun bytes =>
        .exact (canonicalFor d.format bytes)
    | _ => .error [bullet "Must be an exact match type."]
  | .lpm => match value with
    | .lpm value prefixLength => irLpmToPi options d value prefixLength
    | _ => .error [bullet "Must be an LPM match type."]
  | .ternary => match value with
    | .ternary value mask => irTernaryToPi options d value mask
    | _ => .error [bullet "Must be a ternary match type."]
  | .optional => match value with
    | .optional value => irOptionalToPi options d value
    | _ => match irOptionalToPi options d .notSet with
      | .ok _ => .error [bullet "Must be an optional match type."]
      | .error reasons => .error (bullet "Must be an optional match type." :: reasons)
  | other => .error [bullet ("Unsupported match type '" ++ other.name ++ "' in match field with id 0")]

def irMatchFieldToPi (options : TranslationOptions) (d : IrMatchFieldDefinition) (m : IrMatch) : StatusOr FieldMatch :=
  let unsupported := unsupportedReason "Match field" d.isUnsupported options
  match irMatchValueToPi options d m.value with
  | .ok value => unlessInvalid (matchFieldName d.matchField.name) unsupported ⟨d.matchField.id,value⟩
  | .error reasons => .error (invalidReasons (matchFieldName d.matchField.name) (unsupported ++ reasons))

def irMatchToPi (options : TranslationOptions) (table : IrTableDefinition) (m : IrMatch) :
    Except String (IrMatchFieldDefinition × FieldMatch) :=
  match table.matchFieldsByName.lookup m.name with
  | none => .error (bullet ("Match Field '" ++ m.name ++ "' does not exist in table."))
  | some d => match irMatchFieldToPi options d m with
    | .error status => .error (bullet status.message)
    | .ok pi => .ok (d,pi)

def irMatchesToPi (options : TranslationOptions) (table : IrTableDefinition) (ms : List IrMatch) :
    List String × List (IrMatchFieldDefinition × FieldMatch) :=
  partitionDistinct IrMatch.name (fun name => bullet ("Duplicate match field found with name '" ++ name ++ "'."))
    (irMatchToPi options table) [] ms

end Matches

section Actions
variable [InetText]

def irParamToPi (options : TranslationOptions) (action : IrActionDefinition) (p : IrActionParam) :
    Except String ActionParamValue :=
  match action.paramsByName.lookup p.name with
  | none => .error (bullet ("Unable to find parameter '" ++ p.name ++ "'."))
  | some d => match irValueToBytes options d.format d.param.bitwidth p.value with
    | .error status => .error (bullet (paramName p.name ++ ": " ++ status.message))
    | .ok bytes => .ok ⟨d.param.id,canonicalFor d.format bytes⟩

def irParamsToPi (options : TranslationOptions) (action : IrActionDefinition) (ps : List IrActionParam) :
    List String × List ActionParamValue :=
  partitionDistinct IrActionParam.name (fun name => bullet ("Duplicate parameter field found with name '" ++ name ++ "'."))
    (irParamToPi options action) [] ps

def irActionInvocationToPi (info : IrP4Info) (options : TranslationOptions) (validActions : List IrActionDefinition)
    (a : IrActionInvocation) : StatusOr Action :=
  match info.actionsByName.lookup a.name with
  | none => .error (invalidArgument (actionName a.name ++ " does not exist in the P4Info."))
  | some d =>
    if !validActions.any fun v => v.preamble.aliasName = a.name then
      .error (invalidArgument (generateFormattedError (actionName a.name) "It is not a valid action for this table."))
    else
      let (reasons,params) := irParamsToPi options d a.params
      unlessInvalid (actionName a.name)
        (unsupportedReason "Action" d.isUnsupported options ++ reasons ++ checkParams (a.params.map IrActionParam.name) d)
        ⟨d.preamble.id,params⟩

def irActionSetInvocationToPi (info : IrP4Info) (options : TranslationOptions) (validActions : List IrActionDefinition)
    (a : IrActionSetInvocation) : Except String ActionProfileAction :=
  match irActionInvocationToPi info options validActions a.action with
  | .error status => .error (bullet status.message)
  | .ok action =>
    if a.weight < 1 then
      .error (bullet ("Expected positive action set weight, but got " ++ decimal a.weight.toInt ++ " instead."))
    else .ok ⟨action,a.weight,a.watchPort⟩

def irActionSetToPi (info : IrP4Info) (options : TranslationOptions) (validActions : List IrActionDefinition)
    (actions : List IrActionSetInvocation) : StatusOr (List ActionProfileAction) :=
  let (reasons,piActions) := partitionResults (irActionSetInvocationToPi info options validActions) actions
  unlessInvalid "ActionSet" reasons piActions

def irTableActionToPi (info : IrP4Info) (options : TranslationOptions) (table : IrTableDefinition)
    (type : IrTableEntryType) : List String × Option TableAction :=
  match type with
  | .action a =>
    if table.usesOneshot then
      ([bullet "Table requires an action set since it uses onseshot. Got action instead."],none)
    else if table.entryActions.isEmpty then
      ([bullet "Action found for table which has no actions defined."],none)
    else match irActionInvocationToPi info options table.entryActions a with
      | .error status => ([bullet status.message],none)
      | .ok pi => ([],some (.action pi))
  | .actionSet actions =>
    if !table.usesOneshot then
      ([bullet "Table requires an action since it does not use onseshot. Got action set instead."],none)
    else
      let undefined := if table.entryActions.isEmpty then
        [bullet "Action set found for table which has no actions defined."] else []
      match irActionSetToPi info options table.entryActions actions with
      | .error status => (undefined ++ [bullet status.message],none)
      | .ok pi => (undefined,some (.actionProfileActionSet pi))
  | .notSet => if table.entryActions.isEmpty then ([],none) else ([bullet "Action is required."],none)

end Actions

section TableEntries
variable [InetText]

def irTableEntryToPi (info : IrP4Info) (ir : IrTableEntry) (options : TranslationOptions) : StatusOr TableEntry :=
  match info.tablesByName.lookup ir.tableName with
  | none => .error (invalidArgument (tableName ir.tableName ++ " does not exist in the P4Info."))
  | some table =>
    let (matchReasons,translated) := irMatchesToPi options table ir.matches_
    let keyReasons :=
      unsupportedReason ("Table '" ++ ir.tableName ++ "'") table.isUnsupported options ++ matchReasons ++
      checkMandatoryMatches (mandatoryNames translated) table ++
      priorityReasons table ir.priority "Table entries with no ternary or optional matches require a zero priority."
    let key : TableEntry :=
      { tableId := table.preamble.id,matches_ := translated.map Prod.snd,priority := ir.priority }
    if options.keyOnly then unlessInvalid (tableName ir.tableName) keyReasons key
    else
      let (actionReasons,action) := irTableActionToPi info options table ir.type
      unlessInvalid (tableName ir.tableName)
        (keyReasons ++ actionReasons ++ meterReasons table ir.meterConfig.isSome ++
          meterCounterReasons table ir.meterConfig.isSome ir.meterCounterData.isSome
            "Table does not support meters but IR entry contained a meter counter."
            "IR entry does not have a meter config but contained a meter counter." ++
          counterReasons table ir.counterData.isSome)
        { key with
          action := action,meterConfig := ir.meterConfig,counterData := ir.counterData,
          meterCounterData := ir.meterCounterData,metadata := ir.controllerMetadata }

end TableEntries

def irReplicaToPi (r : IrReplica) : Replica :=
  ⟨.port r.port,r.instanceId,r.backupReplicas.map fun b => ⟨b.port,b.instanceId⟩⟩

/-- The uniqueness checks over all replicas of a group. -/
def irReplicasReasons : List (Bytes × UInt32) → List IrReplica → List String
  | _,[] => []
  | seen,r :: rs =>
    let (reasons,seen) := replicaReasons seen (r.port,r.instanceId) (r.backupReplicas.map fun b => (b.port,b.instanceId))
    reasons ++ irReplicasReasons seen rs

def irMulticastGroupEntryToPi (ir : IrMulticastGroupEntry) (options : TranslationOptions) : StatusOr MulticastGroupEntry :=
  if options.keyOnly then .ok { multicastGroupId := ir.multicastGroupId }
  else unlessInvalid ("MulticastGroupEntry with group id '" ++ natText ir.multicastGroupId.toNat ++ "'")
    (irReplicasReasons [] ir.replicas) ⟨ir.multicastGroupId,ir.replicas.map irReplicaToPi,ir.metadata⟩

def irCloneSessionEntryToPi (ir : IrCloneSessionEntry) (options : TranslationOptions) : StatusOr CloneSessionEntry :=
  if options.keyOnly then .ok { sessionId := ir.sessionId }
  else .ok ⟨ir.sessionId,ir.replicas.map irReplicaToPi,ir.classOfService,ir.packetLengthBytes⟩

def irPacketReplicationEngineEntryToPi (ir : IrPacketReplicationEngineEntry) (options : TranslationOptions) :
    StatusOr PacketReplicationEngineEntry :=
  match ir with
  | .multicastGroupEntry e => (irMulticastGroupEntryToPi e options).map .multicastGroupEntry
  | .cloneSessionEntry e => (irCloneSessionEntryToPi e options).map .cloneSessionEntry

def irEntityToPi [InetText] (info : IrP4Info) (ir : IrEntity) (options : TranslationOptions) : StatusOr Entity :=
  match ir with
  | .tableEntry e => (irTableEntryToPi info e options).map .tableEntry
  | .packetReplicationEngineEntry e =>
    (irPacketReplicationEngineEntryToPi e options).map .packetReplicationEngineEntry

/-- `TableEntryKey`: the matches are sorted by field id. -/
structure TableEntryKey where
  tableId : UInt32
  priority : Int32
  matches_ : List FieldMatch
  deriving DecidableEq

/-- The case of a packet replication entry, as `PacketReplicationEntryKey` stores it. -/
inductive ReplicationType where
  | notSet | multicastGroupEntry | cloneSessionEntry
  deriving DecidableEq

structure PacketReplicationEntryKey where
  replicationType : ReplicationType
  id : UInt32
  deriving DecidableEq

inductive EntityKey where
  | tableEntry (key : TableEntryKey)
  | packetReplication (key : PacketReplicationEntryKey)
  deriving DecidableEq

/-- The sort of `TableEntryKey`'s constructor. -/
def sortMatches (ms : List FieldMatch) : List FieldMatch := ms.insertionSort fun a b => a.fieldId ≤ b.fieldId

def TableEntry.key (e : TableEntry) : TableEntryKey := ⟨e.tableId,e.priority,sortMatches e.matches_⟩

def PacketReplicationEngineEntry.key : PacketReplicationEngineEntry → PacketReplicationEntryKey
  | .notSet => ⟨.notSet,0⟩
  | .multicastGroupEntry e => ⟨.multicastGroupEntry,e.multicastGroupId⟩
  | .cloneSessionEntry e => ⟨.cloneSessionEntry,e.sessionId⟩

def makeEntityKey : Entity → StatusOr EntityKey
  | .tableEntry e => .ok (.tableEntry e.key)
  | .packetReplicationEngineEntry e => .ok (.packetReplication e.key)
  | .notSet => .error (invalidArgument "[P4RT App] Entity key cannot be constructed from entity type '0")
  | .other field =>
    .error (invalidArgument ("[P4RT App] Entity key cannot be constructed from entity type '" ++ field))

end SonicPins.Pdpi
