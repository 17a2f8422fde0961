import SonicPins.Pdpi.IrToPi

/-! Ports, queues and IPv6 matches between the controller's names and OrchAgent's. -/
namespace SonicPins.P4rtApp
open Lib Pdpi

inductive TranslationDirection where
  | forController | forOrchAgent
  deriving DecidableEq,Repr

/-- The bimap of SONiC port names and P4RT port ids. -/
structure PortMap where
  entries : List (String × String)
  leftNodup : (entries.map Prod.fst).Nodup
  rightNodup : (entries.map Prod.snd).Nodup

def PortMap.left (m : PortMap) (name : String) : Option String := m.entries.lookup name

def PortMap.right (m : PortMap) (id : String) : Option String := (m.entries.map Prod.swap).lookup id

/-- The maps of queue names and ids; `Create` refuses a repeated name or id. -/
structure QueueTranslator where
  entries : List (String × Int32)
  nameNodup : (entries.map Prod.fst).Nodup
  idNodup : (entries.map Prod.snd).Nodup

namespace QueueTranslator

def nameToId (t : QueueTranslator) (name : String) : Option Int32 := t.entries.lookup name

def idToName (t : QueueTranslator) (id : Int32) : Option String := (t.entries.map Prod.swap).lookup id

/-- The format `%#x`, which leaves zero without a prefix. -/
def hexAlternate (n : Int32) : String :=
  if n = 0 then "0" else "0x" ++ String.ofList (numeral 16 n.toUInt32.toNat)

def optionallyTranslateIdToName (t : QueueTranslator) (value : String) : StatusOr String :=
  match simpleHexAtoi32 value with
  | none => .error (invalidArgument ("Expected AppDB queue as hex string. Got '" ++ value ++ "'."))
  | some id => .ok ((t.idToName (Int32.ofInt id)).getD value)

def optionallyTranslateNameToIdInHexString (t : QueueTranslator) (value : String) : String :=
  match t.nameToId value with
  | some id => hexAlternate id
  | none => match (simpleAtoi32 value).or (simpleHexAtoi32 value) with
    | some number => hexAlternate (Int32.ofInt number)
    | none => value

end QueueTranslator

/-- `absl::CHexEscape`. -/
def cHexEscape (bytes : Bytes) : String :=
  String.ofList (bytes.flatMap fun b =>
    if b = 10 then ['\\','n'] else if b = 13 then ['\\','r'] else if b = 9 then ['\\','t']
    else if b = 34 then ['\\','"'] else if b = 39 then ['\\','\''] else if b = 92 then ['\\','\\']
    else if 32 ≤ b ∧ b < 127 then [Char.ofNat b.toNat]
    else '\\' :: 'x' :: hexDigitPair b)

def translatePort (direction : TranslationDirection) (portMap : PortMap) (portKey : Bytes) : StatusOr String :=
  match ofUtf8? portKey with
  | none => .error (invalidArgument "Invalid UTF-8 string")
  | some key =>
    let missing (target : String) : Status := ⟨.failedPrecondition,"[P4RT App] Cannot translate port '" ++
      cHexEscape portKey ++ "' to " ++ target ++ ". Has the port been configured with an ID?"⟩
    match direction with
    | .forController => match portMap.left key with
      | some id => .ok id
      | none => .error (missing "P4RT ID")
    | .forOrchAgent => match portMap.right key with
      | some name => .ok name
      | none => .error (missing "SONiC name")

structure TranslateTableEntryOptions where
  direction : TranslationDirection
  irP4Info : IrP4Info
  translatePortIds : Bool
  portMap : PortMap
  cpuQueueTranslator : QueueTranslator
  frontPanelQueueTranslator : QueueTranslator

def isPortType (typeName : String) : Bool := typeName = "port_id_t"

def isCpuQueue (typeName : String) : Bool := typeName = "qos_queue_t" || typeName = "cpu_queue_t"

def isFrontPanelQueue (typeName : String) : Bool := typeName = "unicast_queue_t" || typeName = "multicast_queue_t"

def translatePortValue (direction : TranslationDirection) (portMap : PortMap) (value : IrValue) : StatusOr IrValue :=
  match value with
  | .str s => (translatePort direction portMap (utf8 s)).map .str
  | other => .error (invalidArgument ("Port value must use Format::STRING, but found " ++ natText other.formatCase ++
      " instead."))

def optionallyTranslateQueue (direction : TranslationDirection) (translator : QueueTranslator) (value : IrValue) :
    StatusOr IrValue :=
  match value with
  | .str s => match direction with
    | .forController => (translator.optionallyTranslateIdToName s).map .str
    | .forOrchAgent => .ok (.str (translator.optionallyTranslateNameToIdInHexString s))
  | other => .error (invalidArgument ("Queue must use Format::STRING, but found " ++ natText other.formatCase ++
      " instead."))

def translateActionParam (options : TranslateTableEntryOptions) (action : IrActionDefinition) (actionName : String)
    (param : IrActionParam) : StatusOr IrActionParam :=
  match action.paramsByName.lookup param.name with
  | none => .error ⟨.internal,"Could not find action param definition for " ++ param.name ++ "."⟩
  | some d =>
    if options.translatePortIds && isPortType d.param.typeName then
      match translatePortValue options.direction options.portMap param.value with
      | .ok value => .ok ⟨param.name,value⟩
      | .error status => .error (status.annotate (" Found in action parameter '" ++ param.name ++ "' of action '" ++
          actionName ++ "'."))
    else if isCpuQueue d.param.typeName then
      (optionallyTranslateQueue options.direction options.cpuQueueTranslator param.value).map (⟨param.name,·⟩)
    else if isFrontPanelQueue d.param.typeName then
      (optionallyTranslateQueue options.direction options.frontPanelQueueTranslator param.value).map (⟨param.name,·⟩)
    else .ok param

def translateAction (options : TranslateTableEntryOptions) (table : IrTableDefinition) (action : IrActionInvocation) :
    StatusOr IrActionInvocation :=
  match table.entryActions.find? fun a => a.preamble.aliasName = action.name with
  | none => .error ⟨.internal,"Could not find action definition for " ++ action.name ++ "."⟩
  | some d => (action.params.mapM (translateActionParam options d action.name)).map (⟨action.name,·⟩)

def translateActionSetInvocation (options : TranslateTableEntryOptions) (table : IrTableDefinition)
    (a : IrActionSetInvocation) : StatusOr IrActionSetInvocation := do
  let action ← translateAction options table a.action
  if options.translatePortIds && !a.watchPort.isEmpty then
    let port ← translatePort options.direction options.portMap a.watchPort
    .ok ⟨action,a.weight,utf8 port⟩
  else .ok ⟨action,a.weight,a.watchPort⟩

def translateActionSet (options : TranslateTableEntryOptions) (table : IrTableDefinition)
    (actions : List IrActionSetInvocation) : StatusOr (List IrActionSetInvocation) :=
  actions.mapM (translateActionSetInvocation options table)

def translatePortInMatchField (direction : TranslationDirection) (portMap : PortMap) (m : IrMatch) : StatusOr IrMatch :=
  let found (status : Status) := status.annotate (" Found in match field '" ++ m.name ++ "'.")
  match m.value with
  | .exact value => ((translatePortValue direction portMap value).mapError found).map (⟨m.name,.exact ·⟩)
  | .optional value => ((translatePortValue direction portMap value).mapError found).map (⟨m.name,.optional ·⟩)
  | _ => .error (invalidArgument ("The port match field is not an exact or optional match type: " ++ m.name))

def translateMatchField (options : TranslateTableEntryOptions) (table : IrTableDefinition) (m : IrMatch) :
    StatusOr IrMatch :=
  match table.matchFieldsByName.lookup m.name with
  | none => .error ⟨.internal,"Could not find match field definition for " ++ m.name ++ "."⟩
  | some d =>
    if options.translatePortIds && isPortType d.matchField.typeName then
      translatePortInMatchField options.direction options.portMap m
    else .ok m

def translateEntryType (options : TranslateTableEntryOptions) (table : IrTableDefinition) (type : IrTableEntryType) :
    StatusOr IrTableEntryType :=
  match type with
  | .action a => (translateAction options table a).map .action
  | .actionSet actions => (translateActionSet options table actions).map .actionSet
  | .notSet => .ok .notSet

def translateTableEntry (options : TranslateTableEntryOptions) (entry : IrTableEntry) : StatusOr IrTableEntry :=
  match options.irP4Info.tablesByName.lookup entry.tableName with
  | none => .error ⟨.internal,"Could not find table definition for " ++ entry.tableName ++ "."⟩
  | some table => do
    let ms ← entry.matches_.mapM (translateMatchField options table)
    let type ← translateEntryType options table entry.type
    .ok { entry with matches_ := ms,type := type }

def translatePortInReplica (options : TranslateTableEntryOptions) (replica : IrReplica) : StatusOr IrReplica :=
  if options.translatePortIds then do
    let port ← translatePort options.direction options.portMap replica.port
    let backups ← replica.backupReplicas.mapM fun b =>
      (translatePort options.direction options.portMap b.port).map fun port => (⟨utf8 port,b.instanceId⟩ : IrBackupReplica)
    .ok ⟨utf8 port,replica.instanceId,backups⟩
  else .ok replica

/-- Writing to the multicast group of a clone session replaces the session by an
empty group. -/
def mutableMulticastGroupEntry : IrPacketReplicationEngineEntry → IrMulticastGroupEntry
  | .multicastGroupEntry e => e
  | .cloneSessionEntry _ => {}

def translatePacketReplicationEntry (options : TranslateTableEntryOptions) (entry : IrPacketReplicationEngineEntry) :
    StatusOr IrPacketReplicationEngineEntry :=
  let group := mutableMulticastGroupEntry entry
  (group.replicas.mapM (translatePortInReplica options)).map fun replicas =>
    .multicastGroupEntry { group with replicas := replicas }

variable [InetText]

/-- A ternary IPv6 match whose mask has no upper bits is taken to be shifted right
by 64 bits, and is shifted back. -/
def convert64BitIpv6AclMatchFieldTo128Bit (m : IrMatch) : IrMatch :=
  match m.value with
  | .ternary (.ipv6 value) mask =>
    let maskText := match mask with
      | .ipv6 s => s
      | _ => ""
    match Ipv6Address.ofString value,Ipv6Address.ofString maskText with
    | .ok v,.ok k =>
      if k >>> 64 = 0 then
        ⟨m.name,.ternary (.ipv6 (Ipv6Address.toString (v <<< 64))) (.ipv6 (Ipv6Address.toString (k <<< 64)))⟩
      else m
    | _,_ => m
  | _ => m

def convert64BitIpv6AclMatchFieldsTo128Bit (entry : IrTableEntry) : IrTableEntry :=
  { entry with matches_ := entry.matches_.map convert64BitIpv6AclMatchFieldTo128Bit }

def updateIrEntityForOrchAgent (options : TranslateTableEntryOptions) (entity : IrEntity) : StatusOr IrEntity :=
  match entity with
  | .tableEntry e => (translateTableEntry options (convert64BitIpv6AclMatchFieldsTo128Bit e)).map .tableEntry
  | .packetReplicationEngineEntry e =>
    (translatePacketReplicationEntry options e).map .packetReplicationEngineEntry

end SonicPins.P4rtApp
