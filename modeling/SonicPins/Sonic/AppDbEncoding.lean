import SonicPins.Lib.Json
import SonicPins.P4rtApp.IrTranslation

/-! The AppDb rows that entities are written to: table, key and field values. -/
namespace SonicPins.Sonic
open Lib Pdpi P4rtApp

inductive AppDbTableType where
  | p4rt | vrfTable | vlanTable | vlanMemberTable
  deriving DecidableEq,Repr

/-- The operations of a `swss::KeyOpFieldsValuesTuple` that the updates use. -/
inductive Command where
  | set | del
  deriving DecidableEq,Repr

/-- `swss::FieldValueTuple`; a value need not be text. -/
abbrev FieldValue := String × Bytes

structure KeyOpFieldsValues where
  key : String
  op : Command
  values : List FieldValue := []
  deriving DecidableEq,Repr

structure AppDbUpdate where
  table : AppDbTableType
  update : KeyOpFieldsValues
  deriving DecidableEq,Repr

def textField (field value : String) : FieldValue := (field,utf8 value)

/-- `table::Type` of the tables that hold entries. -/
inductive TableType where
  | acl | fixed | ext
  deriving DecidableEq,Repr

def TableType.typeName : TableType → String
  | .acl => "ACL"
  | .fixed => "FIXED"
  | .ext => "EXT"

def aclTableDefinitionName : String := "ACL_TABLE_DEFINITION_TABLE"

def tablesDefinitionTableName : String := "TABLES_DEFINITION_TABLE"

def replicationIpMulticastTableName : String := "REPLICATION_IP_MULTICAST_TABLE"

/-- The tables that OrchAgent knows as fixed tables. -/
def fixedTables : List String :=
  ["FIXED_ROUTER_INTERFACE_TABLE","FIXED_NEIGHBOR_TABLE","FIXED_NEXTHOP_TABLE","FIXED_WCMP_GROUP_TABLE",
    "FIXED_IPV4_TABLE","FIXED_IPV6_TABLE","FIXED_MIRROR_SESSION_TABLE","FIXED_L3_ADMIT_TABLE","FIXED_TUNNEL_TABLE"]

def isAnnotationSpace (c : Char) : Bool := c = ' ' || c = '\t' || c = '\n' || c = '\r'

/-- Label and body of a well formed annotation. -/
def parseAnnotation (line : String) : Option (String × String) :=
  match line.toList.dropWhile isAnnotationSpace with
  | '@' :: rest =>
    let inLabel (c : Char) := !isAnnotationSpace c && c ≠ '(' && c ≠ ')'
    let label := rest.takeWhile inLabel
    if label.isEmpty then none
    else match (rest.dropWhile inLabel).dropWhile isAnnotationSpace with
      | [] => some (String.ofList label,"")
      | '(' :: body => match body.reverse.dropWhile isAnnotationSpace with
        | ')' :: text => some (String.ofList label,String.ofList text.reverse)
        | _ => none
      | _ => none
  | _ => none

def getAnnotationBody (label : String) (annotations : List String) : StatusOr String :=
  match (annotations.filterMap parseAnnotation).filter fun a => a.1 = label with
  | [] => .error ⟨.notFound,"No annotations contained label \"" ++ label ++ "\""⟩
  | [a] => .ok a.2
  | _ => .error (invalidArgument ("Multiple annotations contained label \"" ++ label ++ "\""))

def getTableType (table : IrTableDefinition) : StatusOr TableType :=
  match getAnnotationBody "sai_acl" table.preamble.annotations with
  | .ok _ => .ok .acl
  | .error status =>
    if status.code = .notFound then
      if asciiToUpper ("FIXED_" ++ table.preamble.aliasName) ∈ fixedTables then .ok .fixed
      else if table.preamble.id > 0x03000000 then .ok .ext
      else .ok .fixed
    else .error (invalidArgument ("Failed to determine table type: " ++ status.message))

def irValueToAppDbString : IrValue → StatusOr String
  | .hexStr s => .ok s
  | .ipv4 s => .ok s
  | .ipv6 s => .ok s
  | .mac s => .ok s
  | .str s => .ok s
  | .notSet => .error (invalidArgument "Unsupported IrValue type: ")

/-- The value of a match in the JSON key. -/
def irMatchToAppDbString (m : IrMatch) : StatusOr String :=
  match m.value with
  | .exact value => irValueToAppDbString value
  | .lpm value prefixLength => (irValueToAppDbString value).map fun v => v ++ "/" ++ decimal prefixLength.toInt
  | .ternary value mask => do
    let v ← irValueToAppDbString value
    let k ← irValueToAppDbString mask
    .ok (v ++ "&" ++ k)
  | .optional value => irValueToAppDbString value
  | .notSet => .error ⟨.unimplemented,"Could not translate 0 type: name: \"" ++ m.name ++ "\""⟩

/-- The members of a JSON key, a null value when there are none. -/
def appDbKeyJson (priority : Int32) (fields : List (String × String)) : Json :=
  fields.foldl (fun json f => json.set ("match/" ++ f.1) (.str f.2))
    (if priority > 0 then Json.null.set "priority" (.num priority.toInt) else .null)

def irTableEntryToAppDbKey (entry : IrTableEntry) : StatusOr String :=
  (entry.matches_.mapM fun m => (irMatchToAppDbString m).map (m.name,·)).map fun fields =>
    (appDbKeyJson entry.priority fields).dump

def getRedisP4rtTableKey (entry : IrTableEntry) (info : IrP4Info) : StatusOr String :=
  match info.tablesByName.lookup entry.tableName with
  | none => .error ⟨.internal,"Table name '" ++ entry.tableName ++ "' does not exist"⟩
  | some table => do
    let type ← getTableType table
    let jsonKey ← irTableEntryToAppDbKey entry
    .ok (asciiToUpper (type.typeName ++ "_" ++ entry.tableName ++ ":") ++ jsonKey)

def appDbParams (a : IrActionInvocation) : StatusOr (List (String × String)) :=
  a.params.mapM fun p => (irValueToAppDbString p.value).map ("param/" ++ p.name,·)

def irActionInvocationToAppDbValues (a : IrActionInvocation) : StatusOr (List FieldValue) :=
  (appDbParams a).map fun params => textField "action" a.name :: params.map fun p => textField p.1 p.2

/-- Text inside JSON; dumping bytes that are not UTF-8 throws. -/
def jsonText (b : Bytes) : Fallible String :=
  match ofUtf8? b with
  | some s => .ok s
  | none => .error (.thrown "[json.exception.type_error.316] invalid UTF-8 byte")

def irActionSetInvocationToJsonValue (a : IrActionSetInvocation) (params : List (String × String)) (watchPort : String) :
    Json :=
  let json := (Json.null.set "action" (.str a.action.name)).set "weight" (.num a.weight.toInt)
  let json := if watchPort.isEmpty then json else json.set "watch_port" (.str watchPort)
  params.foldl (fun json p => json.set p.1 (.str p.2)) json

def irActionSetToAppDbValues (actions : List IrActionSetInvocation) : Fallible (List FieldValue) := do
  let params ← orFail (actions.mapM fun a => appDbParams a.action)
  let ports ← actions.mapM fun a => jsonText a.watchPort
  let jsons := List.zipWith (fun a (p : List (String × String) × String) => irActionSetInvocationToJsonValue a p.1 p.2)
    actions (params.zip ports)
  .ok [textField "actions" (Json.arr jsons).dump]

def p4MeterConfigToAppDbValues (m : MeterConfig) : List FieldValue :=
  let member (field : String) (value : Int64) := if value = 0 then [] else [textField field (decimal value.toInt)]
  member "meter/cir" m.cir ++ member "meter/cburst" m.cburst ++ member "meter/pir" m.pir ++ member "meter/pburst" m.pburst

def metadataField (metadata : Bytes) : List FieldValue :=
  if metadata.isEmpty then [] else [("controller_metadata",metadata)]

def irActionToAppDbValues : IrTableEntryType → Fallible (List FieldValue)
  | .action a => orFail (irActionInvocationToAppDbValues a)
  | .actionSet actions => irActionSetToAppDbValues actions
  | .notSet => .error (.status (invalidArgument "Unsupported IrTableEntry type: "))

def meterField : Option MeterConfig → List FieldValue
  | some m => p4MeterConfigToAppDbValues m
  | none => []

def irTableEntryToAppDbValues (entry : IrTableEntry) : Fallible (List FieldValue) :=
  (irActionToAppDbValues entry.type).map fun action =>
    action ++ meterField entry.meterConfig ++ metadataField entry.controllerMetadata

def UpdateType.typeName : UpdateType → String
  | .unspecified => "UNSPECIFIED"
  | .insert => "INSERT"
  | .modify => "MODIFY"
  | .delete => "DELETE"
  | .unknown _ => ""

def UpdateType.number : UpdateType → Int
  | .unspecified => 0
  | .insert => 1
  | .modify => 2
  | .delete => 3
  | .unknown n => n.toInt

def createAppDbP4rtUpdate (type : UpdateType) (entry : IrTableEntry) (info : IrP4Info) : Fallible KeyOpFieldsValues := do
  let key ← orFail (getRedisP4rtTableKey entry info)
  match type with
  | .insert | .modify => (irTableEntryToAppDbValues entry).map fun values => ⟨key,.set,values⟩
  | .delete => .ok ⟨key,.del,[]⟩
  | other => .error (.status (invalidArgument ("[P4RT App] Unsupported update type: " ++ UpdateType.typeName other)))

/-- `match.exact().str()`, empty for any other value. -/
def IrMatch.exactStr (m : IrMatch) : String :=
  match m.value with
  | .exact (.str s) => s
  | _ => ""

/-- `match.exact().hex_str()`, empty for any other value. -/
def IrMatch.exactHexStr (m : IrMatch) : String :=
  match m.value with
  | .exact (.hexStr s) => s
  | _ => ""

def unsupportedUpdateType (type : UpdateType) : Status :=
  invalidArgument ("Unsupported update type: " ++ decimal (UpdateType.number type))

def getVrfValues : List FieldValue := [textField "v4" "true",textField "v6" "true"]

def getVrfTableKey (entry : IrTableEntry) : StatusOr String :=
  match entry.matches_.find? fun m => m.name = "vrf_id" with
  | none => .error (invalidArgument "Could not find match field 'vrf_id' in VRF_TABLE entry.")
  | some m =>
    if (IrMatch.exactStr m).isEmpty then .error (invalidArgument "Operations on the Default VRF '' are not allowed.")
    else .ok (IrMatch.exactStr m)

def createAppDbVrfUpdate (type : UpdateType) (entry : IrTableEntry) : StatusOr KeyOpFieldsValues := do
  let key ← getVrfTableKey entry
  match type with
  | .insert => .ok ⟨key,.set,getVrfValues⟩
  | .modify => .error (invalidArgument "Modifing VRF_TABLE entries is not allowed.")
  | .delete => .ok ⟨key,.del,[]⟩
  | other => .error (unsupportedUpdateType other)

/-- The SONiC name of a VLAN id given as a hex string. -/
def vlanName (hexStr : String) : StatusOr String :=
  match simpleHexAtoiU32 hexStr with
  | none => .error (invalidArgument ("Failed to parse VLAN ID as a hex string " ++ hexStr))
  | some id =>
    if id > 4094 ∨ id < 1 then
      .error (invalidArgument ("VLAN ID is not in allowed range of [1:4094]: " ++ hexStr))
    else .ok ("Vlan" ++ decimal id)

def getVlanTableKey (entry : IrTableEntry) : StatusOr String :=
  match entry.matches_.find? fun m => m.name = "vlan_id" with
  | none => .error (invalidArgument "Could not find match field 'vlan_id' in VLAN_TABLE entry: ")
  | some m => vlanName (IrMatch.exactHexStr m)

/-- VLAN and port of a member, from all its matches in order. -/
def vlanMemberMatches (ms : List IrMatch) : StatusOr (String × String) :=
  ms.foldlM (fun acc m =>
    if m.name = "vlan_id" then (vlanName (IrMatch.exactHexStr m)).map (·,acc.2)
    else if m.name = "port" then .ok (acc.1,IrMatch.exactStr m)
    else .ok acc) ("","")

def getVlanMemberTableKey (entry : IrTableEntry) : StatusOr String := do
  let (vlan,port) ← vlanMemberMatches entry.matches_
  if vlan.isEmpty || port.isEmpty then
    .error (invalidArgument "Could not find match field 'vlan_id' and/or 'port' in VLAN_MEMBER_TABLE entry: ")
  else .ok (vlan ++ ":" ++ port)

def getVlanValues (entry : IrTableEntry) : List FieldValue :=
  textField "source" "P4" :: metadataField entry.controllerMetadata

/-- `entry.action().name()`, empty without an action. -/
def entryActionName (entry : IrTableEntry) : String :=
  match entry.type with
  | .action a => a.name
  | _ => ""

def getVlanMemberValues (entry : IrTableEntry) : List FieldValue :=
  [textField "source" "P4",
    textField "tagging_mode" (if entryActionName entry = "make_tagged_member" then "tagged" else "untagged")] ++
  metadataField entry.controllerMetadata

def createAppDbVlanUpdate (type : UpdateType) (entry : IrTableEntry) : StatusOr KeyOpFieldsValues := do
  let key ← getVlanTableKey entry
  match type with
  | .insert => .ok ⟨key,.set,getVlanValues entry⟩
  | .modify => .error (invalidArgument "Modifing VLAN_TABLE entries is not allowed.")
  | .delete => .ok ⟨key,.del,[]⟩
  | other => .error (unsupportedUpdateType other)

def createAppDbVlanMemberUpdate (type : UpdateType) (entry : IrTableEntry) : StatusOr KeyOpFieldsValues := do
  let key ← getVlanMemberTableKey entry
  match type with
  | .insert | .modify => .ok ⟨key,.set,getVlanMemberValues entry⟩
  | .delete => .ok ⟨key,.del,[]⟩
  | other => .error (unsupportedUpdateType other)

def replicationTablePrefix : String := replicationIpMulticastTableName ++ ":"

def irMulticastGroupEntryToAppDbKey (e : IrMulticastGroupEntry) : String := "0x" ++ hexPadded 4 e.multicastGroupId.toNat

def getRedisPacketReplicationTableKey (entry : IrPacketReplicationEngineEntry) : String :=
  replicationTablePrefix ++ irMulticastGroupEntryToAppDbKey (mutableMulticastGroupEntry entry)

def replicaJson (port : String) (instanceId : UInt32) : Json :=
  (Json.null.set "multicast_replica_port" (.str port)).set "multicast_replica_instance"
    (.str ("0x" ++ hexPadded 4 instanceId.toNat))

/-- The JSON array of replicas, of which a bad port makes the dump throw. -/
def replicasJson (replicas : List (Bytes × UInt32)) : Fallible Json :=
  (replicas.mapM fun r => (jsonText r.1).map fun port => replicaJson port r.2).map .arr

/-- The backups are written for all replicas as soon as one has any. -/
def createFieldValues (e : IrMulticastGroupEntry) : Fallible (List FieldValue) := do
  let replicas ← replicasJson (e.replicas.map fun r => (r.port,r.instanceId))
  let backups ← e.replicas.mapM fun r => replicasJson (r.backupReplicas.map fun b => (b.port,b.instanceId))
  let backupField := if e.replicas.all fun r => r.backupReplicas.isEmpty then []
    else [textField "backups" (Json.arr backups).dump]
  .ok (textField "replicas" replicas.dump :: backupField ++ metadataField e.metadata)

def createAppDbPacketReplicationTableUpdate (type : UpdateType) (entry : IrPacketReplicationEngineEntry) :
    Fallible KeyOpFieldsValues :=
  let key := getRedisPacketReplicationTableKey entry
  match type with
  | .insert | .modify => (createFieldValues (mutableMulticastGroupEntry entry)).map fun values => ⟨key,.set,values⟩
  | .delete => .ok ⟨key,.del,[]⟩
  | other => .error (.status (invalidArgument ("[P4RT App] Unsupported update type " ++ UpdateType.typeName other)))

def tableTypeOfName (name : String) : AppDbTableType :=
  if name = "vrf_table" then .vrfTable
  else if name = "vlan_table" then .vlanTable
  else if name = "vlan_membership_table" then .vlanMemberTable
  else .p4rt

def getAppDbTableType : IrEntity → AppDbTableType
  | .tableEntry e => tableTypeOfName e.tableName
  | .packetReplicationEngineEntry _ => .p4rt

def createAppDbUpdate (type : UpdateType) (entity : IrEntity) (info : IrP4Info) : Fallible AppDbUpdate :=
  let update := match entity with
    | .packetReplicationEngineEntry e => createAppDbPacketReplicationTableUpdate type e
    | .tableEntry e => match tableTypeOfName e.tableName with
      | .vrfTable => orFail (createAppDbVrfUpdate type e)
      | .vlanTable => orFail (createAppDbVlanUpdate type e)
      | .vlanMemberTable => orFail (createAppDbVlanMemberUpdate type e)
      | .p4rt => createAppDbP4rtUpdate type e info
  update.map (⟨getAppDbTableType entity,·⟩)

end SonicPins.Sonic
