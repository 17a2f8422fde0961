import Mathlib.Data.List.AList
import SonicPins.Sonic.AppDbDecoding

/-! The contents of the AppDb, what updates do to it, and the entries read from it. -/
namespace SonicPins.Sonic
open Lib Pdpi P4rtApp

/-- The rows of a table by their keys; every row has its fields once, in any order. -/
abbrev DbTable := AList fun _ : String => List FieldValue

def getRow (t : DbTable) (key : String) : List FieldValue := (t.lookup key).getD []

/-- The tables that entities are written to, and the counters kept for their keys. -/
structure AppDb where
  p4rt : DbTable := ∅
  vrf : DbTable := ∅
  vlan : DbTable := ∅
  vlanMember : DbTable := ∅
  counters : String → List FieldValue := fun _ => []

/-- A row that is set replaces the former one. -/
def applyToTable (t : DbTable) (u : KeyOpFieldsValues) : DbTable :=
  match u.op with
  | .set => t.insert u.key u.values
  | .del => t.erase u.key

def AppDb.apply (db : AppDb) (u : AppDbUpdate) : AppDb :=
  match u.table with
  | .p4rt => { db with p4rt := applyToTable db.p4rt u.update }
  | .vrfTable => { db with vrf := applyToTable db.vrf u.update }
  | .vlanTable => { db with vlan := applyToTable db.vlan u.update }
  | .vlanMemberTable => { db with vlanMember := applyToTable db.vlanMember u.update }

def setPacketCount (c : Option CounterData) (n : Int) : Option CounterData :=
  some { c.getD {} with packetCount := Int64.ofInt n }

def setByteCount (c : Option CounterData) (n : Int) : Option CounterData :=
  some { c.getD {} with byteCount := Int64.ofInt n }

def appendMeterCounter (field : String) (n : Int) (m : MeterCounterData) : Option MeterCounterData :=
  if field = "green_packets" then some { m with green := setPacketCount m.green n }
  else if field = "green_bytes" then some { m with green := setByteCount m.green n }
  else if field = "yellow_packets" then some { m with yellow := setPacketCount m.yellow n }
  else if field = "yellow_bytes" then some { m with yellow := setByteCount m.yellow n }
  else if field = "red_packets" then some { m with red := setPacketCount m.red n }
  else if field = "red_bytes" then some { m with red := setByteCount m.red n }
  else none

/-- Adds one counter; a value that is no number is skipped. -/
def appendCounter (entry : IrTableEntry) (counter : FieldValue) : IrTableEntry :=
  match (ofUtf8? counter.2).bind simpleAtoiU64 with
  | none => entry
  | some n =>
    let entry :=
      if counter.1 = "packets" then { entry with counterData := setPacketCount entry.counterData n }
      else if counter.1 = "bytes" then { entry with counterData := setByteCount entry.counterData n }
      else entry
    if entry.meterConfig.isNone then entry
    else match appendMeterCounter counter.1 n (entry.meterCounterData.getD {}) with
      | none => entry
      | some m => { entry with meterCounterData := some m }

def appendCounterData (entry : IrTableEntry) (counters : List FieldValue) : IrTableEntry := counters.foldl appendCounter entry

def getAllP4TableEntryKeys (t : DbTable) : List String :=
  t.keys.filter fun key => match strSplit ':' key with
    | tableName :: _ :: _ =>
      !(tableName = aclTableDefinitionName || tableName = tablesDefinitionTableName || tableName = replicationIpMulticastTableName)
    | _ => true

def p4rtTablePrefix : String := "P4RT_TABLE:"

/-- Only ACL entries have counters. -/
def readP4TableEntry (info : IrP4Info) (db : AppDb) (key : String) : Fallible IrTableEntry := do
  let entry ← appDbKeyAndValuesToIrTableEntry info key (getRow db.p4rt key)
  if (strDropPrefix (TableType.typeName .acl) key).isSome then .ok (appendCounterData entry (db.counters (p4rtTablePrefix ++ key)))
  else .ok entry

def vrfTableEntry (key : String) : IrTableEntry where
  tableName := "vrf_table"
  matches_ := [⟨"vrf_id",.exact (.str key)⟩]
  type := .action { name := "no_action" }

def getAllAppDbVrfTableEntries (t : DbTable) : List IrTableEntry := t.keys.map vrfTableEntry

def stripVlanPrefixAndReturnHexString (appDbKey : String) : StatusOr String :=
  match strDropPrefix "Vlan" appDbKey with
  | none => .error (invalidArgument ("Invalid VLAN_TABLE App DB key: '" ++ appDbKey ++ "'. Expecting Vlan<id>"))
  | some id => match simpleAtoiU32 id with
    | none => .error (invalidArgument ("Failed to convert AppDB key to vlan ID: " ++ appDbKey))
    | some n =>
      if 4095 < n then .error (invalidArgument ("Vlan ID is outside allowed range of [0:4095]: " ++ appDbKey))
      else .ok ("0x" ++ hexPadded 3 n.toNat)

def extractVlanIdAndPortIdFromMemberKey (appDbKey : String) : StatusOr (String × String) :=
  match strSplit ':' appDbKey with
  | [vlan,port] => (stripVlanPrefixAndReturnHexString vlan).map (·,port)
  | _ => .error (invalidArgument ("Failed to parse VLAN_MEMBER_TABLE AppDB key: " ++ appDbKey))

/-- The metadata of a row; the last field of the name counts. -/
def rowMetadata (values : List FieldValue) : Bytes := (lastField values "controller_metadata").getD []

def vlanTableEntry (key : String) (values : List FieldValue) : StatusOr IrTableEntry := do
  let vlanId ← stripVlanPrefixAndReturnHexString key
  .ok { tableName := "vlan_table",matches_ := [⟨"vlan_id",.exact (.hexStr vlanId)⟩],type := .action { name := "no_action" },
        controllerMetadata := rowMetadata values }

def getAllAppDbVlanTableEntries (t : DbTable) : StatusOr (List IrTableEntry) :=
  t.keys.mapM fun key => vlanTableEntry key (getRow t key)

def isTagged (values : List FieldValue) : Bool := values.any fun v => v.1 = "tagging_mode" && v.2 = utf8 "tagged"

def vlanMemberTableEntry (key : String) (values : List FieldValue) : StatusOr IrTableEntry := do
  let (vlanId,portId) ← extractVlanIdAndPortIdFromMemberKey key
  .ok { tableName := "vlan_membership_table",
        matches_ := [⟨"vlan_id",.exact (.hexStr vlanId)⟩,⟨"port",.exact (.str portId)⟩],
        type := .action { name := if isTagged values then "make_tagged_member" else "make_untagged_member" },
        controllerMetadata := rowMetadata values }

def getAllAppDbVlanMemberTableEntries (t : DbTable) : StatusOr (List IrTableEntry) :=
  t.keys.mapM fun key => vlanMemberTableEntry key (getRow t key)

def getAllPacketReplicationTableEntryKeys (t : DbTable) : List String :=
  t.keys.filter fun key => (strDropPrefix replicationTablePrefix key).isSome

def stripTableName (appDbKey : String) : StatusOr String :=
  match strDropPrefix replicationTablePrefix appDbKey with
  | none => .error (invalidArgument ("Invalid packet replication App DB key " ++ appDbKey))
  | some id => .ok id

def parseJson (text : Bytes) : StatusOr Json :=
  match (ofUtf8? text).bind Json.parse with
  | none => .error ⟨.internal,"Could not parse JSON string: " ++ (ofUtf8? text).getD (cEscape text)⟩
  | some json => .ok json

/-- A member of a JSON object, none for any other value. -/
def jsonFind? (j : Json) (key : String) : Option Json :=
  match j with
  | .obj members => members.lookup key
  | _ => none

def parseJsonReplica (j : Json) : Fallible (String × UInt32) :=
  match jsonFind? j "multicast_replica_port" with
  | none => .error (.status (invalidArgument ("JSON replica is missing multicast_replica_port: " ++ j.dump)))
  | some port => do
    let port ← getString port
    match jsonFind? j "multicast_replica_instance" with
    | none => .error (.status (invalidArgument ("JSON replica is missing multicast_replica_instance: " ++ j.dump)))
    | some inst => do
      let inst ← getString inst
      match simpleHexAtoiU32 inst with
      | none => .error (.status (invalidArgument ("Failed to parse multicast_replica_instance in JSON replica " ++ j.dump)))
      | some n => .ok (port,UInt32.ofNat n.toNat)

def appDbReplica (j : Json) : Fallible IrReplica := (parseJsonReplica j).map fun r => { port := utf8 r.1,instanceId := r.2 }

def appDbBackupReplica (j : Json) : Fallible IrBackupReplica := (parseJsonReplica j).map fun r => ⟨utf8 r.1,r.2⟩

/-- One field of a row: replicas and backups accumulate. -/
def appDbReplicationField (acc : IrMulticastGroupEntry × List (List IrBackupReplica)) (field : FieldValue) :
    Fallible (IrMulticastGroupEntry × List (List IrBackupReplica)) :=
  if field.1 = "replicas" then do
    let json ← orFail (parseJson field.2)
    let replicas ← json.elements.mapM appDbReplica
    .ok ({ acc.1 with replicas := acc.1.replicas ++ replicas },acc.2)
  else if field.1 = "backups" then do
    let json ← orFail (parseJson field.2)
    let backups ← json.elements.mapM fun j => j.elements.mapM appDbBackupReplica
    .ok (acc.1,acc.2 ++ backups)
  else if field.1 = "controller_metadata" then .ok ({ acc.1 with metadata := field.2 },acc.2)
  else .ok acc

def addBackups (replicas : List IrReplica) (backups : List (List IrBackupReplica)) : List IrReplica :=
  List.zipWith (fun r b => { r with backupReplicas := r.backupReplicas ++ b }) replicas backups

def appDbReplicationEntry (key : String) (values : List FieldValue) : Fallible IrMulticastGroupEntry := do
  let id ← orFail (stripTableName key)
  match simpleHexAtoiU32 id with
  | none => .error (.status (invalidArgument
      ("Failed to parse multicast_group_id from App DB packet replication entry key '" ++ key)))
  | some id => do
    let (entry,backups) ← values.foldlM appDbReplicationField ({ multicastGroupId := UInt32.ofNat id.toNat },[])
    if backups.isEmpty then .ok entry
    else if entry.replicas.length ≠ backups.length then .error (.status (invalidArgument
      ("Backup replicas size " ++ natText backups.length ++ " does not match replica size " ++ natText entry.replicas.length)))
    else .ok { entry with replicas := addBackups entry.replicas backups }

def getAllAppDbPacketReplicationTableEntries (t : DbTable) : Fallible (List IrPacketReplicationEngineEntry) :=
  (getAllPacketReplicationTableEntryKeys t).mapM fun key => (appDbReplicationEntry key (getRow t key)).map .multicastGroupEntry

end SonicPins.Sonic
