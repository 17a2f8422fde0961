import SonicPins.Lib.Text

/-! The P4Runtime (PI) and intermediate (IR) messages, and the P4Info in its IR
form, with the fields that the translations read or write. -/
namespace SonicPins.Pdpi
open Lib

inductive Format where
  | hexString | mac | ipv4 | ipv6 | string
  deriving DecidableEq,Repr

inductive MatchType where
  | unspecified | exact | lpm | ternary | range | optional
  deriving DecidableEq,Repr

structure Documentation where
  brief : String := ""
  description : String := ""
  deriving DecidableEq,Repr

structure SourceLocation where
  file : String := ""
  line : Int32 := 0
  column : Int32 := 0
  deriving DecidableEq,Repr

/-- `p4.config.v1.StructuredAnnotation`, by its printed form. -/
abbrev StructuredAnnotation := String

structure Preamble where
  id : UInt32
  aliasName : String
  annotations : List String := []
  name : String := ""
  annotationLocations : List SourceLocation := []
  structuredAnnotations : List StructuredAnnotation := []
  documentation : Option Documentation := none
  deriving DecidableEq,Repr

/-- `p4.config.v1.MatchField`; `typeName` is empty when the field has no named type. -/
structure MatchField where
  id : UInt32
  name : String
  bitwidth : Nat
  matchType : MatchType
  typeName : String := ""
  annotations : List String := []
  otherMatchType : Option String := none
  annotationLocations : List SourceLocation := []
  structuredAnnotations : List StructuredAnnotation := []
  documentation : Option Documentation := none
  deriving DecidableEq,Repr

/-- The table and match field that a `@refers_to` annotation names. -/
structure IrMatchFieldReference where
  table : String
  matchField : String
  deriving DecidableEq,Repr

/-- A match field of a user-defined table. -/
structure IrP4MatchField where
  fieldName : String
  fieldId : UInt32
  isOptional : Bool := false
  deriving DecidableEq,Repr

inductive IrBuiltInMatchField where
  | unspecified | multicastGroupId
  deriving DecidableEq,Repr

inductive IrMatchField where
  | notSet
  | p4MatchField (f : IrP4MatchField)
  | builtInMatchField (f : IrBuiltInMatchField)
  deriving DecidableEq,Repr

/-- A parameter of a user-defined action. -/
structure IrP4ActionField where
  actionName : String
  actionId : UInt32
  parameterName : String
  parameterId : UInt32
  deriving DecidableEq,Repr

inductive IrBuiltInAction where
  | unspecified | replica
  deriving DecidableEq,Repr

inductive IrBuiltInParameter where
  | unspecified | replicaPort | replicaInstance
  deriving DecidableEq,Repr

structure IrBuiltInActionField where
  action : IrBuiltInAction
  parameter : IrBuiltInParameter
  deriving DecidableEq,Repr

inductive IrActionField where
  | notSet
  | p4ActionField (f : IrP4ActionField)
  | builtInActionField (f : IrBuiltInActionField)
  deriving DecidableEq,Repr

inductive IrField where
  | notSet
  | matchField (f : IrMatchField)
  | actionField (f : IrActionField)
  deriving DecidableEq,Repr

inductive IrBuiltInTable where
  | unspecified | multicastGroupTable | cloneSessionTable
  deriving DecidableEq,Repr

inductive IrTable where
  | notSet
  | p4Table (tableName : String) (tableId : UInt32)
  | builtInTable (table : IrBuiltInTable)
  deriving DecidableEq,Repr

/-- `IrTableReference.FieldReference`. -/
structure FieldReference where
  source : IrField
  destination : IrField
  deriving DecidableEq,Repr

/-- All references from the fields of one table to those of another. -/
structure IrTableReference where
  sourceTable : IrTable
  destinationTable : IrTable
  fieldReferences : List FieldReference
  deriving DecidableEq,Repr

structure IrBuiltInTableDefinition where
  incomingReferences : List IrTableReference := []
  outgoingReferences : List IrTableReference := []
  deriving DecidableEq,Repr

structure IrMatchFieldDefinition where
  matchField : MatchField
  format : Format := .hexString
  isUnsupported : Bool := false
  references : List IrMatchFieldReference := []
  deriving DecidableEq,Repr

/-- `p4.config.v1.Action.Param`. -/
structure ActionParam where
  id : UInt32
  name : String
  bitwidth : Nat
  typeName : String := ""
  annotations : List String := []
  annotationLocations : List SourceLocation := []
  structuredAnnotations : List StructuredAnnotation := []
  documentation : Option Documentation := none
  deriving DecidableEq,Repr

structure IrActionParamDefinition where
  param : ActionParam
  format : Format := .hexString
  references : List IrMatchFieldReference := []
  deriving DecidableEq,Repr

structure IrActionDefinition where
  preamble : Preamble
  paramsById : List (UInt32 × IrActionParamDefinition) := []
  paramsByName : List (String × IrActionParamDefinition) := []
  isUnsupported : Bool := false
  deriving DecidableEq,Repr

/-- `p4.config.v1.ActionProfile`; `sumOfMembers` is the maximal member weight when
the profile has SumOfMembers semantics, and `sumOfWeights` tells whether SumOfWeights
semantics are set. -/
structure ActionProfile where
  preamble : Preamble
  size : Int := 0
  maxGroupSize : Int := 0
  sumOfMembers : Option Int := none
  tableIds : List UInt32 := []
  withSelector : Bool := false
  sumOfWeights : Bool := false
  deriving DecidableEq,Repr

/-- `p4.config.v1.MeterSpec.Unit`. -/
inductive MeterUnit where
  | unspecified | bytes | packets | unknown (n : Int32)
  deriving DecidableEq,Repr

/-- `p4.config.v1.CounterSpec.Unit`. -/
inductive CounterUnit where
  | unspecified | bytes | packets | both | unknown (n : Int32)
  deriving DecidableEq,Repr

/-- `entryActions` and `defaultOnlyActions` keep the action of each `IrActionReference`. -/
structure IrTableDefinition where
  preamble : Preamble
  matchFieldsById : List (UInt32 × IrMatchFieldDefinition) := []
  matchFieldsByName : List (String × IrMatchFieldDefinition) := []
  entryActions : List IrActionDefinition := []
  usesOneshot : Bool := false
  actionProfileId : Option UInt32 := none
  requiresPriority : Bool := false
  hasMeter : Bool := false
  hasCounter : Bool := false
  role : String := ""
  isUnsupported : Bool := false
  size : Int64 := 0
  incomingReferences : List IrTableReference := []
  outgoingReferences : List IrTableReference := []
  meterUnit : MeterUnit := .unspecified
  counterUnit : CounterUnit := .unspecified
  defaultOnlyActions : List IrActionDefinition := []
  constDefaultAction : Option IrActionDefinition := none
  deriving DecidableEq,Repr

/-- The multicast limits of `p4.config.v1.PlatformProperties`. -/
structure PlatformProperties where
  multicastGroupTableSize : Int32 := 0
  multicastGroupTableTotalReplicas : Int32 := 0
  multicastGroupTableMaxReplicasPerEntry : Int32 := 0
  deriving DecidableEq,Repr

/-- `p4.config.v1.ControllerPacketMetadata.Metadata`. -/
structure ControllerPacketMetadata where
  id : UInt32
  name : String
  bitwidth : Nat
  typeName : String := ""
  annotations : List String := []
  annotationLocations : List SourceLocation := []
  structuredAnnotations : List StructuredAnnotation := []
  deriving DecidableEq,Repr

/-- Padding fields are left out of the IR and are zero in the PI. -/
structure IrPacketIoMetadataDefinition where
  metadata : ControllerPacketMetadata
  format : Format := .hexString
  isPadding : Bool := false
  deriving DecidableEq,Repr

structure IrP4Info where
  tablesById : List (UInt32 × IrTableDefinition) := []
  tablesByName : List (String × IrTableDefinition) := []
  actionsById : List (UInt32 × IrActionDefinition) := []
  actionsByName : List (String × IrActionDefinition) := []
  actionProfilesById : List (UInt32 × ActionProfile) := []
  actionProfilesByName : List (String × ActionProfile) := []
  platformProperties : PlatformProperties := {}
  references : List IrMatchFieldReference := []
  builtInTables : List (String × IrBuiltInTableDefinition) := []
  packetInMetadataById : List (UInt32 × IrPacketIoMetadataDefinition) := []
  packetInMetadataByName : List (String × IrPacketIoMetadataDefinition) := []
  packetOutMetadataById : List (UInt32 × IrPacketIoMetadataDefinition) := []
  packetOutMetadataByName : List (String × IrPacketIoMetadataDefinition) := []
  dependencyRankByTableName : List (String × Int) := []
  deriving DecidableEq,Repr

structure MeterConfig where
  cir : Int64 := 0
  cburst : Int64 := 0
  pir : Int64 := 0
  pburst : Int64 := 0
  deriving DecidableEq

structure CounterData where
  byteCount : Int64 := 0
  packetCount : Int64 := 0
  deriving DecidableEq

structure MeterCounterData where
  green : Option CounterData := none
  yellow : Option CounterData := none
  red : Option CounterData := none
  deriving DecidableEq

inductive MatchValue where
  | notSet
  | exact (value : Bytes)
  | lpm (value : Bytes) (prefixLen : Int32)
  | ternary (value mask : Bytes)
  | range (low high : Bytes)
  | optional (value : Bytes)
  deriving DecidableEq

structure FieldMatch where
  fieldId : UInt32
  value : MatchValue := .notSet
  deriving DecidableEq

structure ActionParamValue where
  paramId : UInt32
  value : Bytes
  deriving DecidableEq

structure Action where
  actionId : UInt32
  params : List ActionParamValue := []
  deriving DecidableEq

/-- `p4.v1.ActionProfileAction`; `watchPort` is empty when unset. -/
structure ActionProfileAction where
  action : Action
  weight : Int32
  watchPort : Bytes := []
  deriving DecidableEq

/-- `p4.v1.TableAction`, by the case of its `type`. -/
inductive TableAction where
  | notSet
  | action (a : Action)
  | actionProfileMemberId (id : UInt32)
  | actionProfileGroupId (id : UInt32)
  | actionProfileActionSet (actions : List ActionProfileAction)
  deriving DecidableEq

structure TableEntry where
  tableId : UInt32
  matches_ : List FieldMatch := []
  priority : Int32 := 0
  action : Option TableAction := none
  meterConfig : Option MeterConfig := none
  counterData : Option CounterData := none
  meterCounterData : Option MeterCounterData := none
  metadata : Bytes := []
  deriving DecidableEq

structure BackupReplica where
  port : Bytes
  instanceId : UInt32
  deriving DecidableEq

/-- The `port_kind` of a replica. -/
inductive PortKind where
  | notSet
  | egressPort (port : UInt32)
  | port (port : Bytes)
  deriving DecidableEq

structure Replica where
  portKind : PortKind := .notSet
  instanceId : UInt32 := 0
  backupReplicas : List BackupReplica := []
  deriving DecidableEq

/-- `Replica::port()`, empty unless the port kind is `port`. -/
def Replica.port (r : Replica) : Bytes :=
  match r.portKind with
  | .port p => p
  | _ => []

structure MulticastGroupEntry where
  multicastGroupId : UInt32 := 0
  replicas : List Replica := []
  metadata : Bytes := []
  deriving DecidableEq

structure PacketMetadata where
  metadataId : UInt32
  value : Bytes
  deriving DecidableEq

/-- `p4.v1.PacketIn` and `p4.v1.PacketOut`. -/
structure PacketIo where
  payload : Bytes := []
  metadata : List PacketMetadata := []
  deriving DecidableEq

structure CloneSessionEntry where
  sessionId : UInt32 := 0
  replicas : List Replica := []
  classOfService : UInt32 := 0
  packetLengthBytes : Int32 := 0
  deriving DecidableEq

inductive PacketReplicationEngineEntry where
  | notSet
  | multicastGroupEntry (e : MulticastGroupEntry)
  | cloneSessionEntry (e : CloneSessionEntry)
  deriving DecidableEq

/-- `p4.v1.Entity`; every other entity type is named by its field. -/
inductive Entity where
  | notSet
  | tableEntry (e : TableEntry)
  | packetReplicationEngineEntry (e : PacketReplicationEngineEntry)
  | other (field : String)
  deriving DecidableEq

/-- `Entity::table_entry()`, empty for any other entity. -/
def entityTableEntry : Entity → TableEntry
  | .tableEntry e => e
  | _ => { tableId := 0 }

/-- `p4.v1.Update.Type`, with the number of an unknown one. -/
inductive UpdateType where
  | unspecified | insert | modify | delete
  | unknown (number : Int32)
  deriving DecidableEq

structure Update where
  type : UpdateType
  entity : Entity
  deriving DecidableEq

inductive IrValue where
  | notSet
  | hexStr (s : String)
  | ipv4 (s : String)
  | ipv6 (s : String)
  | mac (s : String)
  | str (s : String)
  deriving DecidableEq,Repr

inductive IrMatchValue where
  | notSet
  | exact (value : IrValue)
  | lpm (value : IrValue) (prefixLength : Int32)
  | ternary (value mask : IrValue)
  | optional (value : IrValue)
  deriving DecidableEq

structure IrMatch where
  name : String
  value : IrMatchValue
  deriving DecidableEq

structure IrActionParam where
  name : String
  value : IrValue
  deriving DecidableEq

structure IrActionInvocation where
  name : String := ""
  params : List IrActionParam := []
  deriving DecidableEq

/-- The watch port is copied from the PI bytes without a check. -/
structure IrActionSetInvocation where
  action : IrActionInvocation
  weight : Int32
  watchPort : Bytes := []
  deriving DecidableEq

inductive IrTableEntryType where
  | notSet
  | action (a : IrActionInvocation)
  | actionSet (actions : List IrActionSetInvocation)
  deriving DecidableEq

structure IrTableEntry where
  tableName : String
  matches_ : List IrMatch := []
  priority : Int32 := 0
  type : IrTableEntryType := .notSet
  meterConfig : Option MeterConfig := none
  counterData : Option CounterData := none
  meterCounterData : Option MeterCounterData := none
  controllerMetadata : Bytes := []
  deriving DecidableEq

structure IrBackupReplica where
  port : Bytes
  instanceId : UInt32
  deriving DecidableEq

/-- Replica ports are copied from the PI bytes without a check. -/
structure IrReplica where
  port : Bytes
  instanceId : UInt32
  backupReplicas : List IrBackupReplica := []
  deriving DecidableEq

structure IrMulticastGroupEntry where
  multicastGroupId : UInt32 := 0
  replicas : List IrReplica := []
  metadata : Bytes := []
  deriving DecidableEq

structure IrPacketMetadata where
  name : String
  value : IrValue
  deriving DecidableEq

/-- `IrPacketIn` and `IrPacketOut`. -/
structure IrPacketIo where
  payload : Bytes := []
  metadata : List IrPacketMetadata := []
  deriving DecidableEq

structure IrCloneSessionEntry where
  sessionId : UInt32 := 0
  replicas : List IrReplica := []
  classOfService : UInt32 := 0
  packetLengthBytes : Int32 := 0
  deriving DecidableEq

inductive IrPacketReplicationEngineEntry where
  | multicastGroupEntry (e : IrMulticastGroupEntry)
  | cloneSessionEntry (e : IrCloneSessionEntry)
  deriving DecidableEq

/-- The entities that the PI translation can produce. -/
inductive IrEntity where
  | tableEntry (e : IrTableEntry)
  | packetReplicationEngineEntry (e : IrPacketReplicationEngineEntry)
  deriving DecidableEq

structure TranslationOptions where
  keyOnly : Bool := false
  allowUnsupported : Bool := false
  allowArbitraryFormat : Bool := false
  deriving DecidableEq

end SonicPins.Pdpi
