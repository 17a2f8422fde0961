import SonicPins.Pdpi.Messages

/-! The P4Info messages (`p4.config.v1`) that are not part of the IR form. Messages of
which only the id is read are kept by their preamble and their printed form. -/
namespace SonicPins.Pdpi
open Lib

namespace P4Info

/-- `p4.config.v1.ActionRef.Scope`. -/
inductive ActionRefScope where
  | tableAndDefault | tableOnly | defaultOnly | unknown (number : Int32)
  deriving DecidableEq,Repr

structure ActionRef where
  id : UInt32
  scope : ActionRefScope := .tableAndDefault
  annotations : List String := []
  annotationLocations : List SourceLocation := []
  structuredAnnotations : List StructuredAnnotation := []
  deriving DecidableEq,Repr

/-- `p4.config.v1.Table.IdleTimeoutBehavior`. -/
inductive IdleTimeoutBehavior where
  | noTimeout | notifyControl | unknown (number : Int32)
  deriving DecidableEq,Repr

/-- `p4.config.v1.Table`; an implementation id of 0 is none, and `otherProperties` is printed. -/
structure Table where
  preamble : Preamble
  matchFields : List MatchField := []
  actionRefs : List ActionRef := []
  constDefaultActionId : UInt32 := 0
  implementationId : UInt32 := 0
  directResourceIds : List UInt32 := []
  size : Int64 := 0
  idleTimeoutBehavior : IdleTimeoutBehavior := .noTimeout
  isConstTable : Bool := false
  otherProperties : Option String := none
  deriving DecidableEq,Repr

structure Action where
  preamble : Preamble
  params : List ActionParam := []
  deriving DecidableEq,Repr

structure DirectCounter where
  preamble : Preamble
  unit : CounterUnit := .unspecified
  directTableId : UInt32 := 0
  deriving DecidableEq,Repr

structure DirectMeter where
  preamble : Preamble
  unit : MeterUnit := .unspecified
  directTableId : UInt32 := 0
  deriving DecidableEq,Repr

/-- `p4.config.v1.ControllerPacketMetadata`, the metadata of one kind of packet. -/
structure ControllerPacket where
  preamble : Preamble
  metadata : List ControllerPacketMetadata := []
  deriving DecidableEq,Repr

/-- A counter, meter, value set, register, digest or extern. -/
structure Object where
  preamble : Preamble
  definition : String := ""
  deriving DecidableEq,Repr

/-- `p4.config.v1.P4NewTypeTranslation`, by the case of its `sdn_type`. -/
inductive SdnType where
  | notSet | sdnBitwidth (bitwidth : Int32) | sdnString
  deriving DecidableEq,Repr

/-- `p4.config.v1.P4NewTypeSpec`, by the case of its `representation`. -/
inductive NewTypeSpec where
  | notSet
  | originalType (type : String)
  | translatedType (uri : String) (sdnType : SdnType)
  deriving DecidableEq,Repr

/-- `p4.config.v1.P4TypeInfo`; all maps but `newTypes` are printed. -/
structure TypeInfo where
  structs : List (String × String) := []
  headers : List (String × String) := []
  headerUnions : List (String × String) := []
  enums : List (String × String) := []
  error : Option String := none
  serializableEnums : List (String × String) := []
  newTypes : List (String × NewTypeSpec) := []
  deriving DecidableEq,Repr

structure PkgInfo where
  name : String := ""
  version : String := ""
  doc : Option Documentation := none
  annotations : List String := []
  annotationLocations : List SourceLocation := []
  arch : String := ""
  organization : String := ""
  contact : String := ""
  url : String := ""
  structuredAnnotations : List StructuredAnnotation := []
  platformProperties : Option PlatformProperties := none
  deriving DecidableEq,Repr

end P4Info

structure P4Info where
  pkgInfo : P4Info.PkgInfo := {}
  tables : List P4Info.Table := []
  actions : List P4Info.Action := []
  actionProfiles : List ActionProfile := []
  counters : List P4Info.Object := []
  directCounters : List P4Info.DirectCounter := []
  meters : List P4Info.Object := []
  directMeters : List P4Info.DirectMeter := []
  controllerPacketMetadata : List P4Info.ControllerPacket := []
  valueSets : List P4Info.Object := []
  registers : List P4Info.Object := []
  digests : List P4Info.Object := []
  externs : List P4Info.Object := []
  typeInfo : Option P4Info.TypeInfo := none
  deriving DecidableEq,Repr

end SonicPins.Pdpi
