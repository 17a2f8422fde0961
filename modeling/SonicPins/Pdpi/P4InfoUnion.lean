import SonicPins.Lib.KeyedUnion
import SonicPins.Pdpi.P4Info
import SonicPins.Pdpi.Values

/-! The union of P4Infos, merged one after the other: objects of one id are merged
field by field. Differences of messages are left out of the error texts. -/
namespace SonicPins.Pdpi
open Lib

namespace P4Info

def containsUnsupportedField (infos : List P4Info) : StatusOr Unit :=
  if infos.any fun info => !info.externs.isEmpty then .error ⟨.unimplemented,"UnionP4Info can not union Extern field."⟩
  else .ok ()

def assertIdsAreEqualForUnioning (type : String) (id1 id2 : UInt32) : StatusOr Unit :=
  if id1 ≠ id2 then
    .error ⟨.internal,"attempted to union fields of type " ++ type ++ " with different ids: " ++ toString id1 ++ " and " ++
      toString id2⟩
  else .ok ()

/-- The fields of a table that have to be equal in all tables of its id. -/
def Table.compared (t : Table) : Table :=
  { t with
    preamble := { id := 0,aliasName := "" },matchFields := [],actionRefs := [],directResourceIds := [],
    otherProperties := none,size := 0 }

def assertTableCompatibility (table1 table2 : Table) : StatusOr Unit := do
  assertIdsAreEqualForUnioning "Table" table1.preamble.id table2.preamble.id
  if table1.compared ≠ table2.compared then
    .error (invalidArgument "tables were incompatible. Relevant differences: ")
  else .ok ()

/-- The fields of a preamble that have to be equal in all preambles of its id. -/
def preambleCompared (p : Preamble) : Preamble :=
  { p with annotations := [],annotationLocations := [],structuredAnnotations := [] }

def assertPreambleCompatibility (preamble1 preamble2 : Preamble) : StatusOr Unit := do
  assertIdsAreEqualForUnioning "Preamble" preamble1.id preamble2.id
  if preambleCompared preamble1 ≠ preambleCompared preamble2 then
    .error (invalidArgument "preambles were incompatible. Relevant differences: ")
  else .ok ()

/-- The largest of all respective sizes; the message has no other fields. -/
def unionFirstPlatformPropertiesIntoSecond (properties unioned : PlatformProperties) : PlatformProperties where
  multicastGroupTableSize := stdMax unioned.multicastGroupTableSize properties.multicastGroupTableSize
  multicastGroupTableTotalReplicas :=
    stdMax unioned.multicastGroupTableTotalReplicas properties.multicastGroupTableTotalReplicas
  multicastGroupTableMaxReplicasPerEntry :=
    stdMax unioned.multicastGroupTableMaxReplicasPerEntry properties.multicastGroupTableMaxReplicasPerEntry

/-- The fields of a package that have to be equal in all infos. -/
def PkgInfo.compared (p : PkgInfo) : PkgInfo := { p with name := "",version := "",platformProperties := none }

def unionFirstPkgInfoIntoSecond (info unioned : PkgInfo) : StatusOr PkgInfo :=
  if unioned = {} then .ok { info with name := "Union of " ++ info.name,version := "Versions " ++ info.version }
  else
    let unioned :=
      { unioned with
        name := unioned.name ++ ", " ++ info.name,version := unioned.version ++ ", " ++ info.version,
        platformProperties :=
          if info.platformProperties.isSome || unioned.platformProperties.isSome then
            some (unionFirstPlatformPropertiesIntoSecond (info.platformProperties.getD {}) (unioned.platformProperties.getD {}))
          else none }
    if info.compared ≠ unioned.compared then
      .error (invalidArgument "PkgInfos are incompatible. Relevant differences: ")
    else .ok unioned

def unionFirstPreambleIntoSecondAssertingIdenticalId (preamble unioned : Preamble) : StatusOr Preamble := do
  assertPreambleCompatibility preamble unioned
  if !preamble.structuredAnnotations.isEmpty || !unioned.structuredAnnotations.isEmpty then
    .error ⟨.unimplemented,"UnionFirstPreambleIntoSecondAssertingIdenticalId failed since `structured_annotations` was not " ++
      "empty for a field with id '" ++ toString preamble.id ++ "'. `structured_annotations` = '" ++
      ",".intercalate (unioned.structuredAnnotations ++ preamble.structuredAnnotations) ++ "'"⟩
  else .ok { unioned with annotations := setUnion preamble.annotations unioned.annotations }

/-- The error of two objects of one id that differ. -/
def fieldsDiffer (type : String) (id : UInt32) : Status :=
  invalidArgument ("UnionFirstFieldIntoSecondAssertingIdenticalId failed since fields of type '" ++ type ++
    "' sharing the same id, '" ++ toString id ++ "', were different: ")

/-- `MapUnionFirstRepeatedFieldIntoSecondById` of objects that have to be equal. -/
def mapUnionEqual {α : Type} [DecidableEq α] (type : String) (id : α → UInt32) : List α → List α → StatusOr (List α) :=
  unionItems id (exactMerge fun field _ => fieldsDiffer type (id field))

def mapUnionObjects (type : String) : List Object → List Object → StatusOr (List Object) :=
  mapUnionEqual type fun object => object.preamble.id

def unionFirstTableIntoSecond (table unioned : Table) : StatusOr Table := do
  (assertTableCompatibility table unioned).mapError fun s => s.prepend
    ("UnionFirstFieldIntoSecondAssertingIdenticalId failed since tables sharing the same id, '" ++
      toString table.preamble.id ++ "', were incompatible: ")
  let preamble ← unionFirstPreambleIntoSecondAssertingIdenticalId table.preamble unioned.preamble
  let matchFields ← mapUnionEqual "MatchField" MatchField.id table.matchFields unioned.matchFields
  let actionRefs ← mapUnionEqual "ActionRef" ActionRef.id table.actionRefs unioned.actionRefs
  if table.otherProperties.isSome || unioned.otherProperties.isSome then
    .error ⟨.unimplemented,"UnionFirstFieldIntoSecondAssertingIdenticalId failed since `other_properties` was not unset " ++
      "for a table with id '" ++ toString table.preamble.id ++ "'. `other_properties` = '" ++
      table.otherProperties.getD "" ++ "," ++ unioned.otherProperties.getD "" ++ "'"⟩
  else .ok { unioned with
    size := stdMax unioned.size table.size,preamble := preamble,matchFields := matchFields,actionRefs := actionRefs,
    directResourceIds := setUnion table.directResourceIds unioned.directResourceIds }

def unionFirstActionIntoSecond (action unioned : Action) : StatusOr Action := do
  assertIdsAreEqualForUnioning "Action" action.preamble.id unioned.preamble.id
  let preamble ← unionFirstPreambleIntoSecondAssertingIdenticalId action.preamble unioned.preamble
  if action.params ≠ unioned.params then
    .error (invalidArgument ("actions with identical id '" ++ toString action.preamble.id ++
      "' were incompatible. Relevant differences: "))
  else .ok { unioned with preamble := preamble }

/-- The fields of an action profile that have to be equal in all profiles of its id. -/
def profileCompared (p : ActionProfile) : ActionProfile := { p with size := 0,maxGroupSize := 0 }

def unionFirstActionProfileIntoSecond (profile unioned : ActionProfile) : StatusOr ActionProfile := do
  assertIdsAreEqualForUnioning "ActionProfile" profile.preamble.id unioned.preamble.id
  if profileCompared profile ≠ profileCompared unioned then
    .error (invalidArgument ("action profiles with identical id '" ++ toString profile.preamble.id ++
      "' were incompatible. Relevant differences: "))
  else .ok { unioned with
    size := stdMax unioned.size profile.size,maxGroupSize := stdMax unioned.maxGroupSize profile.maxGroupSize }

/-- The type info of a P4Info, empty when unset. -/
def typeInfoOf (info : P4Info) : TypeInfo := info.typeInfo.getD {}

/-- Only new types can be unioned. -/
def TypeInfo.onlyNewTypes (t : TypeInfo) : Bool :=
  t.structs.isEmpty && t.headers.isEmpty && t.headerUnions.isEmpty && t.enums.isEmpty && t.error.isNone &&
    t.serializableEnums.isEmpty

def typesDiffer (type _ : String × NewTypeSpec) : Status :=
  invalidArgument ("UnionFirstTypeInfoIntoSecond failed since type specifications sharing the same key, '" ++ type.1 ++
    "', were different: ")

def unionFirstTypeInfoIntoSecond (info : P4Info) (unioned : Option TypeInfo) : StatusOr (Option TypeInfo) :=
  if (typeInfoOf info).onlyNewTypes then
    match unioned with
    | none => .ok (some (typeInfoOf info))
    | some types =>
      (unionItems Prod.fst (exactMerge typesDiffer) (typeInfoOf info).newTypes types.newTypes).map fun newTypes =>
        some { types with newTypes := newTypes }
  else .error (invalidArgument "UnionFirstTypeInfoIntoSecond only supports P4TypeInfo::new_types. P4TypeInfo: ")

/-- One P4Info into the union of those before it. -/
def unionFirstInfoIntoSecond (unioned info : P4Info) : StatusOr P4Info := do
  let pkgInfo ← unionFirstPkgInfoIntoSecond info.pkgInfo unioned.pkgInfo
  let tables ← unionItems (fun t => t.preamble.id) unionFirstTableIntoSecond info.tables unioned.tables
  let actions ← unionItems (fun a => a.preamble.id) unionFirstActionIntoSecond info.actions unioned.actions
  let actionProfiles ←
    unionItems (fun p => p.preamble.id) unionFirstActionProfileIntoSecond info.actionProfiles unioned.actionProfiles
  let counters ← mapUnionObjects "Counter" info.counters unioned.counters
  let directCounters ←
    mapUnionEqual "DirectCounter" (fun c : DirectCounter => c.preamble.id) info.directCounters unioned.directCounters
  let meters ← mapUnionObjects "Meter" info.meters unioned.meters
  let directMeters ← mapUnionEqual "DirectMeter" (fun m : DirectMeter => m.preamble.id) info.directMeters unioned.directMeters
  let controllerPacketMetadata ← mapUnionEqual "ControllerPacketMetadata" (fun m : ControllerPacket => m.preamble.id)
    info.controllerPacketMetadata unioned.controllerPacketMetadata
  let valueSets ← mapUnionObjects "ValueSet" info.valueSets unioned.valueSets
  let registers ← mapUnionObjects "Register" info.registers unioned.registers
  let digests ← mapUnionObjects "Digest" info.digests unioned.digests
  let typeInfo ← unionFirstTypeInfoIntoSecond info unioned.typeInfo
  .ok { unioned with
    pkgInfo := pkgInfo,tables := tables,actions := actions,actionProfiles := actionProfiles,counters := counters,
    directCounters := directCounters,meters := meters,directMeters := directMeters,
    controllerPacketMetadata := controllerPacketMetadata,valueSets := valueSets,registers := registers,
    digests := digests,typeInfo := typeInfo }

end P4Info

def unionP4info (infos : List P4Info) : StatusOr P4Info := do
  P4Info.containsUnsupportedField infos
  infos.foldlM P4Info.unionFirstInfoIntoSecond {}

end SonicPins.Pdpi
