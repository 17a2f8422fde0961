import SonicPins.Lib.IndexBuilding
import SonicPins.Pdpi.DependencyRanks
import SonicPins.Pdpi.P4Info
import SonicPins.Pdpi.PdMessages
import SonicPins.Pdpi.ReferenceAnnotations
import SonicPins.Sonic.AppDbDecoding

/-! The IR form of a P4Info: definitions indexed by id and by name, with their formats
and references, after checks of all that they mention. -/
namespace SonicPins.Pdpi
open Lib References Sonic

def idText (id : UInt32) : String := natText id.toNat

/-- Whether values of a named type are strings for the controller. -/
def isSdnString (typeInfo : P4Info.TypeInfo) (typeName : String) : StatusOr Bool :=
  if typeName = "" then .ok false
  else ((findPtrOrStatus typeInfo.newTypes typeName).mapError fun s =>
    s.annotate ("Type definition for \"" ++ typeName ++ "\" not found")).map fun namedType =>
      match namedType with
      | .translatedType _ .sdnString => true
      | _ => false

def getFormatForP4InfoElement (typeInfo : P4Info.TypeInfo) (typeName : String) (annotations : List String) (bitwidth : Nat) :
    StatusOr Format := do
  let isString ← isSdnString typeInfo typeName
  getFormat annotations bitwidth isString

def expensiveIsElementUnsupported (annotations : List String) : Bool := "@unsupported" ∈ annotations

def tableAliasToId (p4Info : P4Info) (tableAlias : String) : StatusOr UInt32 :=
  match p4Info.tables.find? fun table => table.preamble.aliasName = tableAlias with
  | some table => .ok table.preamble.id
  | none => .error ⟨.notFound,"Can't find table id for alias `" ++ tableAlias ++ "`"⟩

def matchFieldNameToId (p4Info : P4Info) (tableId : UInt32) (matchFieldName : String) : StatusOr UInt32 :=
  match ((p4Info.tables.filter fun table => table.preamble.id = tableId).flatMap P4Info.Table.matchFields).find? fun matchField =>
    matchField.name = matchFieldName with
  | some matchField => .ok matchField.id
  | none => .error ⟨.notFound,"Can't find match field id for match field name `" ++ matchFieldName ++ "` in table `" ++
      idText tableId ++ "`"⟩

/-- References to built-in tables are left out. -/
def getRefersToAnnotations (p4Info : P4Info) (annotations : List String) : StatusOr (List IrMatchFieldReference) := do
  let refersTo ← parseAllRefersToAnnotations annotations
  (refersTo.filter fun reference => !isBuiltInTable reference.table).mapM fun reference => do
    let tableId ← tableAliasToId p4Info reference.table
    let _ ← matchFieldNameToId p4Info tableId reference.field
    .ok ⟨reference.table,reference.field⟩

/-- An identical reference is not added again. -/
def addReferences (known references : List IrMatchFieldReference) : List IrMatchFieldReference :=
  references.foldl (fun known reference => if reference ∈ known then known else known ++ [reference]) known

section Definitions
variable [UniqueInsertion]

def addParam (p4Info : P4Info) (typeInfo : P4Info.TypeInfo) (action : P4Info.Action)
    (s : IrActionDefinition × List IrMatchFieldReference) (param : ActionParam) :
    StatusOr (IrActionDefinition × List IrMatchFieldReference) := do
  let format ← getFormatForP4InfoElement typeInfo param.typeName param.annotations param.bitwidth
  let references ← getRefersToAnnotations p4Info param.annotations
  let maps ← insertTwice s.1.paramsById s.1.paramsByName param.id param.name ⟨param,format,references⟩
    ("Found several parameters with the same ID " ++ idText param.id ++ " for action " ++ action.preamble.aliasName)
    ("Found several parameters with the same name \"" ++ param.name ++ "\" for action \"" ++ action.preamble.aliasName ++ "\"")
  .ok ({ s.1 with paramsById := maps.1,paramsByName := maps.2 },addReferences s.2 references)

def addAction (p4Info : P4Info) (typeInfo : P4Info.TypeInfo) (info : IrP4Info) (action : P4Info.Action) : StatusOr IrP4Info := do
  let s ← action.params.foldlM (addParam p4Info typeInfo action)
    ({ preamble := action.preamble,isUnsupported := expensiveIsElementUnsupported action.preamble.annotations },info.references)
  let maps ← insertTwice info.actionsById info.actionsByName action.preamble.id action.preamble.aliasName s.1
    ("Found several actions with the same ID: " ++ idText action.preamble.id)
    ("Found several actions with the same name: " ++ action.preamble.name)
  .ok { info with actionsById := maps.1,actionsByName := maps.2,references := s.2 }

def addActionProfile (info : IrP4Info) (profile : ActionProfile) : StatusOr IrP4Info := do
  let maps ← insertTwice info.actionProfilesById info.actionProfilesByName profile.preamble.id profile.preamble.aliasName profile
    ("Found several action profiles with the same ID: " ++ idText profile.preamble.id)
    ("Found several action profiles with the same name: " ++ profile.preamble.name)
  .ok { info with actionProfilesById := maps.1,actionProfilesByName := maps.2 }

def validateMatchFieldDefinition (d : IrMatchFieldDefinition) : StatusOr Unit :=
  let onlyExactAndOptional : StatusOr Unit :=
    if d.format = .string then .error (invalidArgument "Only EXACT and OPTIONAL match fields can use Format::STRING: ") else .ok ()
  match d.matchField.matchType with
  | .lpm => onlyExactAndOptional
  | .ternary => onlyExactAndOptional
  | .exact => .ok ()
  | .optional => .ok ()
  | _ => .error (invalidArgument "Match field match type not supported: ")

def matchTypeRequiresPriority : MatchType → Bool
  | .optional => true
  | .range => true
  | .ternary => true
  | _ => false

def addMatchField (p4Info : P4Info) (typeInfo : P4Info.TypeInfo) (table : P4Info.Table)
    (s : IrTableDefinition × List IrMatchFieldReference) (matchField : MatchField) :
    StatusOr (IrTableDefinition × List IrMatchFieldReference) := do
  let format ← getFormatForP4InfoElement typeInfo matchField.typeName matchField.annotations matchField.bitwidth
  (validateMatchFieldDefinition { matchField,format }).mapError fun s =>
    s.annotate ("Table " ++ table.preamble.aliasName ++ " has invalid match field")
  let references ← getRefersToAnnotations p4Info matchField.annotations
  let maps ← insertTwice s.1.matchFieldsById s.1.matchFieldsByName matchField.id matchField.name
    { matchField,format,references,isUnsupported := expensiveIsElementUnsupported matchField.annotations }
    ("Found several match fields with the same ID " ++ idText matchField.id ++ " in table \"" ++ table.preamble.aliasName ++ "\"")
    ("Found several match fields with the same name \"" ++ matchField.name ++ "\" in table \"" ++ table.preamble.aliasName ++ "\"")
  .ok ({ s.1 with
    matchFieldsById := maps.1,matchFieldsByName := maps.2
    requiresPriority := s.1.requiresPriority || matchTypeRequiresPriority matchField.matchType },addReferences s.2 references)

/-- `std::ostream` of a `bool`. -/
def boolText (b : Bool) : String := if b then "1" else "0"

def hasOneshot (table : P4Info.Table) : Bool := "@oneshot" ∈ table.preamble.annotations

def isWcmp (table : P4Info.Table) : Bool := table.implementationId ≠ 0

/-- A table has an action profile exactly if it is a oneshot table. -/
def checkOneshot (table : P4Info.Table) : StatusOr Unit :=
  if isWcmp table ≠ hasOneshot table then
    .error ⟨.unimplemented,"A WCMP table must have a @oneshot annotation, but \"" ++ table.preamble.aliasName ++
      "\" is not valid. is_wcmp = " ++ boolText (isWcmp table) ++ ", has_oneshot = " ++ boolText (hasOneshot table)⟩
  else .ok ()

end Definitions

def numberInAnnotation (annotationName : String) (result : Option Int32) (text : String) : Fallible (Option Int32) :=
  match strDropPrefix ("@" ++ annotationName ++ "(") text with
  | none => .ok result
  | some view =>
    if result.isSome then
      .error (.status (invalidArgument ("Cannot have multiple annotations with the name \"" ++ annotationName ++ "\"")))
    else
      let number := (strDropSuffix ")" view).getD view
      if number.toList.all Json.isDigit then (stoi number).map some
      else .error (.status (invalidArgument ("Expected the argument to @" ++ annotationName ++
        " to be a number, but found non-number character")))

def getNumberInAnnotation (annotations : List String) (annotationName : String) : Fallible Int32 := do
  match ← annotations.foldlM ( numberInAnnotation annotationName) none with
  | some number => .ok number
  | none => .error (.status (invalidArgument ("No annotation found with name \"" ++ annotationName ++ "\"")))

def annotateFailure {α : Type} (note : String) (r : Fallible α) : Fallible α :=
  r.mapError fun failure => match failure with
    | .status s => .status (s.annotate note)
    | .thrown what => .thrown what

/-- The `IrActionReference`s of a table, by the id and the definition of their action. -/
structure TableActions where
  entryActions : List (UInt32 × IrActionDefinition) := []
  defaultOnlyActions : List (UInt32 × IrActionDefinition) := []

def addActionReference (info : IrP4Info) (table : P4Info.Table) (actions : TableActions) (ref : P4Info.ActionRef) :
    Fallible TableActions := do
  let action ← orFail ((findPtrOrStatus info.actionsById ref.id).mapError fun s =>
    s.annotate ("Missing definition for action with id " ++ idText ref.id))
  if ref.scope = .defaultOnly then .ok { actions with defaultOnlyActions := actions.defaultOnlyActions ++ [(ref.id,action)] }
  else do
    let _ ← annotateFailure ("Action \"" ++ action.preamble.name ++ "\" in table \"" ++ table.preamble.aliasName ++
      "\" does not have a valid @proto_id annotation") ( getNumberInAnnotation ref.annotations "proto_id")
    .ok { actions with entryActions := actions.entryActions ++ [(ref.id,action)] }

/-- The constant default action of a table is one of its actions. -/
def findConstDefaultAction (table : P4Info.Table) (actions : TableActions) : StatusOr (Option IrActionDefinition) :=
  if table.constDefaultActionId = 0 then .ok none
  else match (actions.defaultOnlyActions ++ actions.entryActions).find? fun action => action.1 = table.constDefaultActionId with
    | some action => .ok (some action.2)
    | none => .error (invalidArgument ("Table \"" ++ table.preamble.aliasName ++ "\" default action id " ++
        idText table.constDefaultActionId ++ " does not match any of the table's actions"))

def p4runtimeRole (annotations : List String) : String :=
  annotations.foldl (fun role text => match strDropPrefix "@p4runtime_role(\"" text with
    | some rest => (strDropSuffix "\")" rest).getD role
    | none => role) ""

section Tables
variable [UniqueInsertion]

def irTableDefinition (p4Info : P4Info) (typeInfo : P4Info.TypeInfo) (info : IrP4Info) (table : P4Info.Table) :
    Fallible (IrTableDefinition × List IrMatchFieldReference) := do
  let s ← orFail (table.matchFields.foldlM (addMatchField p4Info typeInfo table) ({ preamble := table.preamble },info.references))
  orFail (checkOneshot table)
  let actions ← table.actionRefs.foldlM (addActionReference info table) {}
  let constDefaultAction ← orFail (findConstDefaultAction table actions)
  .ok ({ s.1 with
    usesOneshot := hasOneshot table
    actionProfileId := if isWcmp table then some table.implementationId else none
    entryActions := actions.entryActions.map Prod.snd
    defaultOnlyActions := actions.defaultOnlyActions.map Prod.snd
    constDefaultAction := constDefaultAction
    role := p4runtimeRole table.preamble.annotations
    size := table.size
    isUnsupported := expensiveIsElementUnsupported table.preamble.annotations },s.2)

def addTable (p4Info : P4Info) (typeInfo : P4Info.TypeInfo) (info : IrP4Info) (table : P4Info.Table) : Fallible IrP4Info := do
  let s ← irTableDefinition p4Info typeInfo info table
  let maps ← orFail (insertTwice info.tablesById info.tablesByName table.preamble.id table.preamble.aliasName s.1
    ("Found several tables with the same ID " ++ idText table.preamble.id)
    ("Found several tables with the same name \"" ++ table.preamble.aliasName ++ "\""))
  .ok { info with tablesById := maps.1,tablesByName := maps.2,references := s.2 }

end Tables

section PacketIo
variable [UniqueInsertion]

/-- The definitions of the metadata of one kind of packet, by id and by name. -/
abbrev PacketIoMaps := List (UInt32 × IrPacketIoMetadataDefinition) × List (String × IrPacketIoMetadataDefinition)

def addPacketIoMetadata (typeInfo : P4Info.TypeInfo) (kind : String) (maps : PacketIoMaps) (metadata : ControllerPacketMetadata) :
    StatusOr PacketIoMaps := do
  let format ← getFormatForP4InfoElement typeInfo metadata.typeName metadata.annotations metadata.bitwidth
  insertTwice maps.1 maps.2 metadata.id metadata.name ⟨metadata,format,"@padding" ∈ metadata.annotations⟩
    ("Found several \"" ++ kind ++ "\" metadata with the same ID: " ++ idText metadata.id)
    ("Found several \"" ++ kind ++ "\" metadata with the same name: " ++ metadata.name)

def processPacketIoMetadataDefinition (typeInfo : P4Info.TypeInfo) (data : P4Info.ControllerPacket) (maps : PacketIoMaps) :
    StatusOr PacketIoMaps :=
  if maps.1.isEmpty then data.metadata.foldlM (addPacketIoMetadata typeInfo data.preamble.name) maps
  else .error (invalidArgument ("Found duplicate \"" ++ data.preamble.name ++ "\" controller packet metadata"))

def addControllerPacketMetadata (typeInfo : P4Info.TypeInfo) (info : IrP4Info) (data : P4Info.ControllerPacket) :
    StatusOr IrP4Info :=
  if data.preamble.name = "packet_out" then
    (processPacketIoMetadataDefinition typeInfo data (info.packetOutMetadataById,info.packetOutMetadataByName)).map fun maps =>
      { info with packetOutMetadataById := maps.1,packetOutMetadataByName := maps.2 }
  else if data.preamble.name = "packet_in" then
    (processPacketIoMetadataDefinition typeInfo data (info.packetInMetadataById,info.packetInMetadataByName)).map fun maps =>
      { info with packetInMetadataById := maps.1,packetInMetadataByName := maps.2 }
  else .error (invalidArgument ("Unknown controller packet metadata: " ++ data.preamble.name ++
    ". Only packet_in and packet_out are supported"))

end PacketIo

/-- Both definitions of the table of a direct counter or meter are changed. -/
def setOnTable (resource : String) (resourceId tableId : UInt32) (set : IrTableDefinition → IrTableDefinition) (info : IrP4Info) :
    StatusOr IrP4Info := do
  let table ← (findPtrOrStatus info.tablesById tableId).mapError fun s =>
    s.annotate ("Missing table " ++ idText tableId ++ " for " ++ resource ++ " with ID " ++ idText resourceId)
  .ok { info with
    tablesById := changeAt tableId set info.tablesById
    tablesByName := changeAt table.preamble.aliasName set info.tablesByName }

def IrTableDefinition.setCounter (unit : CounterUnit) (table : IrTableDefinition) : IrTableDefinition :=
  { table with hasCounter := true,counterUnit := unit }

def IrTableDefinition.setMeter (unit : MeterUnit) (table : IrTableDefinition) : IrTableDefinition :=
  { table with hasMeter := true,meterUnit := unit }

def addDirectCounter (info : IrP4Info) (counter : P4Info.DirectCounter) : StatusOr IrP4Info :=
  setOnTable "counter" counter.preamble.id counter.directTableId (.setCounter counter.unit) info

def addDirectMeter (info : IrP4Info) (meter : P4Info.DirectMeter) : StatusOr IrP4Info :=
  setOnTable "meter" meter.preamble.id meter.directTableId (.setMeter meter.unit) info

def validateReference (info : IrP4Info) (reference : IrMatchFieldReference) : StatusOr Unit := do
  let table ← (findPtrOrStatus info.tablesByName reference.table).mapError fun s =>
    s.annotate ("Table '" ++ reference.table ++ "' referenced in @refers_to does not exist.")
  let d ← (findPtrOrStatus table.matchFieldsByName reference.matchField).mapError fun s =>
    s.annotate ("Match field '" ++ reference.matchField ++ "' referenced in @refers_to does not exist.")
  if d.matchField.matchType ≠ .exact ∧ d.matchField.matchType ≠ .optional then
    .error (invalidArgument "Invalid @refers_to annotation: Only exact and optional match fields can be used, but got: ")
  else .ok ()

/-- The action profile of a table lists the table. -/
def validateImplementation (info : IrP4Info) (table : UInt32 × IrTableDefinition) : StatusOr Unit :=
  match table.2.actionProfileId with
  | none => .ok ()
  | some actionProfileId => do
    let profile ← (findPtrOrStatus info.actionProfilesById actionProfileId).mapError fun s =>
      s.annotate ("Implementation id '" ++ idText actionProfileId ++ "' referenced in table '" ++ table.2.preamble.aliasName ++
        "' is not an action profile.")
    if table.1 ∈ profile.tableIds then .ok ()
    else .error (invalidArgument ("The action profile '" ++ profile.preamble.aliasName ++ "' given as implementation id '" ++
      idText actionProfileId ++ "' by table '" ++ table.2.preamble.aliasName ++ "' (id = '" ++ idText table.1 ++
      "') does not contain '" ++ idText table.1 ++ "' in its table_ids: " ++ String.intercalate "," (profile.tableIds.map idText)))

def validateTableIds (info : IrP4Info) (profile : UInt32 × ActionProfile) : StatusOr Unit :=
  profile.2.tableIds.forM fun tableId => do
    let table ← (findPtrOrStatus info.tablesById tableId).mapError fun s =>
      s.annotate ("Table id '" ++ idText tableId ++ "' referenced in action profile '" ++ profile.2.preamble.aliasName ++
        "' is not a table.")
    if table.actionProfileId = some profile.1 then .ok ()
    else .error (invalidArgument ("The table '" ++ table.preamble.aliasName ++ "' given as table id '" ++ idText tableId ++
      "' by action profile '" ++ profile.2.preamble.aliasName ++ "' (id = '" ++ idText profile.1 ++ "') implements id '" ++
      idText (table.actionProfileId.getD 0) ++ "' != '" ++ idText profile.1 ++ "'."))

/-- The two tables that a reference is attached to. -/
inductive ReferenceEnd where
  | source | destination
  deriving DecidableEq,Repr

namespace ReferenceEnd

def name : ReferenceEnd → String
  | source => "source"
  | destination => "destination"

def capitalizedName : ReferenceEnd → String
  | source => "Source"
  | destination => "Destination"

def table : ReferenceEnd → IrTableReference → IrTable
  | source => IrTableReference.sourceTable
  | destination => IrTableReference.destinationTable

def references : ReferenceEnd → IrTableDefinition → List IrTableReference
  | source => IrTableDefinition.outgoingReferences
  | destination => IrTableDefinition.incomingReferences

def builtInReferences : ReferenceEnd → IrBuiltInTableDefinition → List IrTableReference
  | source => IrBuiltInTableDefinition.outgoingReferences
  | destination => IrBuiltInTableDefinition.incomingReferences

def addTo : ReferenceEnd → IrTableReference → IrTableDefinition → IrTableDefinition
  | source,r,table => { table with outgoingReferences := table.outgoingReferences ++ [r] }
  | destination,r,table => { table with incomingReferences := table.incomingReferences ++ [r] }

def addToBuiltIn : ReferenceEnd → IrTableReference → IrBuiltInTableDefinition → IrBuiltInTableDefinition
  | source,r,table => { table with outgoingReferences := table.outgoingReferences ++ [r] }
  | destination,r,table => { table with incomingReferences := table.incomingReferences ++ [r] }

end ReferenceEnd

/-- Every built-in table is in the map already, so that `at` finds it. -/
def insertReferenceInfo (e : ReferenceEnd) (reference : IrTableReference) (info : IrP4Info) : StatusOr IrP4Info :=
  match e.table reference with
  | .p4Table name id =>
    if (info.tablesByName.lookup name).isNone then
      .error ⟨.internal,"Generated IrTableEntryReference contains unknown " ++ e.name ++ " p4 table name '" ++ name ++ "'."⟩
    else if (info.tablesById.lookup id).isNone then
      .error ⟨.internal,"Generated IrTableEntryReference contains unknown " ++ e.name ++ " p4 table id '" ++ name ++ "'."⟩
    else .ok { info with
      tablesByName := changeAt name (e.addTo reference) info.tablesByName
      tablesById := changeAt id (e.addTo reference) info.tablesById }
  | .builtInTable table => (irBuiltInTableToString table).map fun name =>
    { info with builtInTables := changeAt name (e.addToBuiltIn reference) info.builtInTables }
  | .notSet => .error ⟨.internal,e.capitalizedName ++ " IrTable oneof not set."⟩

def insertOutgoingReferenceInfo : IrTableReference → IrP4Info → StatusOr IrP4Info := insertReferenceInfo .source

def insertIncomingReferenceInfo : IrTableReference → IrP4Info → StatusOr IrP4Info := insertReferenceInfo .destination

def addTableReference (info : IrP4Info) (reference : IrTableReference) : StatusOr IrP4Info := do
  let info ← insertOutgoingReferenceInfo reference info
  insertIncomingReferenceInfo reference info

variable [UniqueInsertion]

/-- The definitions of a P4Info, without references between tables. -/
def createDefinitions (p4Info : P4Info) : Fallible IrP4Info := do
  let typeInfo := p4Info.typeInfo.getD {}
  let info : IrP4Info := { platformProperties := p4Info.pkgInfo.platformProperties.getD {} }
  let info ← orFail (p4Info.actions.foldlM (addAction p4Info typeInfo) info)
  let info ← orFail (p4Info.actionProfiles.foldlM addActionProfile info)
  let info ← p4Info.tables.foldlM (addTable p4Info typeInfo) info
  let info ← orFail (p4Info.controllerPacketMetadata.foldlM (addControllerPacketMetadata typeInfo) info)
  let info ← orFail (p4Info.directCounters.foldlM addDirectCounter info)
  orFail (p4Info.directMeters.foldlM addDirectMeter info)

def validateDefinitions (info : IrP4Info) : StatusOr Unit := do
  info.references.forM (validateReference info)
  info.tablesById.forM (validateImplementation info)
  info.actionProfilesById.forM (validateTableIds info)

def addTableReferencesTo (info : IrP4Info) : StatusOr IrP4Info := do
  let info : IrP4Info := { info with builtInTables := [(getMulticastGroupTableName,{}),(getCloneSessionTableName,{})] }
  let references ← parseIrTableReferences info
  references.foldlM addTableReference info

/-- All of the IR form but the dependency ranks. -/
def createUnranked (p4Info : P4Info) : Fallible IrP4Info := do
  let info ← createDefinitions p4Info
  orFail (validateDefinitions info)
  orFail (addTableReferencesTo info)

/-- The ranks are found by a recursion along references, none if that is deeper than the number of tables. -/
def createIrP4Info (p4Info : P4Info) : Option (Fallible IrP4Info) :=
  match createUnranked p4Info with
  | .error failure => some (.error failure)
  | .ok info => (constructDependencyRankByTableName (info.tableNames.length + 1) (info.tablesByName.map Prod.fst)
      (info.builtInTables.map Prod.fst) info).map orFail

end SonicPins.Pdpi
