import Mathlib.Data.Finset.Union
import Mathlib.Data.Multiset.Bind
import SonicPins.Pdpi.Values

/-! The references that entities make to each other: the values they refer to, and
the references that an entity can satisfy. -/
namespace SonicPins.Pdpi.References
open Lib

def getMulticastGroupTableName : String := "builtin::multicast_group_table"

def getCloneSessionTableName : String := "builtin::clone_session_table"

def irBuiltInTableToString : IrBuiltInTable → StatusOr String
  | .multicastGroupTable => .ok getMulticastGroupTableName
  | .cloneSessionTable => .ok getCloneSessionTableName
  | .unspecified => .error (invalidArgument "Unknown built-in table: BUILT_IN_TABLE_UNSPECIFIED")

def irBuiltInMatchFieldToString : IrBuiltInMatchField → StatusOr String
  | .multicastGroupId => .ok "multicast_group_id"
  | .unspecified => .error (invalidArgument "Unknown built-in match field: BUILT_IN_MATCH_FIELD_UNSPECIFIED")

def irBuiltInActionToString : IrBuiltInAction → StatusOr String
  | .replica => .ok "builtin::replica"
  | .unspecified => .error (invalidArgument "Unknown built-in action: BUILT_IN_ACTION_UNSPECIFIED")

def irBuiltInParameterToString : IrBuiltInParameter → StatusOr String
  | .replicaPort => .ok "replica.port"
  | .replicaInstance => .ok "replica.instance"
  | .unspecified => .error (invalidArgument "Unknown built-in parameter: BUILT_IN_PARAMETER_UNSPECIFIED")

def getNameOfField : IrField → StatusOr String
  | .matchField (.p4MatchField f) => .ok f.fieldName
  | .matchField (.builtInMatchField f) => irBuiltInMatchFieldToString f
  | .matchField .notSet => .error (invalidArgument "IrMatchField match_field oneof not set.")
  | .actionField (.p4ActionField f) => .ok (f.actionName ++ "." ++ f.parameterName)
  | .actionField (.builtInActionField f) => irBuiltInParameterToString f.parameter
  | .actionField .notSet => .error (invalidArgument "IrActionField action_field oneof not set.")
  | .notSet => .error (invalidArgument "IrField field oneof not set.")

def getNameOfAction : IrActionField → StatusOr String
  | .p4ActionField f => .ok f.actionName
  | .builtInActionField f => irBuiltInActionToString f.action
  | .notSet => .error (invalidArgument "IrActionField field oneof not set.")

def getNameOfTable : IrTable → StatusOr String
  | .p4Table name _ => .ok name
  | .builtInTable t => irBuiltInTableToString t
  | .notSet => .error (invalidArgument "IrTable table oneof not set.")

def fieldIsOptional : IrField → Bool
  | .matchField (.p4MatchField f) => f.isOptional
  | _ => false

def stringToIrBuiltInTable (table : String) : StatusOr IrBuiltInTable :=
  if table = getMulticastGroupTableName then .ok .multicastGroupTable
  else if table = getCloneSessionTableName then .ok .cloneSessionTable
  else .error (invalidArgument ("'" ++ table ++ "' is not a built-in table."))

def stringToIrBuiltInMatchField (field : String) : StatusOr IrBuiltInMatchField :=
  if field = "multicast_group_id" then .ok .multicastGroupId
  else .error (invalidArgument ("'" ++ field ++ "' is not a built-in match field."))

def stringToIrBuiltInAction (action : String) : StatusOr IrBuiltInAction :=
  if action = "builtin::replica" then .ok .replica
  else .error (invalidArgument ("'" ++ action ++ "' is not a built-in action."))

def stringToIrBuiltInParameter (parameter : String) : StatusOr IrBuiltInParameter :=
  if parameter = "replica.port" then .ok .replicaPort
  else if parameter = "replica.instance" then .ok .replicaInstance
  else .error (invalidArgument ("'" ++ parameter ++ "' is not a built-in paramter."))

def isBuiltInTable (table : String) : Bool := (stringToIrBuiltInTable table).isOk

def isBuiltInAction (action : String) : Bool := (stringToIrBuiltInAction action).isOk

def builtInTableHasMatchField (table : IrBuiltInTable) (field : IrBuiltInMatchField) : Bool :=
  table = .multicastGroupTable && field = .multicastGroupId

def builtInActionHasParameter (action : IrBuiltInAction) (parameter : IrBuiltInParameter) : Bool :=
  action = .replica && (parameter = .replicaPort || parameter = .replicaInstance)

def matchTypeName : MatchType → String
  | .unspecified => "UNSPECIFIED"
  | .exact => "EXACT"
  | .lpm => "LPM"
  | .ternary => "TERNARY"
  | .range => "RANGE"
  | .optional => "OPTIONAL"

def createIrTable (info : IrP4Info) (tableName : String) : StatusOr IrTable :=
  if isBuiltInTable tableName then (stringToIrBuiltInTable tableName).map .builtInTable
  else (findPtrOrStatus info.tablesByName tableName).map fun table => .p4Table tableName table.preamble.id

def createIrP4MatchField (info : IrP4Info) (tableName fieldName : String) : StatusOr IrMatchField := do
  let table ← findPtrOrStatus info.tablesByName tableName
  let d ← findPtrOrStatus table.matchFieldsByName fieldName
  match d.matchField.matchType with
  | .exact => .ok (.p4MatchField ⟨fieldName,d.matchField.id,false⟩)
  | .optional => .ok (.p4MatchField ⟨fieldName,d.matchField.id,true⟩)
  | type => .error ⟨.unimplemented,"Only match fields of type EXACT or OPTIONAL can be used in references. Match field '" ++
      fieldName ++ "' in '" ++ tableName ++ "' has type '" ++ matchTypeName type⟩

def createIrBuiltInMatchField (tableName fieldName : String) : StatusOr IrMatchField := do
  let table ← stringToIrBuiltInTable tableName
  let field ← stringToIrBuiltInMatchField fieldName
  if builtInTableHasMatchField table field then .ok (.builtInMatchField field)
  else .error (invalidArgument ("Built-in table '" ++ tableName ++ "' does not have built-in match field '" ++ fieldName ++ "'."))

def createIrMatchField (info : IrP4Info) (tableName fieldName : String) : StatusOr IrMatchField :=
  if isBuiltInTable tableName then createIrBuiltInMatchField tableName fieldName
  else createIrP4MatchField info tableName fieldName

def createIrP4ActionField (info : IrP4Info) (actionName paramName : String) : StatusOr IrActionField := do
  let action ← findPtrOrStatus info.actionsByName actionName
  let param ← findPtrOrStatus action.paramsByName paramName
  .ok (.p4ActionField ⟨actionName,action.preamble.id,paramName,param.param.id⟩)

def createIrBuiltInActionField (actionName paramName : String) : StatusOr IrActionField := do
  let action ← stringToIrBuiltInAction actionName
  let parameter ← stringToIrBuiltInParameter paramName
  if builtInActionHasParameter action parameter then .ok (.builtInActionField ⟨action,parameter⟩)
  else .error (invalidArgument ("Built-in action '" ++ actionName ++ "' does not have built-in parameter '" ++ paramName ++ "'."))

def createIrActionField (info : IrP4Info) (actionName paramName : String) : StatusOr IrActionField :=
  if isBuiltInAction actionName then createIrBuiltInActionField actionName paramName
  else createIrP4ActionField info actionName paramName

/-- `BitsetToP4RuntimeByteString<16>` of an integer, which keeps its low bits. -/
def bits16ToP4RuntimeByteString (n : UInt32) : Bytes := arbitraryToCanonicalByteString (natToBytes 2 (n.toNat % 2 ^ 16))

/-- The name of the oneof field that a match sets. -/
def MatchValue.caseName : MatchValue → String
  | .notSet => ""
  | .exact _ => "exact"
  | .lpm _ _ => "lpm"
  | .ternary _ _ => "ternary"
  | .range _ _ => "range"
  | .optional _ => "optional"

/-- The value of a match field of an entry, none for an optional field that is absent. -/
def getP4MatchFieldValue (field : IrP4MatchField) (entry : TableEntry) : StatusOr (Option Bytes) :=
  match entry.matches_.find? fun m => m.fieldId = field.fieldId with
  | some ⟨_,.exact value⟩ => .ok (some value)
  | some ⟨_,.optional value⟩ => .ok (some value)
  | some ⟨_,.notSet⟩ => .error (invalidArgument "Oneof message is not set: field_match_type")
  | some ⟨_,value⟩ => .error ⟨.unimplemented,"Only match field type EXACT and OPTIONAL are supported in references. Match field '" ++
      field.fieldName ++ "' has type '" ++ MatchValue.caseName value ++ "'."⟩
  | none =>
    if field.isOptional then .ok none
    else .error (invalidArgument ("Missing EXACT match field value for " ++ field.fieldName ++ " in entity:\n "))

def getBuiltInMatchFieldValue (field : IrBuiltInMatchField) (entry : MulticastGroupEntry) : StatusOr Bytes :=
  match field with
  | .multicastGroupId => .ok (bits16ToP4RuntimeByteString entry.multicastGroupId)
  | .unspecified => .error ⟨.internal,
      "Built-in field BUILT_IN_MATCH_FIELD_UNSPECIFIED is not a multicast group entry match field."⟩

def getMatchFieldValue (field : IrMatchField) (entity : Entity) : StatusOr (Option Bytes) :=
  match field with
  | .p4MatchField f => match entity with
    | .tableEntry e => getP4MatchFieldValue f e
    | _ => .error (invalidArgument "IrMatchField was an IrP4MatchField but entity was not a table entry. IrMatchField: ")
  | .builtInMatchField f => match entity with
    | .packetReplicationEngineEntry (.multicastGroupEntry e) => (getBuiltInMatchFieldValue f e).map some
    | _ => .error (invalidArgument
        "IrMatchField was an IrBuiltInMatchField but entity was not a multicast group entry. IrMatchField: ")
  | .notSet => .error (invalidArgument "IrMatchField field oneof not set.")

/-- `source().action_field().p4_action_field()`, empty for other fields. -/
def p4ActionField : IrField → IrP4ActionField
  | .actionField (.p4ActionField f) => f
  | _ => ⟨"",0,"",0⟩

def builtInActionField : IrField → IrBuiltInActionField
  | .actionField (.builtInActionField f) => f
  | _ => ⟨.unspecified,.unspecified⟩

def irMatchField : IrField → IrMatchField
  | .matchField f => f
  | _ => .notSet

def irActionField : IrField → IrActionField
  | .actionField f => f
  | _ => .notSet

def getActionFieldValue (field : IrP4ActionField) (action : Action) : StatusOr Bytes :=
  match action.params.find? fun p => p.paramId = field.parameterId with
  | some p => .ok p.value
  | none => .error (invalidArgument ("Action " ++ field.actionName ++ " is missing parameter " ++ field.parameterName))

def getReplicaFieldValue (field : IrBuiltInActionField) (replica : Replica) : StatusOr Bytes :=
  match field.parameter with
  | .replicaPort => .ok replica.port
  | .replicaInstance => .ok (bits16ToP4RuntimeByteString replica.instanceId)
  | .unspecified => .error (invalidArgument "Unknown IrBuiltInActionField ")

structure ConcreteFieldReference where
  sourceField : String
  destinationField : String
  value : Bytes
  deriving DecidableEq

abbrev PartialConcreteTableReference := Finset ConcreteFieldReference

structure ConcreteTableReference where
  sourceTable : String
  destinationTable : String
  fields : PartialConcreteTableReference
  deriving DecidableEq

inductive FieldReferenceType where
  | matchFieldToMatchField | actionParamToMatchField
  deriving DecidableEq

def getReferenceType (r : FieldReference) : StatusOr FieldReferenceType :=
  match r.source,r.destination with
  | .matchField _,.matchField _ => .ok .matchFieldToMatchField
  | .actionField _,.matchField _ => .ok .actionParamToMatchField
  | _,_ => .error ⟨.unimplemented,"Unsupported field reference from IrField "⟩

def entityName : Entity → String
  | .other field => field
  | _ => ""

def validateEntityBelongsToTable (entity : Entity) (table : IrTable) : StatusOr Unit :=
  match entity with
  | .tableEntry e => match table with
    | .p4Table _ id =>
      if e.tableId ≠ id then .error (invalidArgument ("Provided table entry had id " ++ natText e.tableId.toNat ++
        " but IrP4Table had id " ++ natText id.toNat))
      else .ok ()
    | _ => .error (invalidArgument "Entity contained a table entry but IrTable was not an IrP4Table. IrTable: ")
  | .packetReplicationEngineEntry (.multicastGroupEntry _) => match table with
    | .builtInTable t =>
      if t ≠ .multicastGroupTable then .error (invalidArgument ("Entity contained multicast group entry but IrBuiltInTable was " ++
        "not BUILT_IN_TABLE_MULTICAST_GROUP_ENTRY. IrTable: "))
      else .ok ()
    | _ => .error (invalidArgument "Entity contained built-in table but IrTable was not a IrBuiltInTable. IrTable: ")
  | .packetReplicationEngineEntry _ => .error ⟨.unimplemented,
      "Only packet replication engine entries of type multicast are supported. Entity: "⟩
  | .notSet => .error (invalidArgument "Oneof message is not set: entity")
  | other => .error ⟨.unimplemented,"Cannot create reference entries for unsupported entity type: " ++ entityName other ++
      ". Entity: "⟩

/-- The type of a field reference, whose destination must not be optional. -/
def supportedReferenceType (r : FieldReference) : StatusOr FieldReferenceType :=
  if fieldIsOptional r.destination then .error ⟨.unimplemented,"References to optional fields are not supported.\n"⟩
  else getReferenceType r

def concreteFieldReference (value : FieldReference → StatusOr Bytes) (r : FieldReference) : StatusOr ConcreteFieldReference := do
  let sourceName ← getNameOfField r.source
  let destinationName ← getNameOfField r.destination
  let v ← value r
  .ok ⟨sourceName,destinationName,v⟩

def partialReference (value : FieldReference → StatusOr Bytes) (refs : List FieldReference) :
    StatusOr PartialConcreteTableReference :=
  (refs.mapM (concreteFieldReference value)).map List.toFinset

def getPartialReferenceFromAction (refs : List FieldReference) (action : Action) : StatusOr PartialConcreteTableReference :=
  partialReference (fun r => getActionFieldValue (p4ActionField r.source) action) refs

def getPartialReferenceFromReplica (refs : List FieldReference) (replica : Replica) : StatusOr PartialConcreteTableReference :=
  partialReference (fun r => getReplicaFieldValue (builtInActionField r.source) replica) refs

def concreteFieldReferenceFromDestinationMatchField (entity : Entity) (r : FieldReference) : StatusOr ConcreteFieldReference := do
  match ← getMatchFieldValue (irMatchField r.destination) entity with
  | none => .error ⟨.internal,"Referenced fields cannot be OPTIONAL but we failed to find a value for field "⟩
  | some value =>
    let sourceName ← getNameOfField r.source
    let destinationName ← getNameOfField r.destination
    .ok ⟨sourceName,destinationName,value⟩

/-- The references from parameters of a user-defined action. -/
def ofAction (id : UInt32) (refs : List FieldReference) : List FieldReference :=
  refs.filter fun r => match r.source with
    | .actionField (.p4ActionField f) => f.actionId = id
    | _ => false

def ofReplica (refs : List FieldReference) : List FieldReference :=
  refs.filter fun r => match r.source with
    | .actionField (.p4ActionField _) => false
    | _ => true

/-- A backup replica is treated as a replica without backups. -/
def backupReplicaAsReplica (b : BackupReplica) : Replica := { portKind := .port b.port,instanceId := b.instanceId }

def allReplicas (e : MulticastGroupEntry) : List Replica :=
  e.replicas.flatMap fun r => r :: r.backupReplicas.map backupReplicaAsReplica

def actionPartialReferences (refs : List FieldReference) (entity : Entity) : StatusOr (List PartialConcreteTableReference) :=
  match entity with
  | .tableEntry e => match e.action with
    | some (.action a) => [a].mapM fun a => getPartialReferenceFromAction (ofAction a.actionId refs) a
    | some (.actionProfileActionSet actions) =>
      actions.mapM fun a => getPartialReferenceFromAction (ofAction a.action.actionId refs) a.action
    | _ => .error (invalidArgument "Unknown TableAction ")
  | .packetReplicationEngineEntry (.multicastGroupEntry e) =>
    (allReplicas e).mapM (getPartialReferenceFromReplica (ofReplica refs))
  | _ => .error (invalidArgument "Unknown Entity ")

/-- A match field reference of an entity, none when the field is absent. -/
def matchFieldReference (entity : Entity) (r : FieldReference) : StatusOr (Option ConcreteFieldReference) := do
  let sourceName ← getNameOfField r.source
  let destinationName ← getNameOfField r.destination
  let value ← getMatchFieldValue (irMatchField r.source) entity
  .ok (value.map fun v => ⟨sourceName,destinationName,v⟩)

def matchFieldPartialReference (refs : List FieldReference) (entity : Entity) : StatusOr PartialConcreteTableReference :=
  (refs.mapM (matchFieldReference entity)).map fun fields => fields.reduceOption.toFinset

/-- Empty references are not created. -/
def nonemptyReferences (source destination : String) (parts : List PartialConcreteTableReference) :
    Finset ConcreteTableReference :=
  ((parts.filter fun p => p ≠ ∅).map fun p => ⟨source,destination,p⟩).toFinset

/-- The references from match fields and those from parameters, in order. -/
def groupByType (refs : List FieldReference) : StatusOr (List FieldReference × List FieldReference) := do
  let types ← refs.mapM supportedReferenceType
  let ofType (type : FieldReferenceType) := ((refs.zip types).filter fun r => r.2 = type).map Prod.fst
  .ok (ofType .matchFieldToMatchField,ofType .actionParamToMatchField)

def outgoingConcreteTableReferences (info : IrTableReference) (entity : Entity) : StatusOr (Finset ConcreteTableReference) := do
  validateEntityBelongsToTable entity info.sourceTable
  let (matchRefs,actionRefs) ← groupByType info.fieldReferences
  let actionParts ← actionPartialReferences actionRefs entity
  let matchPart ← matchFieldPartialReference matchRefs entity
  let source ← getNameOfTable info.sourceTable
  let destination ← getNameOfTable info.destinationTable
  if actionParts.isEmpty && matchPart ≠ ∅ then .ok {⟨source,destination,matchPart⟩}
  else .ok (nonemptyReferences source destination (actionParts.map (· ∪ matchPart)))

def sourceActionName (r : FieldReference) : StatusOr (Option String) := do
  match ← supportedReferenceType r with
  | .matchFieldToMatchField => .ok none
  | .actionParamToMatchField => (getNameOfAction (irActionField r.source)).map some

/-- The references from match fields, and those from parameters grouped by the name of their
action. -/
def groupByActionName (refs : List FieldReference) : StatusOr (List FieldReference × List (List FieldReference)) := do
  let names ← refs.mapM sourceActionName
  let ofName (name : Option String) := ((refs.zip names).filter fun r => r.2 = name).map Prod.fst
  .ok (ofName none,(names.reduceOption.dedup).map fun name => ofName (some name))

/-- Every set of parts, with and without each optional one. -/
def withOptionals (parts : List PartialConcreteTableReference) (optionals : List ConcreteFieldReference) :
    List PartialConcreteTableReference :=
  optionals.foldl (fun parts o => parts ++ parts.map (insert o)) parts

def possibleIncomingConcreteTableReferences (info : IrTableReference) (entity : Entity) :
    StatusOr (Finset ConcreteTableReference) := do
  validateEntityBelongsToTable entity info.destinationTable
  let (matchRefs,groups) ← groupByActionName info.fieldReferences
  let actionParts ← groups.mapM fun group =>
    (group.mapM (concreteFieldReferenceFromDestinationMatchField entity)).map List.toFinset
  let exact ← (matchRefs.filter fun r => !fieldIsOptional r.source).mapM
    (concreteFieldReferenceFromDestinationMatchField entity)
  let optionals ← (matchRefs.filter fun r => fieldIsOptional r.source).mapM
    (concreteFieldReferenceFromDestinationMatchField entity)
  let matchParts := withOptionals [exact.toFinset] optionals
  let source ← getNameOfTable info.sourceTable
  let destination ← getNameOfTable info.destinationTable
  .ok (nonemptyReferences source destination matchParts ∪
    nonemptyReferences source destination (matchParts.flatMap fun m => actionParts.map (· ∪ m)))

def getTableReferences (ofTable : IrTableDefinition → List IrTableReference)
    (ofBuiltIn : IrBuiltInTableDefinition → List IrTableReference) (info : IrP4Info) (entity : Entity) :
    StatusOr (List IrTableReference) :=
  match entity with
  | .tableEntry e =>
    (findPtrOrStatus info.tablesById e.tableId).map ofTable
  | .packetReplicationEngineEntry (.multicastGroupEntry _) =>
    (findPtrOrStatus info.builtInTables getMulticastGroupTableName).map ofBuiltIn
  | _ => .error (invalidArgument "Unsupported entity type: ")

def getIncomingTableReferences (info : IrP4Info) (entity : Entity) : StatusOr (List IrTableReference) :=
  getTableReferences IrTableDefinition.incomingReferences IrBuiltInTableDefinition.incomingReferences info entity

def getOutgoingTableReferences (info : IrP4Info) (entity : Entity) : StatusOr (List IrTableReference) :=
  getTableReferences IrTableDefinition.outgoingReferences IrBuiltInTableDefinition.outgoingReferences info entity

/-- The order among the references of a hash set is not specified. -/
structure EntityWithUnsatisfiedReferences where
  entity : Entity
  unsatisfiedReferences : Multiset ConcreteTableReference
  deriving DecidableEq

def satisfiableReferences (info : IrP4Info) (entity : Entity) : StatusOr (List (Finset ConcreteTableReference)) := do
  let references ← getIncomingTableReferences info entity
  references.mapM fun r => possibleIncomingConcreteTableReferences r entity

def unsatisfiedReferences (info : IrP4Info) (satisfiable : List (Finset ConcreteTableReference)) (entity : Entity) :
    StatusOr EntityWithUnsatisfiedReferences := do
  let references ← getOutgoingTableReferences info entity
  let concrete ← references.mapM fun r => outgoingConcreteTableReferences r entity
  .ok ⟨entity,(concrete.map fun refs => (refs.filter fun r => ∀ s ∈ satisfiable,r ∉ s).val).sum⟩

def unsatisfiedOutgoingReferences (entities : List Entity) (info : IrP4Info) : StatusOr (List EntityWithUnsatisfiedReferences) := do
  let satisfiable ← entities.mapM (satisfiableReferences info)
  let all ← entities.mapM (unsatisfiedReferences info satisfiable.flatten)
  .ok (all.filter fun e => e.unsatisfiedReferences ≠ 0)

end SonicPins.Pdpi.References
