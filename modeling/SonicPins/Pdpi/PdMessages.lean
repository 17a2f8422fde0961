import Mathlib.Data.List.Sort
import Mathlib.Logic.Function.Basic
import SonicPins.Pdpi.PacketIo

/-! The messages of the proto that pdgen generates for a P4Info, by the fields that
their tables, actions and packets declare. -/
namespace SonicPins.Pdpi
open Lib

structure PdGenOptions where
  package : String := "pdpi"
  roles : List String := [""]
  multicastTableFieldNumber : Option Int16 := none
  deriving DecidableEq

/-- `absl::ConsumeSuffix`. -/
def strDropSuffix (suffix s : String) : Option String :=
  if suffix.toList <:+ s.toList then some (String.ofList (s.toList.take (s.toList.length - suffix.toList.length))) else none

theorem strDropSuffix_eq_some {suffix s r : String} : strDropSuffix suffix s = some r ↔ s = r ++ suffix := by
  unfold strDropSuffix
  constructor
  · intro h
    split_ifs at h with hsuffix
    obtain ⟨front,hs⟩ := hsuffix
    rw [← hs] at h
    obtain rfl := Option.some.inj h
    rw [← String.toList_inj,← hs]
    simp
  · rintro rfl
    simp

/-- A letter that follows an underscore becomes upper case, and the underscore goes. -/
def pascalCaseRest : List Char → List Char
  | [] => []
  | ['_'] => []
  | '_' :: c :: rest => c.toUpper :: pascalCaseRest rest
  | c :: rest => c :: pascalCaseRest rest

def snakeCaseToPascalCase (input : String) : String :=
  String.ofList (match input.toList with
    | [] => []
    | '_' :: rest => pascalCaseRest ('_' :: rest)
    | c :: rest => c.toUpper :: pascalCaseRest rest)

/-- `P4NameToProtobufMessageName`: the suffix is appended unless it is there. -/
def p4NameToProtobufMessageName (p4Name suffix : String) : String :=
  let name := snakeCaseToPascalCase p4Name
  (strDropSuffix suffix name).getD name ++ suffix

def tableMessageName (table : IrTableDefinition) : String := p4NameToProtobufMessageName table.preamble.aliasName "Entry"

def actionMessageName (action : IrActionDefinition) : String := p4NameToProtobufMessageName action.preamble.aliasName "Action"

def tableFieldName (p4Name : String) : String := p4Name ++ "_entry"

def protobufFieldNameToP4Name (protoFieldName : String) : StatusOr String :=
  match strDropSuffix "_entry" protoFieldName with
  | some name => .ok name
  | none => .error (invalidArgument ("expected field name '" ++ protoFieldName ++ "' to end in suffix _entry"))

def IrTableDefinition.pdMatchFields (table : IrTableDefinition) : List String :=
  (table.matchFieldsById.insertionSort fun a b => a.2.matchField.id ≤ b.2.matchField.id).map fun x => x.2.matchField.name

def IrTableDefinition.pdActionFields (table : IrTableDefinition) : List String :=
  (table.entryActions.insertionSort fun a b => a.preamble.id ≤ b.preamble.id).map fun a => a.preamble.aliasName

def IrActionDefinition.pdFields (action : IrActionDefinition) : List String :=
  (action.paramsById.insertionSort fun a b => a.2.param.id ≤ b.2.param.id).map fun x => x.2.param.name

/-- The kinds of match that give a table message its priority. -/
def IrTableDefinition.hasPriority (table : IrTableDefinition) : Bool :=
  table.matchFieldsById.any fun x => x.2.matchField.matchType = .ternary ∨ x.2.matchField.matchType = .optional ∨
    x.2.matchField.matchType = .range

def IrTableDefinition.pdFields (table : IrTableDefinition) : List String :=
  ["match",if table.usesOneshot then "wcmp_actions" else "action"] ++ (if table.hasPriority then ["priority"] else []) ++
    (if table.hasMeter then ["meter_config"] else []) ++ (if table.hasCounter then ["counter_data"] else []) ++
    (if table.hasMeter ∧ table.hasCounter then ["meter_counter_data"] else []) ++ ["controller_metadata"]

/-- The fields of `TableEntry`: the tables of the chosen roles, and the multicast group table. -/
def pdEntryFields (gen : PdGenOptions) (info : IrP4Info) : List String :=
  ((info.tablesById.filter fun x => x.2.role ∈ gen.roles).insertionSort fun a b => a.2.preamble.id ≤ b.2.preamble.id).map
      (fun x => tableFieldName x.2.preamble.aliasName) ++
    if gen.multicastTableFieldNumber.isSome then ["multicast_group_table_entry"] else []

def pdMetadataFields (info : IrP4Info) (kind : PacketIoKind) : List String :=
  ((info.packetMetadataByName kind).filter fun x => !x.2.isPadding).map fun x => x.2.metadata.name

/-- `GetFieldDescriptor` on a message with the given fields. -/
def getFieldDescriptor (typeName : String) (fields : List String) (fieldname : String) : StatusOr Unit :=
  if fieldname ∈ fields then .ok () else .error (invalidArgument ("Field " ++ fieldname ++ " missing in " ++ typeName))

theorem getFieldDescriptor_eq_ok {typeName : String} {fields : List String} {fieldname : String} :
    getFieldDescriptor typeName fields fieldname = .ok () ↔ fieldname ∈ fields := by
  unfold getFieldDescriptor
  split_ifs with h <;> simp [h]

inductive PdMatchMessage where
  | lpm (value : String) (prefixLength : Int32)
  | ternary (value mask : String)
  | optional (value : String)
  deriving DecidableEq

/-- A `Match` message: the text of every exact field, empty when unset, and the other fields that are set. -/
structure PdMatch where
  text : String → String := fun _ => ""
  message : String → Option PdMatchMessage := fun _ => none

/-- What is written to a field of a `Match` message. -/
inductive PdFieldValue where
  | text (value : String)
  | message (value : PdMatchMessage)
  deriving DecidableEq

def PdMatch.set (m : PdMatch) (name : String) : PdFieldValue → PdMatch
  | .text value => { m with text := Function.update m.text name value }
  | .message value => { m with message := Function.update m.message name (some value) }

/-- An `Action` message: the action that is set, with the texts of its parameters. -/
abbrev PdAction := Option (String × (String → String))

structure PdWcmpAction where
  action : Option PdAction := none
  weight : Int32 := 0
  watchPort : Bytes := []

/-- `BytesMeterConfig` and `PacketsMeterConfig`. -/
structure PdMeterConfig where
  perSecond : Int64 := 0
  burst : Int64 := 0
  deriving DecidableEq

/-- The message of a table. Counts in a unit that its counter does not declare stay zero. -/
structure PdTable where
  match_ : Option PdMatch := none
  action : Option PdAction := none
  wcmpActions : List PdWcmpAction := []
  priority : Int32 := 0
  meterConfig : Option PdMeterConfig := none
  counterData : Option CounterData := none
  meterCounterData : Option MeterCounterData := none
  controllerMetadata : Bytes := []

structure PdBackupReplica where
  port : Bytes := []
  instanceId : String := ""
  deriving DecidableEq

structure PdReplica where
  port : Bytes := []
  instanceId : String := ""
  backupReplicas : List PdBackupReplica := []
  deriving DecidableEq

/-- `MulticastGroupTableEntry`: the group id of its `Match`, the replicas of the `ReplicateAction` of its `Action`. -/
structure PdMulticastGroupTableEntry where
  match_ : Option String := none
  action : Option (Option (List PdReplica)) := none
  metadata : Bytes := []
  deriving DecidableEq

/-- `TableEntry`, by the field of its oneof. -/
inductive PdTableEntry where
  | notSet
  | multicastGroupTableEntry (entry : PdMulticastGroupTableEntry)
  | table (fieldName : String) (entry : PdTable)

/-- `PacketIn` and `PacketOut`, with the texts of the metadata. -/
structure PdPacketIo where
  payload : Bytes := []
  metadata : Option (String → String) := none

end SonicPins.Pdpi
