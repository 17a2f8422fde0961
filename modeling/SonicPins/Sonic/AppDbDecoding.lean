import SonicPins.Sonic.AppDbEncoding

/-! Table entries read back from the AppDb rows of the P4RT table. -/
namespace SonicPins.Sonic
open Lib Pdpi P4rtApp

def digitsValue (ds : List Char) : Nat := (readNumeral 10 ds).getD 0

/-- `std::strtod` on the literal of a JSON number. -/
def floatOfLiteral (literal : String) : Float :=
  let (negative,l) := match literal.toList with
    | '-' :: l => (true,l)
    | l => (false,l)
  let rest := l.dropWhile Json.isDigit
  let fraction := match rest with
    | '.' :: r => r.takeWhile Json.isDigit
    | _ => []
  let exponent : Int := match rest.dropWhile fun c => c ≠ 'e' && c ≠ 'E' with
    | _ :: '-' :: ds => -(digitsValue ds : Int)
    | _ :: '+' :: ds => digitsValue ds
    | _ :: ds => digitsValue ds
    | [] => 0
  let scale := exponent - fraction.length
  let value := Float.ofScientific (digitsValue (l.takeWhile Json.isDigit ++ fraction)) (scale < 0) scale.natAbs
  if negative then -value else value

/-- `get<int>()`, which converts numbers and truth values. -/
def getInt32? : Json → Option Int32
  | .num n => some (Int32.ofInt n)
  | .float literal => some (floatOfLiteral literal).toInt32
  | .bool b => some (if b then 1 else 0)
  | _ => none

def typeError {α : Type} : Fallible α := .error (.thrown "[json.exception.type_error.302]")

def getInt (j : Json) : Fallible Int32 :=
  match getInt32? j with
  | some n => .ok n
  | none => typeError

/-- `get<std::string>()`. -/
def getString (j : Json) : Fallible String :=
  match j.getString? with
  | some s => .ok s
  | none => typeError

/-- `std::stoi`, which stops at the first character that is no digit. -/
def stoi (s : String) : Fallible Int32 :=
  let (negative,l) := splitSign (s.toList.dropWhile isAsciiSpace)
  match readNumeral 10 (l.takeWhile Json.isDigit) with
  | none => .error (.thrown "stoi")
  | some n =>
    let value : Int := if negative then -(n : Int) else n
    if -2 ^ 31 ≤ value ∧ value < 2 ^ 31 then .ok (Int32.ofInt value) else .error (.thrown "stoi")

def stripAppDbMatchPrefix (key : String) : StatusOr String :=
  match strDropPrefix "match/" key with
  | some name => .ok name
  | none => .error (invalidArgument ("SONiC AppDB match field does not start with match/: " ++ key))

def stripAppDbActionParamPrefix (key : String) : StatusOr String :=
  match strDropPrefix "param/" key with
  | some name => .ok name
  | none => .error (invalidArgument ("SONiC AppDB action parameter does not start with param/: " ++ key))

/-- What follows the first colon, the whole key without one. -/
def sonicDbKeyToAppDbKey (key : String) : String :=
  if ':' ∈ key.toList then String.ofList ((key.toList.dropWhile (· ≠ ':')).drop 1) else key

/-- The types of the definition tables have an underscore in their names, which the caller
never passes. -/
def typeParse (name : String) : StatusOr TableType :=
  if name = "ACL" then .ok .acl
  else if name = "FIXED" then .ok .fixed
  else if name = "EXT" then .ok .ext
  else .error (invalidArgument ("\"" ++ name ++ "\" does not name a valid table::Type."))

def sonicDbKeyToP4TableName (key : String) : StatusOr String :=
  let sonicTableName := key.toList.takeWhile (· ≠ ':')
  match typeParse (String.ofList (sonicTableName.takeWhile (· ≠ '_'))) with
  | .error _ => .error (invalidArgument ("Key '" ++ key ++ "' does not follow the expected format <TableType>_<P4TableName>."))
  | .ok _ =>
    let name := if '_' ∈ sonicTableName then (sonicTableName.dropWhile (· ≠ '_')).drop 1 else sonicTableName
    .ok (asciiToLower (String.ofList name))

section Matches
variable (info : IrP4Info) (tableName : String)

def appDbLpmValueToIrLpmMatch (value : String) (format : Format) : Fallible IrMatchValue :=
  match strSplit '/' value with
  | [v,prefixLength] => (stoi prefixLength).map fun p => .lpm (formattedStringToIrValue v format) p
  | _ => .error (.status (invalidArgument ("Invalid LPM value: " ++ value)))

def appDbTernaryValueToIrTernaryMatch (value : String) (format : Format) : StatusOr IrMatchValue :=
  match strSplit '&' value with
  | [v,mask] => .ok (.ternary (formattedStringToIrValue v format) (formattedStringToIrValue mask format))
  | _ => .error (invalidArgument ("Invalid ternary value: " ++ value))

def appDbMatchValue (d : IrMatchFieldDefinition) (value : String) : Fallible IrMatchValue :=
  match d.matchField.matchType with
  | .exact => .ok (.exact (formattedStringToIrValue value d.format))
  | .lpm => appDbLpmValueToIrLpmMatch value d.format
  | .ternary => orFail (appDbTernaryValueToIrTernaryMatch value d.format)
  | .optional => .ok (.optional (formattedStringToIrValue value d.format))
  | _ => .error (.status (invalidArgument "Unsupported match field type: "))

def appDbKeyValueStringsToIrMatch (key value : String) : Fallible IrMatch :=
  match info.tablesByName.lookup (asciiToLower tableName) with
  | none => .error (.status ⟨.notFound,"Could not translate AppDb match field '" ++ key ++
      "' into IR because the table '" ++ tableName ++ "' does not exist."⟩)
  | some table => match table.matchFieldsByName.lookup (asciiToLower key) with
    | none => .error (.status ⟨.notFound,"Could not translate AppDb match field '" ++ key ++
        "' into IR because table '" ++ tableName ++ "' does not have the required field."⟩)
    | some d => (appDbMatchValue d value).map fun v => ⟨key,v⟩

def appDbKeyMember (entry : IrTableEntry) (member : String × Json) : Fallible IrTableEntry :=
  if member.1 = "priority" then (getInt member.2).map fun p => { entry with priority := p }
  else do
    let key ← orFail (stripAppDbMatchPrefix member.1)
    let value ← getString member.2
    let m ← appDbKeyValueStringsToIrMatch info tableName key value
    .ok { entry with matches_ := entry.matches_ ++ [m] }

/-- Only the members of an object have keys. -/
def appDbKeyToIrTableEntry (jsonKey : String) : Fallible IrTableEntry :=
  match Json.parse jsonKey with
  | none => .error (.status ⟨.unknown,"Could not parse JSON string: " ++ jsonKey⟩)
  | some .null => .ok { tableName := tableName }
  | some (.arr []) => .ok { tableName := tableName }
  | some (.obj members) => members.foldlM (appDbKeyMember info tableName) { tableName := tableName }
  | some _ => .error (.thrown "[json.exception.invalid_iterator.207]")

end Matches

section Actions
variable (info : IrP4Info) (tableName : String)

def appDbNameValueStringsToIrActionParam (actionName appDbParamName value : String) : StatusOr IrActionParam := do
  let paramName ← stripAppDbActionParamPrefix appDbParamName
  match info.tablesByName.lookup (asciiToLower tableName) with
  | none => .error ⟨.notFound,"Could not translate AppDb action '" ++ actionName ++ "' into IR because table name '" ++
      tableName ++ "' does not exist?"⟩
  | some table => match table.entryActions.find? fun a => a.preamble.aliasName = actionName with
    | none => .error (invalidArgument ("Unsupported action " ++ actionName ++ " for table " ++ tableName ++ "."))
    | some action => match action.paramsByName.lookup paramName with
      | none => .error ⟨.notFound,"Could not translate AppDb action parameter '" ++ paramName ++
          "' to IR because it doesn't exist in the table action '" ++ tableName ++ "." ++ actionName ++ "()'"⟩
      | some d => .ok ⟨paramName,formattedStringToIrValue value d.format⟩

/-- `at(key)` followed by a conversion; any exception is caught. -/
def jsonAt? {α : Type} (get : Json → Option α) (j : Json) (key : String) : Option α :=
  match j with
  | .obj members => (members.lookup key).bind get
  | _ => none

/-- The members of an action beside its name and weight. -/
def appDbActionMember (actionName : String) (a : IrActionSetInvocation) (member : String × Json) :
    Fallible IrActionSetInvocation :=
  if member.1 = "action" ∨ member.1 = "weight" then .ok a
  else if member.1 = "watch_port" then (getString member.2).map fun port => { a with watchPort := utf8 port }
  else do
    let value ← getString member.2
    let param ← orFail (appDbNameValueStringsToIrActionParam info tableName actionName member.1 value)
    .ok { a with action := { a.action with params := a.action.params ++ [param] } }

def appDbActionToIr (j : Json) : Fallible IrActionSetInvocation :=
  match jsonAt? Json.getString? j "action" with
  | none => .error (.status (invalidArgument ("JSON ActionSet action is missing a name: " ++ j.dump)))
  | some name => match jsonAt? getInt32? j "weight" with
    | none => .error (.status (invalidArgument ("JSON ActionSet action is missing a weight: " ++ j.dump)))
    | some weight => match j with
      | .obj members => members.foldlM (appDbActionMember info tableName name) ⟨{ name := name },weight,[]⟩
      | _ => .ok ⟨{ name := name },weight,[]⟩

def appDbValueToIrActionSet (appDbEntry : Bytes) : Fallible (List IrActionSetInvocation) :=
  match (ofUtf8? appDbEntry).bind Json.parse with
  | none => .error (.status ⟨.internal,"Could not parse JSON string: " ++ (ofUtf8? appDbEntry).getD (cEscape appDbEntry)⟩)
  | some json => json.elements.mapM (appDbActionToIr info tableName)

/-- `mutable_action()`, which replaces an action set by an empty action. -/
def mutableAction : IrTableEntryType → IrActionInvocation
  | .action a => a
  | _ => {}

def addAppDbMeterDataToIrTableEntry (meterKey : String) (meterData : Bytes) (entry : IrTableEntry) : StatusOr IrTableEntry :=
  match (ofUtf8? meterData).bind simpleAtoi64 with
  | none => .error (invalidArgument (meterKey ++ " value (" ++ (ofUtf8? meterData).getD (cEscape meterData) ++
      ") is not an integer."))
  | some n =>
    let value := Int64.ofInt n
    let config := entry.meterConfig.getD {}
    if meterKey = "meter/cir" then .ok { entry with meterConfig := some { config with cir := value } }
    else if meterKey = "meter/cburst" then .ok { entry with meterConfig := some { config with cburst := value } }
    else if meterKey = "meter/pir" then .ok { entry with meterConfig := some { config with pir := value } }
    else if meterKey = "meter/pburst" then .ok { entry with meterConfig := some { config with pburst := value } }
    else .error (invalidArgument (meterKey ++ " is not a recognized meter value."))

/-- Names and values that are not text cannot be shown in this model, and no row has them. -/
def rowText (b : Bytes) : Fallible String :=
  match ofUtf8? b with
  | some s => .ok s
  | none => .error (.thrown "not text")

def appDbField (actionName : Option String) (entry : IrTableEntry) (field : FieldValue) : Fallible IrTableEntry :=
  if field.1 = "action" then
    (rowText field.2).map fun name => { entry with type := .action { mutableAction entry.type with name := name } }
  else if field.1 = "actions" then
    (appDbValueToIrActionSet info tableName field.2).map fun actions => { entry with type := .actionSet actions }
  else if (strDropPrefix "param/" field.1).isSome then
    match actionName with
    | none => .error (.status (invalidArgument ("AppDb entry has action parameter " ++ field.1 ++ ", but no 'action' name.")))
    | some name => do
      let value ← rowText field.2
      let param ← orFail (appDbNameValueStringsToIrActionParam info tableName name field.1 value)
      let action := mutableAction entry.type
      .ok { entry with type := .action { action with params := action.params ++ [param] } }
  else if (strDropPrefix "meter/" field.1).isSome then orFail (addAppDbMeterDataToIrTableEntry field.1 field.2 entry)
  else if field.1 = "controller_metadata" then .ok { entry with controllerMetadata := field.2 }
  else .error (.status (invalidArgument ("AppDb Entry contained unknown value '" ++ field.1 ++ ": " ++
    (ofUtf8? field.2).getD (cEscape field.2) ++ "'.")))

end Actions

def hasField (values : List FieldValue) (field : String) : Bool := values.any fun v => v.1 = field

/-- The last field of a name wins. -/
def lastField (values : List FieldValue) (field : String) : Option Bytes :=
  (values.reverse.find? fun v => v.1 = field).map Prod.snd

def rowActionName (values : List FieldValue) : Fallible (Option String) :=
  match lastField values "action" with
  | none => .ok none
  | some name => (rowText name).map some

def appDbKeyAndValuesToIrTableEntry (info : IrP4Info) (appDbKey : String) (values : List FieldValue) :
    Fallible IrTableEntry := do
  let tableName ← orFail (sonicDbKeyToP4TableName appDbKey)
  let entry ← appDbKeyToIrTableEntry info tableName (sonicDbKeyToAppDbKey appDbKey)
  let actionName ← rowActionName values
  let entry ← values.foldlM (appDbField info tableName actionName) entry
  if hasField values "action" && hasField values "actions" then
    .error (.status ⟨.internal,"AppDb entry has both an IrAction and an IrActionSet: " ++ appDbKey⟩)
  else .ok entry

end SonicPins.Sonic
