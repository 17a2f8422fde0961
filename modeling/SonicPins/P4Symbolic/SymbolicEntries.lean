import SonicPins.Lib.SortedMap
import SonicPins.P4Symbolic.Ir
import SonicPins.P4Symbolic.Operators
import SonicPins.P4Symbolic.Values
import SonicPins.Pdpi.References

/-! The symbolic variables and constraints of symbolic table entries, and how an evaluation
starts. -/
namespace SonicPins.P4Symbolic
open Lib Pdpi Ir

structure SolverState where
  solver : List Term := []
  translator : P4RuntimeTranslator := {}

def SolverState.add (state : SolverState) (constraint : Term) : SolverState :=
  { state with solver := state.solver ++ [constraint] }

def notFound (message : String) : Failure := .status ⟨.notFound,message⟩

def invalid (message : String) : Failure := .status (invalidArgument message)

/-- `at` of a map. -/
def atKey {α : Type} (m : List (String × α)) (k : String) : Fallible α :=
  match m.lookup k with
  | none => .error (.thrown "std::out_of_range")
  | some v => .ok v

structure SymbolicMatch where
  matchType : MatchType
  value : Term
  mask : Term

/-- `$valid$` and `$extracted$`. -/
def pseudoFields : List String := ["$valid$","$extracted$"]

def getFieldBitwidth (headerName fieldName : String) (program : P4Program) : Fallible Nat :=
  if fieldName ∈ pseudoFields then .ok 1
  else
    match program.headers.lookup headerName with
    | none => .error (invalid ("Unexpected header instance '" ++ headerName ++ "'"))
    | some header =>
      match header.fields.lookup fieldName with
      | none => .error (invalid ("Unexpected field '" ++ fieldName ++ "' in header '" ++ headerName ++ "'"))
      | some bitwidth => .ok bitwidth

def matchTypeToStr : MatchType → Option String
  | .exact => some "exact"
  | .lpm => some "lpm"
  | .ternary => some "ternary"
  | .optional => some "optional"
  | _ => none

def checkBitwidth (defined implemented : Nat) (what : String) : Fallible Unit :=
  if defined ≠ 0 ∧ defined ≠ implemented then
    .error (.status ⟨.internal,"Bit-width of " ++ what ++ "' is inconsistent between the definition and implementation."⟩)
  else .ok ()

def getSymbolicMatch (entry : SymbolicTableEntry) (matchName : String) (table : Table) (program : P4Program) :
    Fallible SymbolicMatch := do
  let definition ← match table.tableDefinition.matchFieldsByName.lookup matchName with
    | none => .error (notFound ("Match '" ++ matchName ++ "' not found in table '" ++ entry.tableName ++ "'"))
    | some definition => .ok definition
  let matchTypeText ← match matchTypeToStr definition.matchField.matchType with
    | none => .error (invalid "Match type must be one of [exact, lpm, ternary, optional].")
    | some text => .ok text
  if entry.matches_.all (·.name ≠ matchName) then
    .error (invalid ("Match '" ++ matchName ++ "' is an explicit wildcard."))
  let field ← match table.matchNameToField.lookup matchName with
    | none => .error (notFound ("Match '" ++ matchName ++ "' not found in implementation of table '" ++ entry.tableName ++ "'."))
    | some field => .ok field
  let bitwidth ← getFieldBitwidth field.headerName field.fieldName program
  checkBitwidth definition.matchField.bitwidth bitwidth ("match '" ++ matchName ++ "' in table '" ++ entry.tableName)
  let namePrefix := entry.tableName ++ "_entry_" ++ decimal entry.index.toInt ++ "_" ++ matchName ++ "_" ++ matchTypeText ++ "_"
  let value ← Term.mkBvConst (namePrefix ++ "value") bitwidth
  let mask ← Term.mkBvConst (namePrefix ++ "mask") bitwidth
  .ok ⟨definition.matchField.matchType,value,mask⟩

def checkActionOfTable (entry : SymbolicTableEntry) (actionName : String) (table : Table) : Fallible Unit :=
  if table.tableDefinition.entryActions.all (·.preamble.name ≠ actionName) then
    .error (notFound ("Action '" ++ actionName ++ "' not found in table '" ++ entry.tableName ++ "'"))
  else .ok ()

def getSymbolicActionInvocation (entry : SymbolicTableEntry) (actionName : String) (table : Table) : Fallible Term := do
  checkActionOfTable entry actionName table
  .ok (.const (entry.tableName ++ "_entry_" ++ decimal entry.index.toInt ++ "_" ++ actionName ++ "_$chosen$") .bool)

def getSymbolicActionParameter (entry : SymbolicTableEntry) (paramName : String) (action : Ir.Action) (table : Table) :
    Fallible Term := do
  let actionName := action.actionDefinition.preamble.name
  checkActionOfTable entry actionName table
  let bitwidth ← match action.parameterToBitwidth.lookup paramName with
    | none => .error (notFound ("Action parameter '" ++ paramName ++ "' not found in implementation of action '" ++ actionName ++ "'"))
    | some bitwidth => .ok bitwidth
  let definition ← match action.actionDefinition.paramsByName.lookup paramName with
    | none => .error (notFound ("Action parameter '" ++ paramName ++ "' not found in definition of action '" ++ actionName ++ "'"))
    | some definition => .ok definition
  checkBitwidth definition.param.bitwidth bitwidth ("parameter '" ++ paramName ++ "' in action '" ++ actionName)
  Term.mkBvConst (entry.tableName ++ "_entry_" ++ decimal entry.index.toInt ++ "_" ++ actionName ++ "_" ++ paramName) bitwidth

section Matches

/-- `bv_val(1, 1).repeat(bitwidth)`, by its value. -/
def allOnes (bitwidth : Nat) : Term := .bvVal (2 ^ bitwidth - 1) bitwidth

def addMatchTypeConstraintsForSymbolicMatch (vars : SymbolicMatch) (state : SolverState) : Fallible SolverState :=
  let bitwidth := vars.mask.width
  match vars.matchType with
  | .exact => do
    let maskConstraint ← Operators.eq vars.mask (allOnes bitwidth)
    .ok (state.add maskConstraint)
  | .lpm => do
    let negatedMask ← Operators.bitNeg vars.mask
    let negatedMaskPlusOne ← Operators.plus negatedMask (.bvVal 1 bitwidth)
    let result ← Operators.bitAnd negatedMask negatedMaskPlusOne
    let maskConstraint ← Operators.eq result (.bvVal 0 bitwidth)
    .ok (state.add maskConstraint)
  | .optional => do
    let maskIsAllOnes ← Operators.eq vars.mask (allOnes bitwidth)
    let maskIsAllZeroes ← Operators.eq vars.mask (.bvVal 0 bitwidth)
    let maskConstraint ← Operators.or maskIsAllOnes maskIsAllZeroes
    .ok (state.add maskConstraint)
  | .ternary => .ok state
  | _ => .error (invalid "Unsupported match type. Expected: EXACT, LPM, TERNARY, or OPTIONAL")

def addCanonicityConstraintForSymbolicMatch (vars : SymbolicMatch) (state : SolverState) : Fallible SolverState := do
  let maskedValue ← Operators.bitAnd vars.value vars.mask
  let constraint ← Operators.eq maskedValue vars.value
  .ok (state.add constraint)

variable [InetText]

/-- A value of a match as a term; its type is that of the match field. -/
def getZ3Value (value : IrValue) (matchField : MatchField) (table : Table) (t : P4RuntimeTranslator) :
    Fallible (Term × P4RuntimeTranslator) :=
  match table.matchNameToField.lookup matchField.name with
  | none => .error (invalid ("Match key with name '" ++ matchField.name ++ "' was not found in implementation of table '" ++
      table.tableDefinition.preamble.name ++ "'"))
  | some field =>
    formatP4RTValue value (some (field.headerName ++ "." ++ field.fieldName)) matchField.typeName matchField.bitwidth t

/-- Asserts that a variable has a given value. -/
def constrainMatchVariable (target : Term) (matchField : MatchField) (table : Table) (value : IrValue) (state : SolverState) :
    Fallible SolverState := do
  let concrete ← getZ3Value value matchField table state.translator
  let constraint ← Operators.eq target concrete.1
  .ok ({ state with translator := concrete.2 }.add constraint)

def constrainIfGiven (target : Term) (matchField : MatchField) (table : Table) (value : Option IrValue) (state : SolverState) :
    Fallible SolverState :=
  match value with
  | none => .ok state
  | some value => constrainMatchVariable target matchField table value state

/-- `(1UL << prefix_length) - 1`; the shift counts modulo 64. -/
def prefixOnes (prefixLength : Nat) : Nat := ((1 : UInt64) <<< UInt64.ofNat prefixLength - 1).toNat

/-- A negative prefix length is symbolic. -/
def constrainPrefixLength (vars : SymbolicMatch) (matchName : String) (prefixLength : Int32) (state : SolverState) :
    Fallible SolverState :=
  let bitwidth := vars.value.width
  let length := prefixLength.toInt.toNat
  if prefixLength < 0 then .ok state
  else if length > bitwidth then
    .error (invalid ("Prefix length of match '" ++ matchName ++ "' must fall in the range [0, " ++ natText bitwidth ++ "]."))
  else do
    let ones ← Term.mkBvVal (prefixOnes length) length
    let zeroes ← Term.mkBvVal 0 (bitwidth - length)
    let maskConstraint ← Operators.eq vars.mask (.concat ones zeroes)
    .ok (state.add maskConstraint)

def addConstraintsForConcretePartsOfSymbolicMatch (vars : SymbolicMatch) (irMatch : SketchMatch) (table : Table)
    (state : SolverState) : Fallible SolverState := do
  let definition ← atKey table.tableDefinition.matchFieldsByName irMatch.name
  match irMatch.value with
  | .exact value => constrainMatchVariable vars.value definition.matchField table value state
  | .lpm value prefixLength => do
    let state ← constrainIfGiven vars.value definition.matchField table value state
    constrainPrefixLength vars irMatch.name prefixLength state
  | .ternary value mask => do
    let state ← constrainIfGiven vars.value definition.matchField table value state
    constrainIfGiven vars.mask definition.matchField table mask state
  | .optional value => constrainIfGiven vars.value definition.matchField table value state
  | .notSet => .ok state

def initializeSymbolicMatch (entry : SymbolicTableEntry) (table : Table) (program : P4Program) (irMatch : SketchMatch)
    (state : SolverState) : Fallible SolverState :=
  if irMatch.name.isEmpty then .error (invalid "The match name must not be empty.")
  else do
    let vars ← getSymbolicMatch entry irMatch.name table program
    let state ← addMatchTypeConstraintsForSymbolicMatch vars state
    let state ← addCanonicityConstraintForSymbolicMatch vars state
    addConstraintsForConcretePartsOfSymbolicMatch vars irMatch table state

def initializeSymbolicMatches (entry : SymbolicTableEntry) (table : Table) (program : P4Program) (state : SolverState) :
    Fallible SolverState :=
  entry.matches_.foldlM (fun state irMatch => initializeSymbolicMatch entry table program irMatch state) state

end Matches

section Actions

/-- The symbolic variables of an entry's actions: the choices by action name, and the
parameters of the actions that have some. -/
structure ActionVariables where
  choices : List (String × Term) := []
  params : List (String × List (String × Term)) := []

def actionParameters (entry : SymbolicTableEntry) (table : Table) (action : Ir.Action) : Fallible (List (String × Term)) :=
  action.actionDefinition.paramsByName.mapM fun x =>
    (getSymbolicActionParameter entry x.1 action table).map fun param => (x.1,param)

def addActionVariables (entry : SymbolicTableEntry) (table : Table) (program : P4Program) (vars : ActionVariables)
    (actionName : String) : Fallible ActionVariables := do
  let action ← match program.actions.lookup actionName with
    | none => .error (notFound ("Action not found: '" ++ actionName ++ "'"))
    | some action => .ok action
  let invocation ← getSymbolicActionInvocation entry actionName table
  let params ← actionParameters entry table action
  .ok { choices := assign actionName invocation vars.choices
        params := if params.isEmpty then vars.params else (actionName,params) :: vars.params }

/-- Exactly one of the actions is chosen. -/
def addSingleActionChoiceConstraintForSymbolicAction (choices : List (String × Term)) (state : SolverState) : SolverState :=
  state.add (choices.foldl (fun overall applied =>
      Term.binary .bitOr overall (choices.foldl (fun assignment x =>
          if x.1 = applied.1 then assignment
          else .binary .bitAnd assignment (.binary .eq x.2 (.boolVal false)))
        (.binary .eq applied.2 (.boolVal true))))
    (.boolVal false))

variable [InetText]

def constrainActionParam (program : P4Program) (actionName : String) (params : List (String × Term)) (state : SolverState)
    (param : IrActionParam) : Fallible SolverState := do
  let action ← atKey program.actions actionName
  let target ← atKey params param.name
  let definition ← orFail (findPtrOrStatus action.actionDefinition.paramsByName param.name)
  let concrete ← formatP4RTValue param.value none definition.param.typeName definition.param.bitwidth state.translator
  let constraint ← Operators.eq target concrete.1
  .ok ({ state with translator := concrete.2 }.add constraint)

def addConstraintsForConcretePartsOfSymbolicAction (irAction : IrActionInvocation) (vars : ActionVariables)
    (program : P4Program) (state : SolverState) : Fallible SolverState :=
  if irAction.name.isEmpty then
    if irAction.params.isEmpty then .ok state
    else .error (invalid "Action parameters must not be specified in a fully symbolic action.")
  else
    match vars.choices.lookup irAction.name,vars.params.lookup irAction.name with
    | some choice,some params =>
      match irAction.params.find? fun param => (params.lookup param.name).isNone with
      | some param => .error (invalid ("Invalid action parameter name: '" ++ param.name ++ "'"))
      | none =>
        let chosen := state.add (.binary .eq choice (.boolVal true))
        let others := (vars.choices.filter fun x => x.1 ≠ irAction.name).foldl
          (fun state x => state.add (.binary .eq x.2 (.boolVal false))) chosen
        irAction.params.foldlM (constrainActionParam program irAction.name params) others
    | _,_ => .error (invalid ("Invalid action name: '" ++ irAction.name ++ "'"))

def initializeSymbolicActions (entry : SymbolicTableEntry) (table : Table) (program : P4Program) (state : SolverState) :
    Fallible SolverState := do
  let vars ← (table.tableDefinition.entryActions.map (·.preamble.name)).foldlM
    (addActionVariables entry table program) {}
  let state := addSingleActionChoiceConstraintForSymbolicAction vars.choices state
  match entry.type with
  | .action irAction => addConstraintsForConcretePartsOfSymbolicAction irAction vars program state
  | .actionSet _ => .error (invalid "Action set should not be specified in a direct match table.")
  | .notSet => .ok state

end Actions

variable [InetText]

def initializeTableEntry (program : P4Program) (table : Table) (state : SolverState) : Ir.TableEntry → Fallible SolverState
  | .concreteEntry _ _ => .ok state
  | .symbolicEntry entry =>
    if table.tableDefinition.actionProfileId.isSome then
      .error (.status ⟨.unimplemented,"Table entries with symbolic action sets are not supported at the moment."⟩)
    else do
      let state ← initializeSymbolicMatches entry table program state
      initializeSymbolicActions entry table program state
  | .notSet => .error (invalid "Unsupported table entry: ")

def initializeTable (program : P4Program) (state : SolverState) (tableEntries : String × List Ir.TableEntry) :
    Fallible SolverState :=
  if References.isBuiltInTable tableEntries.1 then .ok state
  else
    match program.tables.lookup tableEntries.1 with
    | none => .error (notFound ("Table '" ++ tableEntries.1 ++ "' not found"))
    | some table => tableEntries.2.foldlM (initializeTableEntry program table) state

def initializeTableEntries (program : P4Program) (entries : TableEntries) (state : SolverState) : Fallible SolverState :=
  entries.foldlM (initializeTable program) state

/-- Provided translations, at most one for a type. -/
structure TranslationPerType where
  translations : List (String × TranslationData)
  nodup : (translations.map Prod.fst).Nodup

/-- The translator starts with what the entries made it allocate, and the provided
translations come after. -/
def addStaticTranslations (translations : TranslationPerType) (state : SolverState) : SolverState :=
  { state with translator := translations.translations.foldl (fun t x => t.emplace x.1 (.ofData x.2)) state.translator }

/-- `EvaluateP4Program`, up to the evaluation of the pipelines. -/
def initializeEvaluation (program : P4Program) (entries : TableEntries) (translations : TranslationPerType) :
    Fallible SolverState :=
  (initializeTableEntries program entries {}).map (addStaticTranslations translations)

end SonicPins.P4Symbolic
