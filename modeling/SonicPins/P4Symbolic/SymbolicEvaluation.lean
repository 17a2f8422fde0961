import SonicPins.P4Symbolic.Cfg
import SonicPins.P4Symbolic.EntryPriorities
import SonicPins.P4Symbolic.GuardedMaps
import SonicPins.P4Symbolic.SymbolicEntries

/-! The symbolic evaluation of actions, tables and conditionals. Texts of errors leave out the messages that the
source prints in them; a recursion that is deeper than the stack ends the process. -/
namespace SonicPins.P4Symbolic

section Programs
open Operators Pdpi

namespace Ir

/-- A right value that is no expression. -/
inductive SimpleValue where
  | unsupported
  | fieldValue (field : FieldValue)
  | hexstrValue (value : String) (negative : Bool)
  | boolValue (value : Bool)
  | variableValue (name : String)

abbrev RValue := RValueOf SimpleValue

inductive LValue where
  | unsupported
  | fieldValue (field : FieldValue)
  | variableValue (name : String)

inductive Statement where
  | unsupported
  | assignment (left : LValue) (right : RValue)
  | drop (headerName : String)
  | clone
  | hash (field : FieldValue)
  | exit
  | headerAssignment (leftHeaderName rightHeaderName : String)
  | recirculate

/-- A header with the number of its type. -/
structure ProgramHeader extends HeaderType where
  id : Int32 := 0

structure ProgramAction extends Ir.Action where
  actionBody : List Statement := []

structure OptimizedSymbolicExecutionInfo where
  mergePoint : String := ""
  continueToMergePoint : Bool := false

structure ProgramTable extends Ir.Table where
  defaultAction : String := ""
  defaultActionParameters : List String := []
  actionToNextControl : List (String × String) := []
  info : OptimizedSymbolicExecutionInfo := {}

structure Conditional where
  name : String
  condition : RValue
  ifBranch : String
  elseBranch : String
  info : OptimizedSymbolicExecutionInfo := {}

/-- A program with what is executed; a pipeline is its initial control. -/
structure Program where
  headers : List (String × ProgramHeader) := []
  tables : List (String × ProgramTable) := []
  actions : List (String × ProgramAction) := []
  conditionals : List (String × Conditional) := []
  pipeline : List (String × String) := []

def Program.toP4Program (program : Program) : P4Program where
  headers := program.headers.map fun x => (x.1,x.2.toHeaderType)
  tables := program.tables.map fun x => (x.1,x.2.toTable)
  actions := program.actions.map fun x => (x.1,x.2.toAction)

def tableHitAction : String := "__HIT__"

def tableMissAction : String := "__MISS__"

def getIndex : Ir.TableEntry → Int32
  | .concreteEntry _ index => index
  | .symbolicEntry entry => entry.index
  | .notSet => 0

end Ir
end Programs

namespace Evaluation
open Lib Pdpi Operators SymbolicPerPacketState

abbrev Scope := List (String × Term)

/-- What the statements of an action change: the count of the free variables, the headers and the scope. -/
structure ActionState where
  counter : UInt32
  headers : SymbolicPerPacketState
  scope : Scope

structure EvaluationState where
  translator : P4RuntimeTranslator := {}
  counter : UInt32 := 0

def unimplemented (message : String) : Failure := .status ⟨.unimplemented,message⟩

/-- `mpz_class` of a text after `0x`, up to a null character; blanks are skipped, and no digits are zero. -/
def hexStringToNat (hexString : String) : Fallible Nat :=
  let digits := ((hexString.toList.takeWhile (· ≠ Char.ofNat 0)).drop 2).filter fun c => !isAsciiSpace c
  if digits.isEmpty then .ok 0
  else
    match readNumeral 16 digits with
    | some n => .ok n
    | none => .error (.thrown "std::invalid_argument")

def binaryDigits (n : Nat) : Nat := if n = 0 then 1 else Nat.log2 n + 1

/-- `ParseIrValue`: literals are hexadecimal. -/
def parseIrValue (value : String) : StatusOr IrValue :=
  if "0x".toList.isPrefixOf value.toList then .ok (.hexStr value)
  else .error (invalidArgument ("Literal value \"" ++ value ++ "\" has unknown format!"))

def evaluateHexStr (value : String) (negative : Bool) : Fallible Term :=
  if negative then .error (unimplemented "Negative hex string values are not supported!")
  else do
    let _ ← orFail (parseIrValue value)
    let n ← hexStringToNat value
    .ok (.bvVal n (binaryDigits n))

section Values
variable (actionName : String) (headers : SymbolicPerPacketState) (scope : Scope)

def evaluateFieldValue (field : Ir.FieldValue) : Fallible Term := headers.get field.headerName field.fieldName

def evaluateVariable (name : String) : Fallible Term :=
  match scope.lookup name with
  | none => .error (invalid ("Action " ++ actionName ++ " refers to undefined variable " ++ name))
  | some value => .ok value

def evaluateSimpleValue : Ir.SimpleValue → Fallible Term
  | .unsupported => .error (unimplemented ("Action " ++ actionName ++ " contains unsupported RValue "))
  | .fieldValue field => evaluateFieldValue headers field
  | .hexstrValue value negative => evaluateHexStr value negative
  | .boolValue value => .ok (.boolVal value)
  | .variableValue name => evaluateVariable actionName scope name

def evaluateRValue : Ir.RValue → Fallible Term := evaluateRValueWith bitAnd (evaluateSimpleValue actionName headers scope)

end Values

section Statements
variable (program : Ir.Program) (actionName : String) (guard : Term) (state : ActionState)

def qualifiedName (field : Ir.FieldValue) : String := field.headerName ++ "." ++ field.fieldName

def setHeader (key : String) (value : Term) : Fallible ActionState :=
  (state.headers.set key value guard).map fun headers => { state with headers := headers }

def evaluateAssignmentStatement (left : Ir.LValue) (right : Ir.RValue) : Fallible ActionState := do
  let right ← evaluateRValue actionName state.headers state.scope right
  match left with
  | .fieldValue field => setHeader guard state (qualifiedName field) right
  | .variableValue name => .ok { state with scope := (name,right) :: state.scope }
  | .unsupported => .error (unimplemented ("Action " ++ actionName ++ " contains unsupported LValue "))

def freeVariable (variableBaseName : String) (sort : SolverSort) (counter : UInt32) : Term × UInt32 :=
  (.const (variableBaseName ++ "." ++ natText counter.toNat) sort,counter + 1)

def egressSpecDroppedValue : Term := .bvVal 511 9

def evaluateDrop (headerName : String) : Fallible ActionState := do
  let state ← setHeader guard state (headerName ++ "." ++ "egress_spec") egressSpecDroppedValue
  let mcastGrpWidth ← getFieldBitwidth headerName "mcast_grp" program.toP4Program
  let mcastGrp ← Term.mkBvVal 0 mcastGrpWidth
  setHeader guard state (headerName ++ "." ++ "mcast_grp") mcastGrp

def evaluateHash (field : Ir.FieldValue) : Fallible ActionState :=
  match state.headers.lookup (qualifiedName field) with
  | none => .error (notFound ("Action " ++ actionName ++ " hashes to unknown header field "))
  | some oldValue =>
    let free := freeVariable (qualifiedName field) oldValue.sort state.counter
    setHeader guard { state with counter := free.2 } (qualifiedName field) free.1

def headerOf (headerName : String) : Fallible Ir.ProgramHeader :=
  match program.headers.lookup headerName with
  | none => .error (notFound ("Header '" ++ headerName ++ "' not found"))
  | some header => .ok header

/-- A field of a header, from that of the other. -/
def assignHeaderField (leftHeaderName rightHeaderName : String) (left : Ir.ProgramHeader) (state : ActionState)
    (fieldName : String) : Fallible ActionState :=
  match left.fields.lookup fieldName with
  | none => .error (invalid ("Field '" ++ fieldName ++ "' not found in header '" ++ leftHeaderName ++
      "' during header assignment."))
  | some _ => do
    let rightValue ← state.headers.get rightHeaderName fieldName
    setHeader guard state (leftHeaderName ++ "." ++ fieldName) rightValue

def evaluateHeaderAssignmentStatement (leftHeaderName rightHeaderName : String) : Fallible ActionState := do
  let left ← headerOf program leftHeaderName
  let right ← headerOf program rightHeaderName
  if left.id ≠ right.id then
    .error (invalid ("Headers '" ++ leftHeaderName ++ "' and '" ++ rightHeaderName ++
      "' have different header types. Header assignments expect the same header type."))
  else do
    let state ← right.orderedFieldsList.foldlM (assignHeaderField guard leftHeaderName rightHeaderName left) state
    let rightValid ← state.headers.get rightHeaderName "$valid$"
    setHeader guard state (leftHeaderName ++ "." ++ "$valid$") rightValid

/-- An exit statement is ignored. -/
def evaluateStatement : Ir.Statement → Fallible ActionState
  | .assignment left right => evaluateAssignmentStatement actionName guard state left right
  | .clone => setHeader guard state "$got_cloned$" (.boolVal true)
  | .recirculate => setHeader guard state "$got_recirculated$" (.boolVal true)
  | .drop headerName => evaluateDrop program guard state headerName
  | .hash field => evaluateHash actionName guard state field
  | .exit => .ok state
  | .headerAssignment left right => evaluateHeaderAssignmentStatement program guard state left right
  | .unsupported => .error (unimplemented ("Action " ++ actionName ++ " contains unsupported statement "))

end Statements

section Invocations
variable (program : Ir.Program) (guard : Term)

/-- The statements of an action, in order, from a scope. -/
def evaluateActionBody (action : Ir.ProgramAction) (scope : Scope) (state : EvaluationState) (headers : SymbolicPerPacketState) :
    Fallible (EvaluationState × SymbolicPerPacketState) :=
  (action.actionBody.foldlM (evaluateStatement program action.actionDefinition.preamble.name guard)
    ⟨state.counter,headers,scope⟩).map fun s => ({ state with counter := s.counter },s.headers)

/-- `insert`: a variable that is there already stays. -/
def insertVariable (name : String) (value : Term) (scope : Scope) : Scope :=
  match scope.lookup name with
  | some _ => scope
  | none => (name,value) :: scope

variable [InetText]

def addArgument (action : Ir.ProgramAction) (s : Scope × P4RuntimeTranslator) (arg : IrActionParam) :
    Fallible (Scope × P4RuntimeTranslator) := do
  let definition ← orFail (findPtrOrStatus action.actionDefinition.paramsByName arg.name)
  let value ← formatP4RTValue arg.value none definition.param.typeName definition.param.bitwidth s.2
  .ok (insertVariable definition.param.name value.1 s.1,value.2)

def evaluateConcreteAction (action : Ir.ProgramAction) (args : List IrActionParam) (state : EvaluationState)
    (headers : SymbolicPerPacketState) : Fallible (EvaluationState × SymbolicPerPacketState) :=
  if action.actionDefinition.paramsByName.length ≠ args.length then
    .error (invalid ("Action " ++ action.actionDefinition.preamble.name ++ " called with incompatible number of parameters"))
  else do
    let s ← args.foldlM (addArgument action) ([],state.translator)
    evaluateActionBody program guard action s.1 { state with translator := s.2 } headers

omit [InetText] in
def evaluateSymbolicAction (action : Ir.ProgramAction) (entry : Ir.SymbolicTableEntry) (state : EvaluationState)
    (headers : SymbolicPerPacketState) : Fallible (EvaluationState × SymbolicPerPacketState) := do
  let table ← atKey program.tables entry.tableName
  let scope ← actionParameters entry table.toTable action.toAction
  evaluateActionBody program guard action scope state headers

end Invocations

/-- The index of an entry as a term; integers occur nowhere else. -/
inductive IndexTerm where
  | val (index : Int)
  | ite (condition : Term) (a b : IndexTerm)
  deriving DecidableEq

def IndexTerm.eval (σ : Assignment) : IndexTerm → Int
  | .val index => index
  | .ite condition a b => if condition.eval σ = 0 then b.eval σ else a.eval σ

/-- `a == index`, pushed down to the values. -/
def IndexTerm.equals (index : Int) : IndexTerm → Term
  | .val i => .boolVal (i = index)
  | .ite condition a b => .ite condition (a.equals index) (b.equals index)

def iteIndex (condition : Term) (a b : IndexTerm) : Fallible IndexTerm :=
  if condition.sort ≠ .bool then .error (invalid "The condition of an if-then-else operation must be boolean.")
  else if a = b then .ok a
  else .ok (.ite condition a b)

def defaultActionEntryIndex : Int32 := -1

structure SymbolicTableMatch where
  matched : Term
  entryIndex : IndexTerm

/-- By table name; the order is not observed. -/
abbrev SymbolicTableMatches := List (String × SymbolicTableMatch)

def defaultTableMatch : SymbolicTableMatch := ⟨.boolVal false,.val (-1)⟩

def mergeMatch (condition : Term) (trueMatch falseMatch : SymbolicTableMatch) : Fallible SymbolicTableMatch := do
  let matched ← Operators.ite condition trueMatch.matched falseMatch.matched
  let entryIndex ← iteIndex condition trueMatch.entryIndex falseMatch.entryIndex
  .ok ⟨matched,entryIndex⟩

def mergeMatchesOnCondition (condition : Term) (trueMatches falseMatches : SymbolicTableMatches) : Fallible SymbolicTableMatches := do
  let merged ← trueMatches.mapM fun x =>
    (mergeMatch condition x.2 ((falseMatches.lookup x.1).getD defaultTableMatch)).map fun m => (x.1,m)
  let rest ← (falseMatches.filter fun x => (trueMatches.lookup x.1).isNone).mapM fun x =>
    (mergeMatch condition defaultTableMatch x.2).map fun m => (x.1,m)
  .ok (merged ++ rest)

/-- A match of a table that has none yet. -/
def insertDisjoint (merged : SymbolicTableMatches) (x : String × SymbolicTableMatch) : Fallible SymbolicTableMatches :=
  match merged.lookup x.1 with
  | some _ => .error (invalid ("Expected disjoint keys. Table '" ++ x.1 ++ "' encountered in both maps"))
  | none => .ok (x :: merged)

def mergeDisjointTableMatches (lhs rhs : SymbolicTableMatches) : Fallible SymbolicTableMatches := rhs.foldlM insertDisjoint lhs

section Matches

/-- The topmost bits of a bit vector that is long enough; a solver has no empty ones. -/
def topmost (a : Term) (prefixSize : Nat) : Fallible Term :=
  if a.width > prefixSize then
    if prefixSize = 0 then .error Term.badSorts else .ok (.extract (a.width - 1) (a.width - prefixSize) a)
  else .ok a

def prefixEq (a b : Term) (prefixSize : Nat) : Fallible Term :=
  match a.sort,b.sort with
  | .bitVector aSize,.bitVector bSize => do
    let a ← topmost (pad a (prefixSize - aSize)) prefixSize
    let b ← topmost (pad b (prefixSize - bSize)) prefixSize
    Term.mkBinary .eq a b
  | _,_ => .error (invalid "PrefixEq is only valid for bitvectors")

/-- The matches of an entry, each with what its evaluation reads. -/
inductive EntryMatch where
  | concrete (irMatch : IrMatch)
  | symbolic (entry : Ir.SymbolicTableEntry) (name : String)

def EntryMatch.name : EntryMatch → String
  | .concrete irMatch => irMatch.name
  | .symbolic _ name => name

/-- `GetMatches`; an entry for multicast is fatal. -/
def entryMatches : Ir.TableEntry → Fallible (List EntryMatch)
  | .concreteEntry (.tableEntry entry) _ => .ok (entry.matches_.map .concrete)
  | .concreteEntry (.packetReplicationEngineEntry _) _ => .error (.thrown "Add support for multicast entries")
  | .symbolicEntry entry => .ok (entry.matches_.map fun irMatch => .symbolic entry irMatch.name)
  | .notSet => .ok []

variable (program : Ir.Program) (table : Ir.ProgramTable)

def evaluateSymbolicMatch (entry : Ir.SymbolicTableEntry) (matchName : String) (fieldValue : Term) : Fallible Term := do
  let vars ← getSymbolicMatch entry matchName table.toTable program.toP4Program
  let maskedField ← Operators.bitAnd fieldValue vars.mask
  Operators.eq maskedField vars.value

variable [InetText]

def evaluateConcreteMatch (irMatch : IrMatch) (piMatch : MatchField) (fieldName : String) (fieldValue : Term)
    (t : P4RuntimeTranslator) : Fallible (Term × P4RuntimeTranslator) :=
  let z3Value (value : IrValue) (t : P4RuntimeTranslator) :=
    formatP4RTValue value (some fieldName) piMatch.typeName piMatch.bitwidth t
  if piMatch.otherMatchType.isSome then .error (invalid "Found match with non-standard type")
  else
    match piMatch.matchType,irMatch.value with
    | .exact,.exact value => do
      let exactValue ← z3Value value t
      let result ← Operators.eq fieldValue exactValue.1
      .ok (result,exactValue.2)
    | .lpm,.lpm value prefixLength => do
      let lpmValue ← z3Value value t
      let result ← prefixEq fieldValue lpmValue.1 prefixLength.toUInt32.toNat
      .ok (result,lpmValue.2)
    | .ternary,.ternary value mask => do
      let ternaryValue ← z3Value value t
      let ternaryMask ← z3Value mask ternaryValue.2
      let maskedField ← Operators.bitAnd fieldValue ternaryMask.1
      let result ← Operators.eq maskedField ternaryValue.1
      .ok (result,ternaryMask.2)
    | .optional,.optional value => do
      let optionalValue ← z3Value value t
      let result ← Operators.eq fieldValue optionalValue.1
      .ok (result,optionalValue.2)
    | .unspecified,_ => .error (unimplemented "Found unsupported match type ")
    | .range,_ => .error (unimplemented "Found unsupported match type ")
    | _,_ => .error (invalid ("match on field '" ++ fieldName ++ "' must be of the type according to the table definition"))

def evaluateMatch (headers : SymbolicPerPacketState) (t : P4RuntimeTranslator) (m : EntryMatch) :
    Fallible (Term × P4RuntimeTranslator) :=
  let tableName := table.tableDefinition.preamble.name
  match table.tableDefinition.matchFieldsByName.lookup m.name with
  | none => .error (invalid ("Match '" ++ m.name ++ "' not found in the definition of table '" ++ tableName ++ "'"))
  | some definition =>
    match table.matchNameToField.lookup m.name with
    | none => .error (invalid ("Match '" ++ m.name ++ "' not found in the implementation of table '" ++ tableName ++ "'"))
    | some field => do
      let fieldValue ← evaluateFieldValue headers field
      match m with
      | .concrete irMatch => evaluateConcreteMatch irMatch definition.matchField (qualifiedName field) fieldValue t
      | .symbolic entry name => (evaluateSymbolicMatch program table entry name fieldValue).map fun result => (result,t)

def addMatch (headers : SymbolicPerPacketState) (s : Term × P4RuntimeTranslator) (m : EntryMatch) :
    Fallible (Term × P4RuntimeTranslator) := do
  let matchExpression ← evaluateMatch program table headers s.2 m
  let matchCondition ← Operators.and s.1 matchExpression.1
  .ok (matchCondition,matchExpression.2)

def evaluateTableEntryCondition (headers : SymbolicPerPacketState) (t : P4RuntimeTranslator) (entry : Ir.TableEntry) :
    Fallible (Term × P4RuntimeTranslator) := do
  let ms ← entryMatches entry
  ms.foldlM (addMatch program table headers) (.boolVal true,t)

/-- The conditions of the entries, from the first to the last. -/
def evaluateConditions (headers : SymbolicPerPacketState) : List Ir.TableEntry → P4RuntimeTranslator →
    Fallible (List (Ir.TableEntry × Term) × P4RuntimeTranslator)
  | [],t => .ok ([],t)
  | entry :: rest,t => do
    let condition ← evaluateTableEntryCondition program table headers t entry
    let conditions ← evaluateConditions headers rest condition.2
    .ok ((entry,condition.1) :: conditions.1,conditions.2)

end Matches

section Entries

/-- What the evaluation of an action changes. -/
abbrev Work := EvaluationState × SymbolicPerPacketState

/-- An entry's condition, and the headers after its action. -/
structure Row where
  entryMatch : Term
  headers : SymbolicPerPacketState

def mergedValue (field : String) (default : SymbolicPerPacketState) : List Row → Fallible Term
  | [] => default.getKey field
  | row :: rest => do
    let value ← mergedValue field default rest
    let localValue ← row.headers.getKey field
    Operators.ite row.entryMatch localValue value

def setFields (value : String → Fallible Term) (guard : Term) (headers : SymbolicPerPacketState) : Fallible SymbolicPerPacketState :=
  (headers.map Prod.fst).foldlM (fun headers field => do
    let newValue ← value field
    headers.set field newValue guard) headers

/-- `selector == position`; the selector of the source is an integer, and here it has as many bits as there are positions. -/
def isPosition (selector : String) (size position : Nat) : Term :=
  .binary .eq (.const selector (.bitVector size)) (.bvVal position size)

def actionSelector (index : Int32) (tableName : String) : String :=
  "action selector for entry #" ++ decimal index.toInt ++ " of table '" ++ tableName ++ "'"

/-- Choices from a position on, of which one is made: that whose position is selected, and the last one where no other one is. -/
def evaluateSelected {α : Type} (evaluate : Term → α → Work → Fallible Work) (selected : Nat → Term) : Nat → Term → List α → Work →
    Fallible Work
  | _,_,[],work => .ok work
  | position,unselected,choice :: rest,work => do
    let chosen := if rest.isEmpty then unselected else selected position
    let work ← evaluate chosen choice work
    evaluateSelected evaluate selected (position + 1) (.binary .bitAnd unselected (.not chosen)) rest work

variable (program : Ir.Program) (table : Ir.ProgramTable)

def evaluateSingleSymbolicAction (guard : Term) (actionName : String) (entry : Ir.SymbolicTableEntry) (work : Work) : Fallible Work :=
  match program.actions.lookup actionName with
  | none => .error (.status ⟨.internal,"unknown action '" ++ actionName ++ "'"⟩)
  | some action => evaluateSymbolicAction program guard action entry work.1 work.2

def evaluateChosenAction (guard : Term) (entry : Ir.SymbolicTableEntry) (work : Work) (action : IrActionDefinition) : Fallible Work := do
  let actionIsApplied ← getSymbolicActionInvocation entry action.preamble.name table.toTable
  evaluateSingleSymbolicAction program (.binary .bitAnd guard actionIsApplied) action.preamble.name entry work

def evaluateSymbolicEntryAction (guard : Term) (entry : Ir.SymbolicTableEntry) (work : Work) : Fallible Work :=
  if table.tableDefinition.actionProfileId.isSome then
    .error (unimplemented "Table entries with symbolic action sets are not supported at the moment.")
  else table.tableDefinition.entryActions.foldlM (evaluateChosenAction program table guard entry) work

/-- The parameters of a default action have no names. -/
def defaultEntry : StatusOr Ir.TableEntry :=
  (table.defaultActionParameters.mapM parseIrValue).map fun values =>
    let action : IrActionInvocation := { name := table.defaultAction,params := values.map fun value => ⟨"",value⟩ }
    .concreteEntry (.tableEntry { tableName := "",type := .action action }) defaultActionEntryIndex

variable [InetText]

def evaluateSingleConcreteAction (guard : Term) (invocation : IrActionInvocation) (work : Work) : Fallible Work :=
  match program.actions.lookup invocation.name with
  | none => .error (invalid ("unknown action '" ++ invocation.name ++ "'"))
  | some action => evaluateConcreteAction program guard action invocation.params work.1 work.2

def evaluateConcreteEntryAction (guard : Term) (entity : IrEntity) (index : Int32) (work : Work) : Fallible Work :=
  match entity with
  | .tableEntry entry =>
    match entry.type with
    | .action action => evaluateSingleConcreteAction program guard action work
    | .actionSet actions => evaluateSelected (fun selected x => evaluateSingleConcreteAction program selected x.action)
        (isPosition (actionSelector index entry.tableName) actions.length) 0 (.boolVal true) actions work
    | .notSet => .error (invalid "unexpected or missing action in table entry: ")
  | .packetReplicationEngineEntry _ =>
    .error (.status ⟨.internal,"did not expect packet replication engine entry on this control flow path: "⟩)

def evaluateTableEntryAction (guard : Term) (entry : Ir.TableEntry) (work : Work) : Fallible Work :=
  match entry with
  | .concreteEntry entity index => evaluateConcreteEntryAction program guard entity index work
  | .symbolicEntry entry => evaluateSymbolicEntryAction program table guard entry work
  | .notSet => .error (invalid "unexpected or missing action in table entry: ")

structure EvaluatedRows where
  state : EvaluationState
  matchIndex : IndexTerm
  default : SymbolicPerPacketState
  rows : List Row

/-- The default entry, and then the others from the last to the first, each on the headers of the table. -/
def evaluateRows (headers : SymbolicPerPacketState) (guard : Term) (default : Ir.TableEntry) (state : EvaluationState) :
    List (Ir.TableEntry × Term) → Fallible EvaluatedRows
  | [] => do
    let work ← evaluateTableEntryAction program table (.boolVal true) default (state,headers)
    .ok ⟨work.1,.val defaultActionEntryIndex.toInt,work.2,[]⟩
  | (entry,condition) :: rest => do
    let rows ← evaluateRows headers guard default state rest
    let entryMatch ← Operators.and guard condition
    let matchIndex ← iteIndex entryMatch (.val (Ir.getIndex entry).toInt) rows.matchIndex
    let work ← evaluateTableEntryAction program table (.boolVal true) entry (rows.state,headers)
    .ok ⟨work.1,matchIndex,rows.default,⟨condition,work.2⟩ :: rows.rows⟩

end Entries

section Controls
variable (simplify : Term → Term)

structure Evaluated where
  state : EvaluationState
  headers : SymbolicPerPacketState
  tableMatches : SymbolicTableMatches

/-- The evaluation of a control from a state, under a guard. -/
abbrev Evaluate := String → EvaluationState → SymbolicPerPacketState → Term → Fallible Evaluated

/-- The index is one of an entry after a hit, and that of the default action otherwise. -/
def branchCondition (action : String) (matchIndex : IndexTerm) : Term :=
  let missed := matchIndex.equals defaultActionEntryIndex.toInt
  if action = Ir.tableHitAction then .not missed else missed

/-- The branch to the control after a hit or a miss, unless it is the merge point. -/
def evaluateBranch (evaluate : Evaluate) (table : Ir.ProgramTable) (guard : Term) (matchIndex : IndexTerm) (before : Evaluated)
    (next : String × String) : Fallible Evaluated :=
  if next.2 = table.info.mergePoint then .ok before
  else if next.1 = Ir.tableHitAction ∨ next.1 = Ir.tableMissAction then do
    let condition := branchCondition next.1 matchIndex
    let after ← evaluate next.2 before.state before.headers (simplify (.binary .bitAnd guard condition))
    let merged ← mergeMatchesOnCondition condition after.tableMatches before.tableMatches
    .ok { after with tableMatches := merged }
  else
    .error (unimplemented ("Conditional on executed table action is not supported (table '" ++
      table.tableDefinition.preamble.name ++ "', action '" ++ next.1 ++ "')"))

/-- The control after the branches. -/
def continuation (info : Ir.OptimizedSymbolicExecutionInfo) : String :=
  if info.continueToMergePoint then info.mergePoint else Cfg.endOfPipeline

/-- A branch to the merge point is not taken yet. -/
def nextControlForBranch (conditional : Ir.Conditional) (branch : String) : String :=
  if branch = conditional.info.mergePoint then Cfg.endOfPipeline else branch

def evaluateConditional (evaluate : Evaluate) (conditional : Ir.Conditional) (state : EvaluationState)
    (headers : SymbolicPerPacketState) (guard : Term) : Fallible Evaluated := do
  let condition ← evaluateRValue conditional.name headers [] conditional.condition
  let ifBranch ← evaluate (nextControlForBranch conditional conditional.ifBranch) state headers (.boolVal true)
  let elseBranch ← evaluate (nextControlForBranch conditional conditional.elseBranch) ifBranch.state headers (.boolVal true)
  let headers ← setFields (fun field => do
    let ifValue ← ifBranch.headers.getKey field
    let elseValue ← elseBranch.headers.getKey field
    Operators.ite condition ifValue elseValue) guard headers
  let merged ← mergeMatchesOnCondition condition ifBranch.tableMatches elseBranch.tableMatches
  if !conditional.info.continueToMergePoint then .ok ⟨elseBranch.state,headers,merged⟩
  else do
    let result ← evaluate conditional.info.mergePoint elseBranch.state headers guard
    let tableMatches ← mergeDisjointTableMatches merged result.tableMatches
    .ok { result with tableMatches := tableMatches }

/-- The entries of a table by their priority; an entry for multicast is fatal. -/
def sortedTableEntries (entries : Ir.TableEntries) (table : Ir.ProgramTable) : Fallible (List Ir.TableEntry) :=
  match sortedEntries table.tableDefinition.matchFieldsByName ((entries.lookup table.tableDefinition.preamble.name).getD []) with
  | none => .error (.thrown "Add support for multicast entries")
  | some sorted => .ok sorted

variable [InetText] (program : Ir.Program) (entries : Ir.TableEntries)

def evaluateSortedEntries (sorted : List Ir.TableEntry) (evaluate : Evaluate) (table : Ir.ProgramTable) (state : EvaluationState)
    (headers : SymbolicPerPacketState) (guard : Term) : Fallible Evaluated := do
  let tableName := table.tableDefinition.preamble.name
  let conditions ← evaluateConditions program table headers sorted state.translator
  let default ← orFail (defaultEntry table)
  let rows ← evaluateRows program table headers guard default { state with translator := conditions.2 } conditions.1
  let headers ← setFields (fun field => mergedValue field rows.default rows.rows) guard headers
  let branches ← (table.actionToNextControl.insertionSort fun a b => a.1 ≤ b.1).foldlM
    (evaluateBranch simplify evaluate table guard rows.matchIndex) ⟨rows.state,headers,[]⟩
  let result ← evaluate (continuation table.info) branches.state branches.headers guard
  let tableMatches ← mergeDisjointTableMatches result.tableMatches branches.tableMatches
  match tableMatches.lookup tableName with
  | some _ => .error (.status ⟨.internal,"Table '" ++ tableName ++ "' was executed twice in the same path."⟩)
  | none => .ok { result with tableMatches := (tableName,⟨guard,rows.matchIndex⟩) :: tableMatches }

def evaluateTable (evaluate : Evaluate) (table : Ir.ProgramTable) (state : EvaluationState) (headers : SymbolicPerPacketState)
    (guard : Term) : Fallible Evaluated := do
  let sorted ← sortedTableEntries entries table
  evaluateSortedEntries simplify program sorted evaluate table state headers guard

def evaluateControl : Nat → Evaluate
  | 0,_,_,_,_ => .error Cfg.stackOverflow
  | stack + 1,controlName,state,headers,guard =>
    if controlName = Cfg.endOfPipeline then .ok ⟨state,headers,[]⟩
    else
      match program.tables.lookup controlName with
      | some table => evaluateTable simplify program entries (evaluateControl stack) table state headers guard
      | none =>
        match program.conditionals.lookup controlName with
        | some conditional => evaluateConditional (evaluateControl stack) conditional state headers guard
        | none => .error (unimplemented ("Unsupported control \"" ++ controlName ++ "\" is neither a table nor a conditional"))

def evaluatePipeline (stack : Nat) (pipelineName : String) : EvaluationState → SymbolicPerPacketState → Term → Fallible Evaluated :=
  fun state headers guard =>
    match program.pipeline.lookup pipelineName with
    | some initialControl => evaluateControl simplify program entries stack initialControl state headers guard
    | none => .error (invalid ("cannot evaluate unknown pipeline: '" ++ pipelineName ++ "'"))

end Controls
end Evaluation
end SonicPins.P4Symbolic
