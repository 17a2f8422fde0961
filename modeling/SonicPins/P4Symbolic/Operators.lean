import SonicPins.Lib.SolverTerms
import SonicPins.Pdpi.Values

/-! The symbolic operators: solver operations behind sort checks, with operands of different
widths padded or, for the bitwise and, truncated. -/
namespace SonicPins.P4Symbolic.Operators
open Lib Pdpi

/-- `z3::sort::to_string`. -/
def sortText : SolverSort → String
  | .bool => "Bool"
  | .bitVector w => "(_ BitVec " ++ natText w ++ ")"

def pad (bitvector : Term) (padSize : Nat) : Term :=
  if padSize > 0 then .concat (.bvVal 0 padSize) bitvector else bitvector

def suffix (bitvector : Term) (suffixSize : Nat) : Term :=
  if suffixSize < bitvector.width then .extract (suffixSize - 1) 0 bitvector else bitvector

/-- `a == 1`. -/
def isOne (a : Term) : Term := .binary .eq a (.bvVal 1 1)

/-- The source's message also prints both expressions. -/
def incompatibleSorts (a b : Term) : Failure :=
  .status (invalidArgument ("Incompatible sorts '" ++ sortText a.sort ++ "' and '" ++ sortText b.sort ++ "'"))

def sortCheckAndPad (a b : Term) : Fallible (Term × Term) :=
  match a.sort,b.sort with
  | .bool,.bool => .ok (a,b)
  | .bool,.bitVector w => if w = 1 then .ok (a,isOne b) else .error (incompatibleSorts a b)
  | .bitVector w,.bool => if w = 1 then .ok (isOne a,b) else .error (incompatibleSorts a b)
  | .bitVector aLen,.bitVector bLen => .ok (pad a (bLen - aLen),pad b (aLen - bLen))

def sortCheckAndExtract (a b : Term) : Fallible (Term × Term) :=
  match a.sort,b.sort with
  | .bool,.bool => .ok (a,b)
  | .bitVector aLen,.bitVector bLen => .ok (suffix a bLen,suffix b aLen)
  | _,_ => .error (incompatibleSorts a b)

def onPadded (op : BinaryOp) (a b : Term) : Fallible Term := do
  let pair ← sortCheckAndPad a b
  Term.mkBinary op pair.1 pair.2

def plus : Term → Term → Fallible Term := onPadded .add
def minus : Term → Term → Fallible Term := onPadded .sub
def times : Term → Term → Fallible Term := onPadded .mul
def eq : Term → Term → Fallible Term := onPadded .eq
def neq : Term → Term → Fallible Term := onPadded .distinct
def lt : Term → Term → Fallible Term := onPadded .ult
def lte : Term → Term → Fallible Term := onPadded .ule
def gt : Term → Term → Fallible Term := onPadded .ugt
def gte : Term → Term → Fallible Term := onPadded .uge
def bitOr : Term → Term → Fallible Term := onPadded .bitOr
def bitXor : Term → Term → Fallible Term := onPadded .bitXor
def lShift : Term → Term → Fallible Term := onPadded .shl
def rShift : Term → Term → Fallible Term := onPadded .lshr

def not (a : Term) : Fallible Term := a.mkNot
def and (a b : Term) : Fallible Term := Term.mkConnective .bitAnd a b
def or (a b : Term) : Fallible Term := Term.mkConnective .bitOr a b
def bitNeg (a : Term) : Fallible Term := a.mkBvNot

/-- A boolean beside a single bit becomes a bit. -/
def bitAndWith (sortCheck : Term → Term → Fallible (Term × Term)) (a b : Term) : Fallible Term :=
  if a.sort = .bool ∧ b.sort = .bitVector 1 then .ok (.ite a b (.bvVal 0 1))
  else if b.sort = .bool ∧ a.sort = .bitVector 1 then .ok (.ite b a (.bvVal 0 1))
  else do
    let pair ← sortCheck a b
    Term.mkBinary .bitAnd pair.1 pair.2

def bitAnd : Term → Term → Fallible Term := bitAndWith sortCheckAndExtract

/-- The reading that the comment on the operator compares it with: padding to the longer operand. -/
def bitAndPadding : Term → Term → Fallible Term := bitAndWith sortCheckAndPad

def ite (condition trueValue falseValue : Term) : Fallible Term :=
  if condition.sort ≠ .bool then
    .error (.status (invalidArgument "The condition of an if-then-else operation must be boolean."))
  else if trueValue = falseValue then .ok trueValue
  else do
    let pair ← sortCheckAndPad trueValue falseValue
    .ok (.ite condition pair.1 pair.2)

def toBoolSort (a : Term) : Fallible Term :=
  match a.sort with
  | .bool => .ok a
  | .bitVector _ => gte a (.bvVal 1 1)

def toBitVectorSort (a : Term) (size : Nat) : Fallible Term :=
  let illegal : Fallible Term := .error (.status (invalidArgument "Illegal conversion to bitvector sort"))
  match a.sort with
  | .bool => .ok (pad (.ite a (.bvVal 1 1) (.bvVal 0 1)) (size - 1))
  | .bitVector w => if w ≤ size then .ok (pad a (size - w)) else illegal

/-! ### Operator expressions -/

inductive BinaryOperation where
  | plus | minus | times | leftShift | rightShift | equals | notEquals | greater | greaterEquals
  | less | lessEquals | and | or | bitAnd | bitOr | bitXor
  deriving DecidableEq,Repr

inductive UnaryOperation where
  | not | bitNegation
  deriving DecidableEq,Repr

inductive BuiltinFunction where
  | boolToData | dataToBool
  deriving DecidableEq,Repr

/-- A right value: a value, or an expression over right values; a builtin function has its one argument. -/
inductive RValueOf (α : Type) where
  | value (value : α)
  | binary (operation : BinaryOperation) (left right : RValueOf α)
  | unary (operation : UnaryOperation) (operand : RValueOf α)
  | ternary (condition left right : RValueOf α)
  | builtin (function : BuiltinFunction) (argument : RValueOf α)
  deriving DecidableEq,Repr

section Evaluation
variable {α : Type} (bitAnd : Term → Term → Fallible Term) (evaluateValue : α → Fallible Term)

def evaluateBinary : BinaryOperation → Term → Term → Fallible Term
  | .plus => plus
  | .minus => minus
  | .times => times
  | .leftShift => lShift
  | .rightShift => rShift
  | .equals => eq
  | .notEquals => neq
  | .greater => gt
  | .greaterEquals => gte
  | .less => lt
  | .lessEquals => lte
  | .and => and
  | .or => or
  | .bitAnd => bitAnd
  | .bitOr => bitOr
  | .bitXor => bitXor

def evaluateUnary : UnaryOperation → Term → Fallible Term
  | .not => not
  | .bitNegation => bitNeg

def evaluateBuiltin : BuiltinFunction → Term → Fallible Term
  | .dataToBool,a => toBoolSort a
  | .boolToData,a => toBitVectorSort a 1

/-- `EvaluateRValue` and `EvaluateRExpression`, with the bitwise and and the values as parameters. -/
def evaluateRValueWith : RValueOf α → Fallible Term
  | .value value => evaluateValue value
  | .binary operation left right => do
    let left ← evaluateRValueWith left
    let right ← evaluateRValueWith right
    evaluateBinary bitAnd operation left right
  | .unary operation operand => do
    let operand ← evaluateRValueWith operand
    evaluateUnary operation operand
  | .ternary condition left right => do
    let condition ← evaluateRValueWith condition
    let left ← evaluateRValueWith left
    let right ← evaluateRValueWith right
    ite condition left right
  | .builtin function argument => do
    let argument ← evaluateRValueWith argument
    evaluateBuiltin function argument

end Evaluation

inductive BitVectorValue where
  | field (name : String) (width : Nat)
  | hexstr (value width : Nat)
  deriving DecidableEq,Repr

abbrev RValue := RValueOf BitVectorValue

def evaluateBitVector : BitVectorValue → Fallible Term
  | .field name width => Term.mkBvConst name width
  | .hexstr value width => Term.mkBvVal value width

def evaluateRValue : RValue → Fallible Term := evaluateRValueWith bitAnd evaluateBitVector

end SonicPins.P4Symbolic.Operators
