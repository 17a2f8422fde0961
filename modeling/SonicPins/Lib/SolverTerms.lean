import Mathlib.Data.Nat.Bitwise
import SonicPins.Lib.Status

/-! Terms of a solver over booleans and bit vectors of any width, and what they evaluate to. -/
namespace SonicPins.Lib

inductive SolverSort where
  | bool
  | bitVector (width : Nat)
  deriving DecidableEq,Repr

/-- A boolean is read as one bit. -/
def SolverSort.width : SolverSort → Nat
  | .bool => 1
  | .bitVector w => w

inductive BinaryOp where
  | add | sub | mul | bitAnd | bitOr | bitXor | shl | lshr
  | eq | distinct | ult | ule | ugt | uge
  deriving DecidableEq,Repr

namespace BinaryOp

def isComparison : BinaryOp → Bool
  | .eq | .distinct | .ult | .ule | .ugt | .uge => true
  | _ => false

def resultSort (op : BinaryOp) (s : SolverSort) : SolverSort := if op.isComparison then .bool else s

/-- Booleans have no arithmetic and no order. -/
def accepts : BinaryOp → SolverSort → Bool
  | .bitAnd,.bool | .bitOr,.bool | .bitXor,.bool | .eq,.bool | .distinct,.bool => true
  | _,.bool => false
  | _,.bitVector _ => true

def apply (op : BinaryOp) (width x y : Nat) : Nat :=
  match op with
  | .add => (x + y) % 2 ^ width
  | .sub => (x + 2 ^ width - y) % 2 ^ width
  | .mul => (x * y) % 2 ^ width
  | .bitAnd => x &&& y
  | .bitOr => x ||| y
  | .bitXor => x ^^^ y
  | .shl => if y < width then (x * 2 ^ y) % 2 ^ width else 0
  | .lshr => if y < width then x / 2 ^ y else 0
  | .eq => (decide (x = y)).toNat
  | .distinct => (decide (x ≠ y)).toNat
  | .ult => (decide (x < y)).toNat
  | .ule => (decide (x ≤ y)).toNat
  | .ugt => (decide (y < x)).toNat
  | .uge => (decide (y ≤ x)).toNat

theorem apply_lt (op : BinaryOp) {s : SolverSort} {x y : Nat} (hx : x < 2 ^ s.width) (hy : y < 2 ^ s.width) :
    op.apply s.width x y < 2 ^ (op.resultSort s).width := by
  have hpos : 0 < 2 ^ s.width := Nat.two_pow_pos _
  have hbool : ∀ b : Bool,b.toNat < 2 ^ SolverSort.bool.width := by decide
  cases op with
  | add => exact Nat.mod_lt _ hpos
  | sub => exact Nat.mod_lt _ hpos
  | mul => exact Nat.mod_lt _ hpos
  | bitAnd => exact Nat.and_lt_two_pow _ hy
  | bitOr => exact Nat.or_lt_two_pow hx hy
  | bitXor => exact Nat.xor_lt_two_pow hx hy
  | shl =>
    change (if y < s.width then (x * 2 ^ y) % 2 ^ s.width else 0) < 2 ^ s.width
    split
    · exact Nat.mod_lt _ hpos
    · exact hpos
  | lshr =>
    change (if y < s.width then x / 2 ^ y else 0) < 2 ^ s.width
    split
    · exact Nat.lt_of_le_of_lt (Nat.div_le_self _ _) hx
    · exact hpos
  | eq => exact hbool _
  | distinct => exact hbool _
  | ult => exact hbool _
  | ule => exact hbool _
  | ugt => exact hbool _
  | uge => exact hbool _

end BinaryOp

inductive Term where
  | boolVal (b : Bool)
  | bvVal (value width : Nat)
  | const (name : String) (sort : SolverSort)
  | not (a : Term)
  | bvNot (a : Term)
  | binary (op : BinaryOp) (a b : Term)
  | ite (c a b : Term)
  | concat (a b : Term)
  | extract (hi lo : Nat) (a : Term)
  deriving DecidableEq,Repr

/-- A value for every constant of every sort. -/
abbrev Assignment := String → SolverSort → Nat

namespace Term

def sort : Term → SolverSort
  | boolVal _ => .bool
  | bvVal _ w => .bitVector w
  | const _ s => s
  | not _ => .bool
  | bvNot a => a.sort
  | binary op a _ => op.resultSort a.sort
  | ite _ a _ => a.sort
  | concat a b => .bitVector (a.sort.width + b.sort.width)
  | extract hi lo _ => .bitVector (hi - lo + 1)

def width (t : Term) : Nat := t.sort.width

/-- The number a term stands for; true is 1 and false is 0. -/
def eval (σ : Assignment) : Term → Nat
  | boolVal b => b.toNat
  | bvVal value w => value % 2 ^ w
  | const name s => σ name s % 2 ^ s.width
  | not a => (decide (a.eval σ = 0)).toNat
  | bvNot a => 2 ^ a.width - 1 - a.eval σ
  | binary op a b => op.apply a.width (a.eval σ) (b.eval σ)
  | ite c a b => if c.eval σ = 0 then b.eval σ else a.eval σ
  | concat a b => a.eval σ * 2 ^ b.width + b.eval σ
  | extract hi lo a => a.eval σ / 2 ^ lo % 2 ^ (hi - lo + 1)

section Equations
variable (σ : Assignment) (op : BinaryOp) (a b c : Term)

theorem sort_binary : (binary op a b).sort = op.resultSort a.sort := rfl

theorem sort_bvNot : (bvNot a).sort = a.sort := rfl

theorem sort_ite : (ite c a b).sort = a.sort := rfl

theorem sort_concat : (concat a b).sort = .bitVector (a.sort.width + b.sort.width) := rfl

theorem sort_extract (hi lo : Nat) : (extract hi lo a).sort = .bitVector (hi - lo + 1) := rfl

theorem eval_binary : (binary op a b).eval σ = op.apply a.width (a.eval σ) (b.eval σ) := rfl

theorem eval_not : (not a).eval σ = (decide (a.eval σ = 0)).toNat := rfl

theorem eval_bvNot : (bvNot a).eval σ = 2 ^ a.width - 1 - a.eval σ := rfl

theorem eval_ite : (ite c a b).eval σ = if c.eval σ = 0 then b.eval σ else a.eval σ := rfl

theorem eval_concat : (concat a b).eval σ = a.eval σ * 2 ^ b.width + b.eval σ := rfl

theorem eval_extract (hi lo : Nat) : (extract hi lo a).eval σ = a.eval σ / 2 ^ lo % 2 ^ (hi - lo + 1) := rfl

end Equations

/-- A solver throws on operands whose sorts an operation does not take. -/
def badSorts : Failure := .thrown "z3::exception"

def mkBinary (op : BinaryOp) (a b : Term) : Fallible Term :=
  if a.sort = b.sort ∧ op.accepts a.sort then .ok (binary op a b) else .error badSorts

def mkNot (a : Term) : Fallible Term := if a.sort = .bool then .ok (not a) else .error badSorts

def mkBvNot (a : Term) : Fallible Term := if a.sort = .bool then .error badSorts else .ok (bvNot a)

/-- The boolean connectives, on booleans only. -/
def mkConnective (op : BinaryOp) (a b : Term) : Fallible Term :=
  if a.sort = .bool ∧ b.sort = .bool then .ok (binary op a b) else .error badSorts

/-- There are no bit vectors of width zero. -/
def mkBvConst (name : String) (width : Nat) : Fallible Term :=
  if width = 0 then .error badSorts else .ok (const name (.bitVector width))

def mkBvVal (value width : Nat) : Fallible Term := if width = 0 then .error badSorts else .ok (bvVal value width)

/-- The sort of a term and its value, which fits the sort. -/
structure Means (σ : Assignment) (t : Term) (s : SolverSort) (x : Nat) : Prop where
  pos : 0 < s.width
  sort : t.sort = s
  eval : t.eval σ = x
  fits : x < 2 ^ s.width

namespace Means
variable {σ : Assignment} {a b c : Term} {s : SolverSort} {x y z : Nat}

theorem width (h : Means σ a s x) : a.width = s.width := by rw [Term.width,h.sort]

theorem const (name : String) {s : SolverSort} (hs : 0 < s.width) : Means σ (.const name s) s (σ name s % 2 ^ s.width) :=
  ⟨hs,rfl,rfl,Nat.mod_lt _ (Nat.two_pow_pos _)⟩

theorem bvVal (value : Nat) {w : Nat} (hw : 0 < w) : Means σ (.bvVal value w) (.bitVector w) (value % 2 ^ w) :=
  ⟨hw,rfl,rfl,Nat.mod_lt _ (Nat.two_pow_pos _)⟩

theorem binary (op : BinaryOp) (ha : Means σ a s x) (hb : Means σ b s y) :
    Means σ (.binary op a b) (op.resultSort s) (op.apply s.width x y) where
  pos := by
    unfold BinaryOp.resultSort
    split
    · decide
    · exact ha.pos
  sort := by rw [sort_binary,ha.sort]
  eval := by rw [eval_binary,ha.eval,hb.eval,ha.width]
  fits := op.apply_lt ha.fits hb.fits

theorem not (ha : Means σ a .bool x) : Means σ (.not a) .bool (decide (x = 0)).toNat where
  pos := by decide
  sort := rfl
  eval := by rw [eval_not,ha.eval]
  fits := by cases decide (x = 0) <;> decide

theorem bvNot (ha : Means σ a s x) : Means σ (.bvNot a) s (2 ^ s.width - 1 - x) where
  pos := ha.pos
  sort := by rw [sort_bvNot,ha.sort]
  eval := by rw [eval_bvNot,ha.eval,ha.width]
  fits := by
    have := ha.fits
    omega

theorem ite (hc : Means σ c .bool z) (ha : Means σ a s x) (hb : Means σ b s y) :
    Means σ (.ite c a b) s (if z = 0 then y else x) where
  pos := ha.pos
  sort := by rw [sort_ite,ha.sort]
  eval := by rw [eval_ite,hc.eval,ha.eval,hb.eval]
  fits := by
    split
    · exact hb.fits
    · exact ha.fits

theorem zeroExtend (k : Nat) {w : Nat} (ha : Means σ a (.bitVector w) x) :
    Means σ (.concat (.bvVal 0 k) a) (.bitVector (k + w)) x where
  pos := Nat.lt_of_lt_of_le ha.pos (Nat.le_add_left _ _)
  sort := by rw [sort_concat,ha.sort]; rfl
  eval := by rw [eval_concat,ha.eval,Term.eval]; simp
  fits := Nat.lt_of_lt_of_le ha.fits (Nat.pow_le_pow_right (by decide) (Nat.le_add_left _ _))

theorem extractLow {n w : Nat} (hn : 0 < n) (ha : Means σ a (.bitVector w) x) :
    Means σ (.extract (n - 1) 0 a) (.bitVector n) (x % 2 ^ n) where
  pos := hn
  sort := by rw [sort_extract]; congr 1; omega
  eval := by
    have hlen : n - 1 - 0 + 1 = n := by omega
    rw [eval_extract,ha.eval,hlen,Nat.pow_zero,Nat.div_one]
  fits := Nat.mod_lt _ (Nat.two_pow_pos _)

end Means
end Term
end SonicPins.Lib
