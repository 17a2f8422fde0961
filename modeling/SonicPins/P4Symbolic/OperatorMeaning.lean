import SonicPins.P4Symbolic.Operators

/-! What the symbolic operators compute: the sort of a result from the sorts of the operands,
and its value from their values. -/
namespace SonicPins.P4Symbolic.Operators
open Lib

variable {sortCheck : Term → Term → Fallible (Term × Term)}

/-- A sort and a value of it; nothing where an operator reports an error. -/
abbrev Meaning := Option (SolverSort × Nat)

def padSort : SolverSort → SolverSort → Option SolverSort
  | .bool,.bool => some .bool
  | .bool,.bitVector w | .bitVector w,.bool => if w = 1 then some .bool else none
  | .bitVector v,.bitVector w => some (.bitVector (max v w))

/-- The sort of a bitwise and, whose width is a function of the widths of its operands. -/
def andSort (combine : Nat → Nat → Nat) : SolverSort → SolverSort → Option SolverSort
  | .bool,.bool => some .bool
  | .bool,.bitVector w | .bitVector w,.bool => if w = 1 then some (.bitVector 1) else none
  | .bitVector v,.bitVector w => some (.bitVector (combine v w))

def operationOp : BinaryOperation → BinaryOp
  | .plus => .add
  | .minus => .sub
  | .times => .mul
  | .leftShift => .shl
  | .rightShift => .lshr
  | .equals => .eq
  | .notEquals => .distinct
  | .greater => .ugt
  | .greaterEquals => .uge
  | .less => .ult
  | .lessEquals => .ule
  | .and | .bitAnd => .bitAnd
  | .or | .bitOr => .bitOr
  | .bitXor => .bitXor

/-- Booleans have no arithmetic and no order. -/
def acceptedSort (op : BinaryOp) (s : Option SolverSort) : Option SolverSort := s.filter op.accepts

def operandSort (combine : Nat → Nat → Nat) (operation : BinaryOperation) (s t : SolverSort) : Option SolverSort :=
  match operation with
  | .and | .or => if s = .bool ∧ t = .bool then some .bool else none
  | .bitAnd => andSort combine s t
  | _ => acceptedSort (operationOp operation) (padSort s t)

def unarySort (operation : UnaryOperation) (s : SolverSort) : Option SolverSort :=
  match operation,s with
  | .not,.bool => some .bool
  | .bitNegation,.bitVector w => some (.bitVector w)
  | _,_ => none

def unaryValue (operation : UnaryOperation) (s : SolverSort) (x : Nat) : Nat :=
  match operation with
  | .not => (decide (x = 0)).toNat
  | .bitNegation => 2 ^ s.width - 1 - x

def builtinSort (function : BuiltinFunction) (s : SolverSort) : Option SolverSort :=
  match function,s with
  | .dataToBool,_ => some .bool
  | .boolToData,.bool => some (.bitVector 1)
  | .boolToData,.bitVector w => if w ≤ 1 then some (.bitVector 1) else none

def builtinValue (function : BuiltinFunction) (s : SolverSort) (x : Nat) : Nat :=
  match function,s with
  | .dataToBool,.bitVector _ => (decide (1 ≤ x)).toNat
  | _,_ => x

def ternarySort (c s t : SolverSort) : Option SolverSort := if c = .bool then padSort s t else none

section Meanings
variable (combine : Nat → Nat → Nat)

def binaryMeaning (operation : BinaryOperation) (m n : SolverSort × Nat) : Meaning :=
  (operandSort combine operation m.1 n.1).map fun u =>
    ((operationOp operation).resultSort u,(operationOp operation).apply u.width m.2 n.2)

/-- The meaning of an expression, for one way to combine the widths of a bitwise and. -/
def meaning (σ : Assignment) : RValue → Meaning
  | .value (.field name width) => if width = 0 then none else some (.bitVector width,σ name (.bitVector width) % 2 ^ width)
  | .value (.hexstr value width) => if width = 0 then none else some (.bitVector width,value % 2 ^ width)
  | .binary operation left right =>
    (meaning σ left).bind fun m => (meaning σ right).bind fun n => binaryMeaning combine operation m n
  | .unary operation operand =>
    (meaning σ operand).bind fun m => (unarySort operation m.1).map fun u => (u,unaryValue operation m.1 m.2)
  | .ternary condition left right =>
    (meaning σ condition).bind fun c => (meaning σ left).bind fun m => (meaning σ right).bind fun n =>
      (ternarySort c.1 m.1 n.1).map fun u => (u,if c.2 = 0 then n.2 else m.2)
  | .builtin function argument =>
    (meaning σ argument).bind fun m => (builtinSort function m.1).map fun u => (u,builtinValue function m.1 m.2)

/-- The sort alone, which does not depend on the assignment. -/
def sortOf : RValue → Option SolverSort
  | .value (.field _ width) | .value (.hexstr _ width) => if width = 0 then none else some (.bitVector width)
  | .binary operation left right =>
    (sortOf left).bind fun s => (sortOf right).bind fun t =>
      (operandSort combine operation s t).map (operationOp operation).resultSort
  | .unary operation operand => (sortOf operand).bind (unarySort operation)
  | .ternary condition left right =>
    (sortOf condition).bind fun c => (sortOf left).bind fun s => (sortOf right).bind fun t => ternarySort c s t
  | .builtin function argument => (sortOf argument).bind (builtinSort function)

theorem sortOf_eq (σ : Assignment) (e : RValue) : sortOf combine e = (meaning combine σ e).map Prod.fst := by
  induction e with
  | value v =>
    cases v with
    | field name width | hexstr value width => by_cases hw : width = 0 <;> simp [sortOf,meaning,hw]
  | binary operation left right ihl ihr =>
    rw [sortOf,meaning,ihl,ihr]
    cases meaning combine σ left with
    | none => rfl
    | some m =>
      cases meaning combine σ right with
      | none => rfl
      | some n => simp [binaryMeaning,Function.comp_def]
  | unary operation operand ih =>
    rw [sortOf,meaning,ih]
    cases meaning combine σ operand with
    | none => rfl
    | some m => simp [Function.comp_def]
  | ternary condition left right ihc ihl ihr =>
    rw [sortOf,meaning,ihc,ihl,ihr]
    cases meaning combine σ condition with
    | none => rfl
    | some c =>
      cases meaning combine σ left with
      | none => rfl
      | some m =>
        cases meaning combine σ right with
        | none => rfl
        | some n => simp [Function.comp_def]
  | builtin function argument ih =>
    rw [sortOf,meaning,ih]
    cases meaning combine σ argument with
    | none => rfl
    | some m => simp [Function.comp_def]

end Meanings

/-! ### The operators compute their meaning -/

/-- A step returns a term with the given meaning, or reports an error where there is none. -/
def Yields (σ : Assignment) (r : Fallible Term) : Meaning → Prop
  | none => ∃ e,r = .error e
  | some m => ∃ t,r = .ok t ∧ Term.Means σ t m.1 m.2

variable {σ : Assignment} {a b c : Term} {s t : SolverSort} {x y z : Nat}

theorem Yields.bind {r : Fallible Term} {f : Term → Fallible Term} {m : Meaning} {g : SolverSort × Nat → Meaning}
    (hr : Yields σ r m) (hf : ∀ a s x,Term.Means σ a s x → Yields σ (f a) (g (s,x))) : Yields σ (r >>= f) (m.bind g) := by
  cases m with
  | none =>
    obtain ⟨e,rfl⟩ := hr
    exact ⟨e,rfl⟩
  | some m =>
    obtain ⟨t,rfl,ht⟩ := hr
    exact hf t m.1 m.2 ht

theorem pad_means (k : Nat) {w : Nat} (ha : Term.Means σ a (.bitVector w) x) :
    Term.Means σ (pad a k) (.bitVector (k + w)) x := by
  unfold pad
  split
  next => exact ha.zeroExtend k
  next hk =>
    rw [show k = 0 by omega,Nat.zero_add]
    exact ha

theorem isOne_means (ha : Term.Means σ a (.bitVector 1) x) : Term.Means σ (isOne a) .bool x := by
  have h := ha.binary .eq (.bvVal 1 Nat.one_pos)
  have hx : x < 2 := ha.fits
  have hvalue : BinaryOp.eq.apply (SolverSort.bitVector 1).width x (1 % 2 ^ 1) = x := by
    have hcases : x = 0 ∨ x = 1 := by omega
    rcases hcases with rfl | rfl <;> rfl
  rw [hvalue] at h
  exact h

theorem sortCheckAndPad_spec (ha : Term.Means σ a s x) (hb : Term.Means σ b t y) :
    match padSort s t with
    | none => ∃ e,sortCheckAndPad a b = .error e
    | some u => ∃ p,sortCheckAndPad a b = .ok p ∧ Term.Means σ p.1 u x ∧ Term.Means σ p.2 u y := by
  unfold sortCheckAndPad
  rw [ha.sort,hb.sort]
  cases s with
  | bool =>
    cases t with
    | bool => exact ⟨_,rfl,ha,hb⟩
    | bitVector w =>
      by_cases hw : w = 1
      · simp only [padSort,if_pos hw]
        exact ⟨_,rfl,ha,isOne_means (hw ▸ hb)⟩
      · simp only [padSort,if_neg hw]
        exact ⟨_,rfl⟩
  | bitVector v =>
    cases t with
    | bool =>
      by_cases hv : v = 1
      · simp only [padSort,if_pos hv]
        exact ⟨_,rfl,isOne_means (hv ▸ ha),hb⟩
      · simp only [padSort,if_neg hv]
        exact ⟨_,rfl⟩
    | bitVector w =>
      have hl : w - v + v = max v w := by omega
      have hr : v - w + w = max v w := by omega
      exact ⟨_,rfl,hl ▸ pad_means _ ha,hr ▸ pad_means _ hb⟩

theorem mkBinary_yields (op : BinaryOp) (ha : Term.Means σ a s x) (hb : Term.Means σ b s y) :
    Yields σ (Term.mkBinary op a b) ((acceptedSort op (some s)).map fun u => (op.resultSort u,op.apply u.width x y)) := by
  unfold Term.mkBinary acceptedSort
  rw [ha.sort,hb.sort]
  by_cases hop : op.accepts s = true
  · rw [if_pos ⟨rfl,hop⟩,Option.filter_some,if_pos hop]
    exact ⟨_,rfl,ha.binary op hb⟩
  · rw [if_neg fun h => hop h.2,Option.filter_some,if_neg hop]
    exact ⟨_,rfl⟩

theorem onPadded_yields (op : BinaryOp) (ha : Term.Means σ a s x) (hb : Term.Means σ b t y) :
    Yields σ (onPadded op a b) ((acceptedSort op (padSort s t)).map fun u => (op.resultSort u,op.apply u.width x y)) := by
  have hspec := sortCheckAndPad_spec ha hb
  unfold onPadded
  cases hu : padSort s t with
  | none =>
    rw [hu] at hspec
    obtain ⟨e,he⟩ := hspec
    exact ⟨e,by rw [he]; rfl⟩
  | some u =>
    rw [hu] at hspec
    obtain ⟨p,hp,hl,hr⟩ := hspec
    rw [hp]
    exact mkBinary_yields op hl hr

theorem connective_yields (op : BinaryOp) (ha : Term.Means σ a s x) (hb : Term.Means σ b t y) :
    Yields σ (Term.mkConnective op a b)
      ((if s = .bool ∧ t = .bool then some SolverSort.bool else none).map fun u => (op.resultSort u,op.apply u.width x y)) := by
  unfold Term.mkConnective
  rw [ha.sort,hb.sort]
  by_cases h : s = .bool ∧ t = .bool
  · obtain ⟨rfl,rfl⟩ := h
    exact ⟨_,rfl,ha.binary op hb⟩
  · rw [if_neg h,if_neg h]
    exact ⟨_,rfl⟩

theorem suffix_means {n v : Nat} (hn : 0 < n) (ha : Term.Means σ a (.bitVector v) x) :
    Term.Means σ (suffix a n) (.bitVector (min v n)) (x % 2 ^ n) := by
  unfold suffix
  rw [ha.width]
  split
  next hlt =>
    rw [show min v n = n from Nat.min_eq_right (Nat.le_of_lt hlt)]
    exact ha.extractLow hn
  next hle =>
    have hvn : v ≤ n := Nat.not_lt.mp hle
    have hx : x < 2 ^ n := Nat.lt_of_lt_of_le ha.fits (Nat.pow_le_pow_right (by decide) hvn)
    rw [Nat.min_eq_left hvn,Nat.mod_eq_of_lt hx]
    exact ha

private theorem and_mod_mod {v w : Nat} (hx : x < 2 ^ v) (hy : y < 2 ^ w) : x % 2 ^ w &&& y % 2 ^ v = x &&& y := by
  rw [← Nat.and_two_pow_sub_one_eq_mod,← Nat.and_two_pow_sub_one_eq_mod]
  have hleft : y &&& (2 ^ w - 1) = y := by rw [Nat.and_two_pow_sub_one_eq_mod,Nat.mod_eq_of_lt hy]
  have hright : x &&& (2 ^ v - 1) = x := by rw [Nat.and_two_pow_sub_one_eq_mod,Nat.mod_eq_of_lt hx]
  calc (x &&& (2 ^ w - 1)) &&& (y &&& (2 ^ v - 1)) = (x &&& (2 ^ v - 1)) &&& (y &&& (2 ^ w - 1)) := by ac_rfl
    _ = x &&& y := by rw [hleft,hright]

/-- A sort check for a bitwise and: the width it combines two widths to, and no change in the
bits that the operands share. -/
structure AndCheck (σ : Assignment) (sortCheck : Term → Term → Fallible (Term × Term)) (combine : Nat → Nat → Nat) : Prop where
  bools : ∀ a b x y,Term.Means σ a .bool x → Term.Means σ b .bool y → sortCheck a b = .ok (a,b)
  vectors : ∀ a b v w x y,Term.Means σ a (.bitVector v) x → Term.Means σ b (.bitVector w) y →
    ∃ p x' y',sortCheck a b = .ok p ∧ Term.Means σ p.1 (.bitVector (combine v w)) x' ∧
      Term.Means σ p.2 (.bitVector (combine v w)) y' ∧ x' &&& y' = x &&& y
  mixed : ∀ a b,a.sort = .bool → (∃ w,w ≠ 1 ∧ b.sort = .bitVector w) →
    (∃ e,sortCheck a b = .error e) ∧ ∃ e,sortCheck b a = .error e

theorem andCheck_extract (σ : Assignment) : AndCheck σ sortCheckAndExtract min where
  bools a b x y ha hb := by rw [sortCheckAndExtract,ha.sort,hb.sort]
  vectors a b v w x y ha hb := by
    refine ⟨(suffix a w,suffix b v),_,_,?_,suffix_means hb.pos ha,?_,and_mod_mod ha.fits hb.fits⟩
    · rw [sortCheckAndExtract,ha.sort,hb.sort]
    · rw [Nat.min_comm]
      exact suffix_means ha.pos hb
  mixed a b ha hb := by
    obtain ⟨w,-,hw⟩ := hb
    constructor
    · exact ⟨_,by rw [sortCheckAndExtract,ha,hw]⟩
    · exact ⟨_,by rw [sortCheckAndExtract,ha,hw]⟩

theorem andCheck_pad (σ : Assignment) : AndCheck σ sortCheckAndPad max where
  bools a b x y ha hb := by rw [sortCheckAndPad,ha.sort,hb.sort]
  vectors a b v w x y ha hb := by
    obtain ⟨p,hp,hl,hr⟩ := sortCheckAndPad_spec ha hb
    exact ⟨p,x,y,hp,hl,hr,rfl⟩
  mixed a b ha hb := by
    obtain ⟨w,hne,hw⟩ := hb
    constructor
    · exact ⟨_,by rw [sortCheckAndPad,ha,hw]; exact if_neg hne⟩
    · exact ⟨_,by rw [sortCheckAndPad,ha,hw]; exact if_neg hne⟩

theorem bit_ite {x y : Nat} (hx : x < 2) (hy : y < 2) : (if x = 0 then 0 % 2 ^ 1 else y) = x &&& y := by
  have hxcases : x = 0 ∨ x = 1 := by omega
  have hycases : y = 0 ∨ y = 1 := by omega
  rcases hxcases with rfl | rfl <;> rcases hycases with rfl | rfl <;> rfl

private theorem bitAndWith_yields {combine : Nat → Nat → Nat}
    (hcheck : AndCheck σ sortCheck combine) (ha : Term.Means σ a s x) (hb : Term.Means σ b t y) :
    Yields σ (bitAndWith sortCheck a b) (binaryMeaning combine .bitAnd (s,x) (t,y)) := by
  unfold bitAndWith
  rw [ha.sort,hb.sort]
  cases s with
  | bool =>
    cases t with
    | bool =>
      rw [if_neg (by simp),if_neg (by simp),hcheck.bools a b x y ha hb]
      exact mkBinary_yields .bitAnd ha hb
    | bitVector w =>
      by_cases hw : w = 1
      · subst hw
        rw [if_pos ⟨rfl,rfl⟩]
        refine ⟨_,rfl,?_⟩
        have h := ha.ite hb (.bvVal 0 Nat.one_pos)
        rw [bit_ite ha.fits hb.fits] at h
        exact h
      · rw [if_neg (by simpa using hw),if_neg (by simp)]
        obtain ⟨e,he⟩ := (hcheck.mixed a b ha.sort ⟨w,hw,hb.sort⟩).1
        simp only [binaryMeaning,operandSort,andSort,if_neg hw]
        exact ⟨e,by rw [he]; rfl⟩
  | bitVector v =>
    cases t with
    | bool =>
      by_cases hv : v = 1
      · subst hv
        rw [if_neg (by simp),if_pos ⟨rfl,rfl⟩]
        refine ⟨_,rfl,?_⟩
        have h := hb.ite ha (.bvVal 0 Nat.one_pos)
        rw [bit_ite hb.fits ha.fits,Nat.and_comm] at h
        exact h
      · rw [if_neg (by simp),if_neg (by simpa using hv)]
        obtain ⟨e,he⟩ := (hcheck.mixed b a hb.sort ⟨v,hv,ha.sort⟩).2
        simp only [binaryMeaning,operandSort,andSort,if_neg hv]
        exact ⟨e,by rw [he]; rfl⟩
    | bitVector w =>
      rw [if_neg (by simp),if_neg (by simp)]
      obtain ⟨p,x',y',hp,hl,hr,hxy⟩ := hcheck.vectors a b v w x y ha hb
      rw [hp]
      have h := mkBinary_yields .bitAnd hl hr
      simp only [acceptedSort,BinaryOp.accepts,Option.filter_some,if_pos,Option.map_some,BinaryOp.apply,hxy] at h
      exact h

theorem evaluateBinary_yields {combine : Nat → Nat → Nat}
    (hcheck : AndCheck σ sortCheck combine) (operation : BinaryOperation) (ha : Term.Means σ a s x) (hb : Term.Means σ b t y) :
    Yields σ (evaluateBinary (bitAndWith sortCheck) operation a b) (binaryMeaning combine operation (s,x) (t,y)) := by
  cases operation with
  | plus => exact onPadded_yields .add ha hb
  | minus => exact onPadded_yields .sub ha hb
  | times => exact onPadded_yields .mul ha hb
  | leftShift => exact onPadded_yields .shl ha hb
  | rightShift => exact onPadded_yields .lshr ha hb
  | equals => exact onPadded_yields .eq ha hb
  | notEquals => exact onPadded_yields .distinct ha hb
  | greater => exact onPadded_yields .ugt ha hb
  | greaterEquals => exact onPadded_yields .uge ha hb
  | less => exact onPadded_yields .ult ha hb
  | lessEquals => exact onPadded_yields .ule ha hb
  | and => exact connective_yields .bitAnd ha hb
  | or => exact connective_yields .bitOr ha hb
  | bitAnd => exact bitAndWith_yields hcheck ha hb
  | bitOr => exact onPadded_yields .bitOr ha hb
  | bitXor => exact onPadded_yields .bitXor ha hb

theorem evaluateUnary_yields (operation : UnaryOperation) (ha : Term.Means σ a s x) :
    Yields σ (evaluateUnary operation a) ((unarySort operation s).map fun u => (u,unaryValue operation s x)) := by
  cases operation with
  | not =>
    change Yields σ (Term.mkNot a) _
    unfold Term.mkNot
    rw [ha.sort]
    cases s with
    | bool => exact ⟨_,rfl,ha.not⟩
    | bitVector w => exact ⟨_,rfl⟩
  | bitNegation =>
    change Yields σ (Term.mkBvNot a) _
    unfold Term.mkBvNot
    rw [ha.sort]
    cases s with
    | bool => exact ⟨_,rfl⟩
    | bitVector w => exact ⟨_,rfl,ha.bvNot⟩

theorem ite_yields (hc : Term.Means σ c s z) {u : SolverSort} (ha : Term.Means σ a t x) (hb : Term.Means σ b u y) :
    Yields σ (ite c a b) ((ternarySort s t u).map fun v => (v,if z = 0 then y else x)) := by
  unfold ite ternarySort
  rw [hc.sort]
  by_cases hs : s = .bool
  · subst hs
    rw [if_neg (by simp),if_pos rfl]
    have hspec := sortCheckAndPad_spec ha hb
    by_cases hab : a = b
    · subst hab
      have htu : t = u := ha.sort.symm.trans hb.sort
      have hxy : x = y := ha.eval.symm.trans hb.eval
      subst htu hxy
      rw [if_pos rfl,ite_self]
      cases t with
      | bool => exact ⟨_,rfl,ha⟩
      | bitVector w =>
        simp only [padSort,max_self]
        exact ⟨_,rfl,ha⟩
    · rw [if_neg hab]
      cases hv : padSort t u with
      | none =>
        rw [hv] at hspec
        obtain ⟨e,he⟩ := hspec
        exact ⟨e,by rw [he]; rfl⟩
      | some v =>
        rw [hv] at hspec
        obtain ⟨p,hp,hl,hr⟩ := hspec
        rw [hp]
        exact ⟨_,rfl,hc.ite hl hr⟩
  · rw [if_pos hs,if_neg hs]
    exact ⟨_,rfl⟩

theorem evaluateBuiltin_yields (function : BuiltinFunction) (ha : Term.Means σ a s x) :
    Yields σ (evaluateBuiltin function a) ((builtinSort function s).map fun u => (u,builtinValue function s x)) := by
  cases function with
  | dataToBool =>
    change Yields σ (toBoolSort a) _
    unfold toBoolSort
    rw [ha.sort]
    cases s with
    | bool => exact ⟨_,rfl,ha⟩
    | bitVector w => exact onPadded_yields .uge ha (.bvVal 1 Nat.one_pos)
  | boolToData =>
    change Yields σ (toBitVectorSort a 1) _
    unfold toBitVectorSort
    rw [ha.sort]
    cases s with
    | bool =>
      refine ⟨_,rfl,?_⟩
      have h := ha.ite (Term.Means.bvVal 1 Nat.one_pos) (Term.Means.bvVal 0 Nat.one_pos)
      have hx : x < 2 := ha.fits
      have hvalue : (if x = 0 then 0 % 2 ^ 1 else 1 % 2 ^ 1) = x := by
        have hcases : x = 0 ∨ x = 1 := by omega
        rcases hcases with rfl | rfl <;> rfl
      rw [hvalue] at h
      exact h
    | bitVector w =>
      by_cases hw : w ≤ 1
      · simp only [builtinSort,if_pos hw]
        refine ⟨_,rfl,?_⟩
        have h := pad_means (1 - w) ha
        rwa [Nat.sub_add_cancel hw] at h
      · simp only [builtinSort,if_neg hw]
        exact ⟨_,rfl⟩

theorem evaluateRValueWith_yields {combine : Nat → Nat → Nat} (hcheck : AndCheck σ sortCheck combine) (e : RValue) :
    Yields σ (evaluateRValueWith (bitAndWith sortCheck) evaluateBitVector e) (meaning combine σ e) := by
  induction e with
  | value v =>
    cases v with
    | field name width =>
      by_cases hw : width = 0
      · simp only [evaluateRValueWith,evaluateBitVector,Term.mkBvConst,meaning,if_pos hw]
        exact ⟨_,rfl⟩
      · simp only [evaluateRValueWith,evaluateBitVector,Term.mkBvConst,meaning,if_neg hw]
        exact ⟨_,rfl,.const name (Nat.pos_of_ne_zero hw)⟩
    | hexstr value width =>
      by_cases hw : width = 0
      · simp only [evaluateRValueWith,evaluateBitVector,Term.mkBvVal,meaning,if_pos hw]
        exact ⟨_,rfl⟩
      · simp only [evaluateRValueWith,evaluateBitVector,Term.mkBvVal,meaning,if_neg hw]
        exact ⟨_,rfl,.bvVal value (Nat.pos_of_ne_zero hw)⟩
  | binary operation left right ihl ihr =>
    apply ihl.bind
    intro a s x ha
    apply ihr.bind
    intro b t y hb
    exact evaluateBinary_yields hcheck operation ha hb
  | unary operation operand ih =>
    apply ih.bind
    intro a s x ha
    exact evaluateUnary_yields operation ha
  | ternary condition left right ihc ihl ihr =>
    apply ihc.bind
    intro c s z hc
    apply ihl.bind
    intro a t x ha
    apply ihr.bind
    intro b u y hb
    exact ite_yields hc ha hb
  | builtin function argument ih =>
    apply ih.bind
    intro a s x ha
    exact evaluateBuiltin_yields function ha

end SonicPins.P4Symbolic.Operators
