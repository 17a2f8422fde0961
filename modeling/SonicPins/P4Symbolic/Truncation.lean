import SonicPins.P4Symbolic.OperatorMeaning

/-! When the truncating bitwise and computes the same numbers as one that pads. -/
namespace SonicPins.P4Symbolic.Operators
open Lib

/-- The implemented operators leave a value at most as wide as padding would. -/
def Narrower : SolverSort → SolverSort → Prop
  | .bool,.bool => True
  | .bitVector v,.bitVector w => v ≤ w
  | _,_ => False

namespace RValueOf
variable {α : Type}

/-- An expression and everything below it. -/
def parts : RValueOf α → List (RValueOf α)
  | .value v => [.value v]
  | .binary operation left right => .binary operation left right :: (left.parts ++ right.parts)
  | .unary operation operand => .unary operation operand :: operand.parts
  | .ternary condition left right => .ternary condition left right :: (condition.parts ++ left.parts ++ right.parts)
  | .builtin function argument => .builtin function argument :: argument.parts

theorem mem_parts_self (e : RValueOf α) : e ∈ e.parts := by
  cases e <;> simp [parts]

private theorem parts_subset {e p : RValueOf α} (h : p ∈ e.parts) : p.parts ⊆ e.parts := by
  induction e with
  | value v => rw [List.mem_singleton.mp h]; exact List.Subset.refl _
  | binary operation left right ihl ihr =>
    rcases List.mem_cons.mp h with rfl | h
    · exact List.Subset.refl _
    · rcases List.mem_append.mp h with h | h
      · exact fun q hq => List.mem_cons_of_mem _ (List.mem_append_left _ (ihl h hq))
      · exact fun q hq => List.mem_cons_of_mem _ (List.mem_append_right _ (ihr h hq))
  | unary operation operand ih =>
    rcases List.mem_cons.mp h with rfl | h
    · exact List.Subset.refl _
    · exact fun q hq => List.mem_cons_of_mem _ (ih h hq)
  | ternary condition left right ihc ihl ihr =>
    rcases List.mem_cons.mp h with rfl | h
    · exact List.Subset.refl _
    · rcases List.mem_append.mp h with h | h
      · rcases List.mem_append.mp h with h | h
        · exact fun q hq => List.mem_cons_of_mem _ (List.mem_append_left _ (List.mem_append_left _ (ihc h hq)))
        · exact fun q hq => List.mem_cons_of_mem _ (List.mem_append_left _ (List.mem_append_right _ (ihl h hq)))
      · exact fun q hq => List.mem_cons_of_mem _ (List.mem_append_right _ (ihr h hq))
  | builtin function argument ih =>
    rcases List.mem_cons.mp h with rfl | h
    · exact List.Subset.refl _
    · exact fun q hq => List.mem_cons_of_mem _ (ih h hq)

end RValueOf

/-! ### Sorts -/

section Sorts
variable {s s' t t' u' : SolverSort}

theorem Narrower.refl (s : SolverSort) : Narrower s s := by
  cases s with
  | bool => trivial
  | bitVector w => exact Nat.le_refl w

/-- A condition with a bit vector of one bit, which a narrower one then has too. -/
private theorem bit_narrower {v w : Nat} {r : SolverSort} (hv : 0 < v) (hle : v ≤ w) (h : (if w = 1 then some r else none) = some u') :
    ∃ u,(if v = 1 then some r else none) = some u ∧ Narrower u u' := by
  split at h
  next hw =>
    cases h
    exact ⟨_,if_pos (by omega),Narrower.refl _⟩
  next => cases h

theorem padSort_narrower (hs : Narrower s s') (ht : Narrower t t') (hspos : 0 < s.width) (htpos : 0 < t.width)
    (h : padSort s' t' = some u') : ∃ u,padSort s t = some u ∧ Narrower u u' := by
  cases s <;> cases s' <;> simp only [Narrower] at hs <;> cases t <;> cases t' <;> simp only [Narrower] at ht
  case bool.bool.bool.bool =>
    cases h
    exact ⟨_,rfl,trivial⟩
  case bool.bool.bitVector.bitVector => exact bit_narrower htpos ht h
  case bitVector.bitVector.bool.bool => exact bit_narrower hspos hs h
  case bitVector.bitVector.bitVector.bitVector v w v' w' =>
    cases h
    exact ⟨_,rfl,show max v v' ≤ max w w' by omega⟩

private theorem andSort_narrower (hs : Narrower s s') (ht : Narrower t t') (hspos : 0 < s.width) (htpos : 0 < t.width)
    (h : andSort max s' t' = some u') : ∃ u,andSort min s t = some u ∧ Narrower u u' := by
  cases s <;> cases s' <;> simp only [Narrower] at hs <;> cases t <;> cases t' <;> simp only [Narrower] at ht
  case bool.bool.bool.bool =>
    cases h
    exact ⟨_,rfl,trivial⟩
  case bool.bool.bitVector.bitVector => exact bit_narrower htpos ht h
  case bitVector.bitVector.bool.bool => exact bit_narrower hspos hs h
  case bitVector.bitVector.bitVector.bitVector v w v' w' =>
    cases h
    exact ⟨_,rfl,show min v v' ≤ max w w' by omega⟩

private theorem accepts_of_narrower {op : BinaryOp} (hs : Narrower s s') (h : op.accepts s' = true) : op.accepts s = true := by
  cases s <;> cases s' <;> simp only [Narrower] at hs
  · exact h
  · cases op <;> rfl

theorem acceptedSort_narrower {op : BinaryOp} {m m' : Option SolverSort}
    (hm : ∀ u',m' = some u' → ∃ u,m = some u ∧ Narrower u u') (h : acceptedSort op m' = some u') :
    ∃ u,acceptedSort op m = some u ∧ Narrower u u' := by
  obtain ⟨hu',haccepts⟩ := Option.filter_eq_some_iff.mp h
  obtain ⟨u,rfl,hu⟩ := hm u' hu'
  exact ⟨u,Option.filter_eq_some_iff.mpr ⟨rfl,accepts_of_narrower hu haccepts⟩,hu⟩

theorem operandSort_narrower {operation : BinaryOperation} (hs : Narrower s s') (ht : Narrower t t') (hspos : 0 < s.width)
    (htpos : 0 < t.width) (h : operandSort max operation s' t' = some u') :
    ∃ u,operandSort min operation s t = some u ∧ Narrower u u' := by
  have hpad : ∀ u',padSort s' t' = some u' → ∃ u,padSort s t = some u ∧ Narrower u u' :=
    fun u' => padSort_narrower hs ht hspos htpos
  have hbools : (if s' = .bool ∧ t' = .bool then some SolverSort.bool else none) = some u' →
      ∃ u,(if s = .bool ∧ t = .bool then some SolverSort.bool else none) = some u ∧ Narrower u u' := by
    intro hu
    split at hu
    next hboth =>
      obtain ⟨rfl,rfl⟩ := hboth
      cases hu
      cases s <;> cases t <;> simp only [Narrower] at hs ht
      exact ⟨.bool,rfl,trivial⟩
    next => cases hu
  cases operation with
  | and => exact hbools h
  | or => exact hbools h
  | bitAnd => exact andSort_narrower hs ht hspos htpos h
  | plus => exact acceptedSort_narrower hpad h
  | minus => exact acceptedSort_narrower hpad h
  | times => exact acceptedSort_narrower hpad h
  | leftShift => exact acceptedSort_narrower hpad h
  | rightShift => exact acceptedSort_narrower hpad h
  | equals => exact acceptedSort_narrower hpad h
  | notEquals => exact acceptedSort_narrower hpad h
  | greater => exact acceptedSort_narrower hpad h
  | greaterEquals => exact acceptedSort_narrower hpad h
  | less => exact acceptedSort_narrower hpad h
  | lessEquals => exact acceptedSort_narrower hpad h
  | bitOr => exact acceptedSort_narrower hpad h
  | bitXor => exact acceptedSort_narrower hpad h

private theorem resultSort_narrower (op : BinaryOp) (hs : Narrower s s') : Narrower (op.resultSort s) (op.resultSort s') := by
  unfold BinaryOp.resultSort
  split
  · trivial
  · exact hs

private theorem unarySort_narrower {operation : UnaryOperation} (hs : Narrower s s') (h : unarySort operation s' = some u') :
    ∃ u,unarySort operation s = some u ∧ Narrower u u' := by
  cases s <;> cases s' <;> simp only [Narrower] at hs <;> cases operation <;> cases h
  · exact ⟨_,rfl,trivial⟩
  · exact ⟨_,rfl,hs⟩

private theorem builtinSort_narrower {function : BuiltinFunction} (hs : Narrower s s') (h : builtinSort function s' = some u') :
    ∃ u,builtinSort function s = some u ∧ Narrower u u' := by
  cases function with
  | dataToBool =>
    cases h
    exact ⟨_,rfl,trivial⟩
  | boolToData =>
    cases s <;> cases s' <;> simp only [Narrower] at hs
    · cases h
      exact ⟨_,rfl,Nat.le_refl 1⟩
    · simp only [builtinSort] at h ⊢
      split at h
      next hw =>
        cases h
        exact ⟨_,if_pos (Nat.le_trans hs hw),Nat.le_refl 1⟩
      next => cases h

end Sorts

/-! ### Values -/

section Values
variable {s s' u u' : SolverSort} {x y : Nat}

theorem apply_eq_of_fits (op : BinaryOp) (hu : Narrower u u') (hx : x < 2 ^ u.width) (hy : y < 2 ^ u.width)
    (hfits : op.apply u'.width x y < 2 ^ (op.resultSort u).width) : op.apply u.width x y = op.apply u'.width x y := by
  cases u <;> cases u' <;> simp only [Narrower] at hu
  case bool.bool => rfl
  case bitVector.bitVector v w =>
    have hdvd : 2 ^ v ∣ 2 ^ w := Nat.pow_dvd_pow 2 hu
    change x < 2 ^ v at hx
    change y < 2 ^ v at hy
    have hmod : ∀ n,n % 2 ^ w < 2 ^ v → n % 2 ^ v = n % 2 ^ w := fun n hn => by
      rw [← Nat.mod_mod_of_dvd n hdvd,Nat.mod_eq_of_lt hn]
    cases op with
    | add => exact hmod _ hfits
    | sub =>
      have hle : 2 ^ v ≤ 2 ^ w := Nat.le_of_dvd (Nat.two_pow_pos w) hdvd
      have hsub : (x + 2 ^ w - y) % 2 ^ v = (x + 2 ^ v - y) % 2 ^ v := by
        obtain ⟨k,hk⟩ := hdvd
        cases k with
        | zero => have := Nat.two_pow_pos w; omega
        | succ k =>
          have hsum : x + 2 ^ w - y = x + 2 ^ v - y + 2 ^ v * k := by
            rw [hk,Nat.mul_succ]
            omega
          rw [hsum,Nat.add_mul_mod_self_left]
      exact hsub.symm.trans (hmod _ hfits)
    | mul => exact hmod _ hfits
    | shl =>
      change (if y < v then x * 2 ^ y % 2 ^ v else 0) = if y < w then x * 2 ^ y % 2 ^ w else 0
      change (if y < w then x * 2 ^ y % 2 ^ w else 0) < 2 ^ v at hfits
      by_cases hyw : y < w
      · rw [if_pos hyw] at hfits ⊢
        rw [← hmod _ hfits]
        by_cases hyv : y < v
        · rw [if_pos hyv]
        · -- the whole narrow value is shifted out
          have hzero : x * 2 ^ y % 2 ^ v = 0 :=
            Nat.mod_eq_zero_of_dvd ((Nat.pow_dvd_pow 2 (Nat.not_lt.mp hyv)).mul_left x)
          rw [if_neg hyv,hzero]
      · rw [if_neg hyw,if_neg fun hyv => hyw (Nat.lt_of_lt_of_le hyv hu)]
    | lshr =>
      change (if y < v then x / 2 ^ y else 0) = if y < w then x / 2 ^ y else 0
      by_cases hyv : y < v
      · rw [if_pos hyv,if_pos (Nat.lt_of_lt_of_le hyv hu)]
      · have hzero : x / 2 ^ y = 0 :=
          Nat.div_eq_of_lt (Nat.lt_of_lt_of_le hx (Nat.pow_le_pow_right (by decide) (Nat.not_lt.mp hyv)))
        rw [if_neg hyv,hzero,ite_self]
    | bitAnd => rfl
    | bitOr => rfl
    | bitXor => rfl
    | eq => rfl
    | distinct => rfl
    | ult => rfl
    | ule => rfl
    | ugt => rfl
    | uge => rfl

private theorem unaryValue_eq_of_fits (operation : UnaryOperation) (hs : Narrower s s') (hu : unarySort operation s = some u)
    (hx : x < 2 ^ s.width) (hfits : unaryValue operation s' x < 2 ^ u.width) :
    unaryValue operation s x = unaryValue operation s' x := by
  cases operation with
  | not => rfl
  | bitNegation =>
    cases s <;> cases s' <;> simp only [Narrower] at hs
    case bool.bool => rfl
    case bitVector.bitVector v w =>
      cases hu
      change 2 ^ w - 1 - x < 2 ^ v at hfits
      change x < 2 ^ v at hx
      change 2 ^ v - 1 - x = 2 ^ w - 1 - x
      -- a wider negation starts with ones
      have hvw : v = w := by
        by_contra hne
        have hpow : 2 ^ (v + 1) ≤ 2 ^ w := Nat.pow_le_pow_right (by decide) (by omega)
        rw [Nat.pow_succ] at hpow
        omega
      rw [hvw]

private theorem builtinValue_eq (function : BuiltinFunction) (hs : Narrower s s') :
    builtinValue function s x = builtinValue function s' x := by
  cases s <;> cases s' <;> simp only [Narrower] at hs
  · rfl
  · cases function <;> rfl

end Values

/-! ### The two readings -/

section Readings
variable {σ : Assignment} {e : RValue} {m n : SolverSort × Nat}

private theorem meaning_means {sortCheck : Term → Term → Fallible (Term × Term)} {combine : Nat → Nat → Nat}
    (hcheck : AndCheck σ sortCheck combine) (h : meaning combine σ e = some m) : ∃ t,Term.Means σ t m.1 m.2 := by
  have hyields := evaluateRValueWith_yields hcheck e
  rw [h] at hyields
  obtain ⟨t,-,ht⟩ := hyields
  exact ⟨t,ht⟩

theorem meaning_min_bounds (h : meaning min σ e = some m) : 0 < m.1.width ∧ m.2 < 2 ^ m.1.width := by
  obtain ⟨t,ht⟩ := meaning_means (andCheck_extract σ) h
  exact ⟨ht.pos,ht.fits⟩

theorem meaning_narrower (h : meaning max σ e = some n) : ∃ m,meaning min σ e = some m ∧ Narrower m.1 n.1 := by
  induction e generalizing n with
  | value v =>
    cases v with
    | field name width | hexstr value width => exact ⟨n,h,.refl _⟩
  | binary operation left right ihl ihr =>
    obtain ⟨l',hl',hbind⟩ := Option.bind_eq_some_iff.mp h
    obtain ⟨r',hr',hmap⟩ := Option.bind_eq_some_iff.mp hbind
    obtain ⟨u',hu',rfl⟩ := Option.map_eq_some_iff.mp hmap
    obtain ⟨l,hl,hnl⟩ := ihl hl'
    obtain ⟨r,hr,hnr⟩ := ihr hr'
    obtain ⟨u,hu,hnu⟩ := operandSort_narrower hnl hnr (meaning_min_bounds hl).1 (meaning_min_bounds hr).1 hu'
    refine ⟨((operationOp operation).resultSort u,(operationOp operation).apply u.width l.2 r.2),?_,
      resultSort_narrower (operationOp operation) hnu⟩
    rw [meaning,hl,hr,Option.bind_some,Option.bind_some,binaryMeaning,hu]
    rfl
  | unary operation operand ih =>
    obtain ⟨o',ho',hmap⟩ := Option.bind_eq_some_iff.mp h
    obtain ⟨u',hu',rfl⟩ := Option.map_eq_some_iff.mp hmap
    obtain ⟨o,ho,hno⟩ := ih ho'
    obtain ⟨u,hu,hnu⟩ := unarySort_narrower hno hu'
    exact ⟨_,by rw [meaning,ho,Option.bind_some,hu]; rfl,hnu⟩
  | ternary condition left right ihc ihl ihr =>
    obtain ⟨c',hc',hbind⟩ := Option.bind_eq_some_iff.mp h
    obtain ⟨l',hl',hbind'⟩ := Option.bind_eq_some_iff.mp hbind
    obtain ⟨r',hr',hmap⟩ := Option.bind_eq_some_iff.mp hbind'
    obtain ⟨u',hu',rfl⟩ := Option.map_eq_some_iff.mp hmap
    obtain ⟨c,hc,hnc⟩ := ihc hc'
    obtain ⟨l,hl,hnl⟩ := ihl hl'
    obtain ⟨r,hr,hnr⟩ := ihr hr'
    unfold ternarySort at hu'
    split at hu'
    next hbool =>
      have hcbool : c.1 = .bool := by
        rw [hbool] at hnc
        cases hsort : c.1 with
        | bool => rfl
        | bitVector w => rw [hsort] at hnc; exact hnc.elim
      obtain ⟨u,hu,hnu⟩ := padSort_narrower hnl hnr (meaning_min_bounds hl).1 (meaning_min_bounds hr).1 hu'
      refine ⟨(u,if c.2 = 0 then r.2 else l.2),?_,hnu⟩
      rw [meaning,hc,hl,hr,Option.bind_some,Option.bind_some,Option.bind_some,ternarySort,if_pos hcbool,hu]
      rfl
    next => cases hu'
  | builtin function argument ih =>
    obtain ⟨o',ho',hmap⟩ := Option.bind_eq_some_iff.mp h
    obtain ⟨u',hu',rfl⟩ := Option.map_eq_some_iff.mp hmap
    obtain ⟨o,ho,hno⟩ := ih ho'
    obtain ⟨u,hu,hnu⟩ := builtinSort_narrower hno hu'
    exact ⟨_,by rw [meaning,ho,Option.bind_some,hu]; rfl,hnu⟩

/-- The numbers that the two readings of an expression stand for; nothing where one reports an error. -/
def SameNumber (σ : Assignment) (e : RValue) : Prop :=
  (evaluateRValue e).toOption.map (Term.eval σ) = (evaluateRValueWith bitAndPadding evaluateBitVector e).toOption.map (Term.eval σ)

instance (σ : Assignment) (e : RValue) : Decidable (SameNumber σ e) := inferInstanceAs (Decidable (_ = _))

/-- The padded reading exists, and its number fits the width that truncation leaves. -/
def FitsTruncated (σ : Assignment) (e : RValue) : Prop :=
  ∀ s,sortOf min e = some s → ∃ t,evaluateRValueWith bitAndPadding evaluateBitVector e = .ok t ∧ t.eval σ < 2 ^ s.width

theorem Yields.eval {r : Fallible Term} {m : Meaning} (h : Yields σ r m) : r.toOption.map (Term.eval σ) = m.map Prod.snd := by
  cases m with
  | none =>
    obtain ⟨e,rfl⟩ := h
    rfl
  | some m =>
    obtain ⟨t,rfl,ht⟩ := h
    exact congrArg some ht.eval

theorem sameNumber_iff : SameNumber σ e ↔ (meaning min σ e).map Prod.snd = (meaning max σ e).map Prod.snd := by
  have hmin := (evaluateRValueWith_yields (andCheck_extract σ) e).eval
  have hmax := (evaluateRValueWith_yields (andCheck_pad σ) e).eval
  rw [← hmin,← hmax]
  exact Iff.rfl

theorem fitsTruncated_iff : FitsTruncated σ e ↔
    ∀ m,meaning min σ e = some m → ∃ n,meaning max σ e = some n ∧ n.2 < 2 ^ m.1.width := by
  have hyields := evaluateRValueWith_yields (andCheck_pad σ) e
  have hpadded : ∀ k,(∃ t,evaluateRValueWith bitAndPadding evaluateBitVector e = .ok t ∧ t.eval σ < k) ↔
      ∃ n,meaning max σ e = some n ∧ n.2 < k := by
    intro k
    cases hn : meaning max σ e with
    | none =>
      rw [hn] at hyields
      obtain ⟨err,herr⟩ := hyields
      constructor
      · rintro ⟨t,ht,-⟩
        cases herr.symm.trans ht
      · rintro ⟨n,hnone,-⟩
        cases hnone
    | some n =>
      rw [hn] at hyields
      obtain ⟨t,ht,hmeans⟩ := hyields
      constructor
      · rintro ⟨t',ht',hlt⟩
        cases ht.symm.trans ht'
        exact ⟨n,rfl,hmeans.eval ▸ hlt⟩
      · rintro ⟨n',hn',hlt⟩
        cases hn'
        exact ⟨t,ht,hmeans.eval.symm ▸ hlt⟩
  unfold FitsTruncated
  rw [sortOf_eq min σ]
  constructor
  · intro h m hm
    exact (hpadded _).mp (h m.1 (by rw [hm]; rfl))
  · intro h s hs
    obtain ⟨m,hm,rfl⟩ := Option.map_eq_some_iff.mp hs
    exact (hpadded _).mpr (h m hm)

private theorem binary_same {operation : BinaryOperation} {l r l' r' : SolverSort × Nat}
    (hl : l.2 < 2 ^ l.1.width) (hr : r.2 < 2 ^ r.1.width) (hsame : l.2 = l'.2 ∧ r.2 = r'.2)
    (hm : binaryMeaning min operation l r = some m) (hn : binaryMeaning max operation l' r' = some n)
    (hnarrow : ∀ u u',operandSort min operation l.1 r.1 = some u → operandSort max operation l'.1 r'.1 = some u' → Narrower u u')
    (hfits : n.2 < 2 ^ m.1.width) : m.2 = n.2 := by
  obtain ⟨u,hu,rfl⟩ := Option.map_eq_some_iff.mp hm
  obtain ⟨u',hu',rfl⟩ := Option.map_eq_some_iff.mp hn
  have hnu := hnarrow u u' hu hu'
  obtain ⟨hl',hr'⟩ := hsame
  rw [← hl',← hr'] at hfits ⊢
  -- the operands fit the width at which the padded operators work
  have hbounds : ∀ op,acceptedSort op (padSort l.1 r.1) = some u → l.2 < 2 ^ u.width ∧ r.2 < 2 ^ u.width := by
    intro op hpad
    obtain ⟨hpad,-⟩ := Option.filter_eq_some_iff.mp hpad
    cases hls : l.1 with
    | bool =>
      rw [hls] at hl
      cases hrs : r.1 with
      | bool =>
        rw [hls,hrs] at hpad
        rw [hrs] at hr
        cases hpad
        exact ⟨hl,hr⟩
      | bitVector w =>
        rw [hls,hrs,padSort] at hpad
        split at hpad
        next hw =>
          rw [hrs,hw] at hr
          cases hpad
          exact ⟨hl,hr⟩
        next => cases hpad
    | bitVector v =>
      rw [hls] at hl
      cases hrs : r.1 with
      | bool =>
        rw [hls,hrs,padSort] at hpad
        rw [hrs] at hr
        split at hpad
        next hv =>
          rw [hv] at hl
          cases hpad
          exact ⟨hl,hr⟩
        next => cases hpad
      | bitVector w =>
        rw [hls,hrs] at hpad
        rw [hrs] at hr
        cases hpad
        exact ⟨Nat.lt_of_lt_of_le hl (Nat.pow_le_pow_right (by decide) (Nat.le_max_left v w)),
          Nat.lt_of_lt_of_le hr (Nat.pow_le_pow_right (by decide) (Nat.le_max_right v w))⟩
  cases operation with
  | and => rfl
  | or => rfl
  | bitAnd => rfl
  | plus => exact apply_eq_of_fits .add hnu (hbounds _ hu).1 (hbounds _ hu).2 hfits
  | minus => exact apply_eq_of_fits .sub hnu (hbounds _ hu).1 (hbounds _ hu).2 hfits
  | times => exact apply_eq_of_fits .mul hnu (hbounds _ hu).1 (hbounds _ hu).2 hfits
  | leftShift => exact apply_eq_of_fits .shl hnu (hbounds _ hu).1 (hbounds _ hu).2 hfits
  | rightShift => exact apply_eq_of_fits .lshr hnu (hbounds _ hu).1 (hbounds _ hu).2 hfits
  | equals => rfl
  | notEquals => rfl
  | greater => rfl
  | greaterEquals => rfl
  | less => rfl
  | lessEquals => rfl
  | bitOr => rfl
  | bitXor => rfl

theorem narrower_of_eq {a b : SolverSort × Nat} (ha : meaning min σ e = some a) (hb : meaning max σ e = some b) :
    Narrower a.1 b.1 := by
  obtain ⟨a',ha',h⟩ := meaning_narrower hb
  rw [ha] at ha'
  cases ha'
  exact h

private theorem same_of_fits (h : ∀ p ∈ e.parts,FitsTruncated σ p) :
    (meaning min σ e).map Prod.snd = (meaning max σ e).map Prod.snd := by
  have hself := fitsTruncated_iff.mp (h e e.mem_parts_self)
  cases hm : meaning min σ e with
  | none =>
    cases hn : meaning max σ e with
    | none => rfl
    | some n =>
      obtain ⟨m,hm',-⟩ := meaning_narrower hn
      rw [hm] at hm'
      cases hm'
  | some m =>
    obtain ⟨n,hn,hfits⟩ := hself m hm
    rw [hn]
    refine congrArg some ?_
    induction e generalizing m n with
    | value v =>
      cases v with
      | field name width | hexstr value width => exact congrArg Prod.snd (Option.some.inj (hm.symm.trans hn))
    | binary operation left right ihl ihr =>
      have hpl : ∀ p ∈ left.parts,FitsTruncated σ p := fun p hp =>
        h p (List.mem_cons_of_mem _ (List.mem_append_left _ hp))
      have hpr : ∀ p ∈ right.parts,FitsTruncated σ p := fun p hp =>
        h p (List.mem_cons_of_mem _ (List.mem_append_right _ hp))
      obtain ⟨l,hl,hbind⟩ := Option.bind_eq_some_iff.mp hm
      obtain ⟨r,hr,hmeaning⟩ := Option.bind_eq_some_iff.mp hbind
      obtain ⟨l',hl',hbind'⟩ := Option.bind_eq_some_iff.mp hn
      obtain ⟨r',hr',hmeaning'⟩ := Option.bind_eq_some_iff.mp hbind'
      have hfl := fitsTruncated_iff.mp (hpl left left.mem_parts_self)
      have hfr := fitsTruncated_iff.mp (hpr right right.mem_parts_self)
      obtain ⟨l₂,hl₂,hltl⟩ := hfl l hl
      obtain ⟨r₂,hr₂,hltr⟩ := hfr r hr
      cases hl'.symm.trans hl₂
      cases hr'.symm.trans hr₂
      have hsame := And.intro (ihl hpl hfl l hl l' hl' hltl) (ihr hpr hfr r hr r' hr' hltr)
      refine binary_same (meaning_min_bounds hl).2 (meaning_min_bounds hr).2 hsame hmeaning hmeaning' ?_ hfits
      intro u u' hu hu'
      obtain ⟨v,hv,hnarrow⟩ := operandSort_narrower (narrower_of_eq hl hl') (narrower_of_eq hr hr')
        (meaning_min_bounds hl).1 (meaning_min_bounds hr).1 hu'
      cases hu.symm.trans hv
      exact hnarrow
    | unary operation operand ih =>
      have hpo : ∀ p ∈ operand.parts,FitsTruncated σ p := fun p hp => h p (List.mem_cons_of_mem _ hp)
      obtain ⟨o,ho,hmap⟩ := Option.bind_eq_some_iff.mp hm
      obtain ⟨u,hu,rfl⟩ := Option.map_eq_some_iff.mp hmap
      obtain ⟨o',ho',hmap'⟩ := Option.bind_eq_some_iff.mp hn
      obtain ⟨u',hu',rfl⟩ := Option.map_eq_some_iff.mp hmap'
      have hfo := fitsTruncated_iff.mp (hpo operand operand.mem_parts_self)
      obtain ⟨o₂,ho₂,hlt⟩ := hfo o ho
      cases ho'.symm.trans ho₂
      have hsame := ih hpo hfo o ho o' ho' hlt
      rw [← hsame] at hfits ⊢
      exact unaryValue_eq_of_fits operation (narrower_of_eq ho ho') hu (meaning_min_bounds ho).2 hfits
    | ternary condition left right ihc ihl ihr =>
      have hpc : ∀ p ∈ condition.parts,FitsTruncated σ p := fun p hp =>
        h p (List.mem_cons_of_mem _ (List.mem_append_left _ (List.mem_append_left _ hp)))
      have hpl : ∀ p ∈ left.parts,FitsTruncated σ p := fun p hp =>
        h p (List.mem_cons_of_mem _ (List.mem_append_left _ (List.mem_append_right _ hp)))
      have hpr : ∀ p ∈ right.parts,FitsTruncated σ p := fun p hp =>
        h p (List.mem_cons_of_mem _ (List.mem_append_right _ hp))
      obtain ⟨c,hc,hbind⟩ := Option.bind_eq_some_iff.mp hm
      obtain ⟨l,hl,hbind₂⟩ := Option.bind_eq_some_iff.mp hbind
      obtain ⟨r,hr,hmap⟩ := Option.bind_eq_some_iff.mp hbind₂
      obtain ⟨u,hu,rfl⟩ := Option.map_eq_some_iff.mp hmap
      obtain ⟨c',hc',hbind'⟩ := Option.bind_eq_some_iff.mp hn
      obtain ⟨l',hl',hbind₂'⟩ := Option.bind_eq_some_iff.mp hbind'
      obtain ⟨r',hr',hmap'⟩ := Option.bind_eq_some_iff.mp hbind₂'
      obtain ⟨u',hu',rfl⟩ := Option.map_eq_some_iff.mp hmap'
      have hfc := fitsTruncated_iff.mp (hpc condition condition.mem_parts_self)
      have hfl := fitsTruncated_iff.mp (hpl left left.mem_parts_self)
      have hfr := fitsTruncated_iff.mp (hpr right right.mem_parts_self)
      obtain ⟨c₂,hc₂,hltc⟩ := hfc c hc
      obtain ⟨l₂,hl₂,hltl⟩ := hfl l hl
      obtain ⟨r₂,hr₂,hltr⟩ := hfr r hr
      cases hc'.symm.trans hc₂
      cases hl'.symm.trans hl₂
      cases hr'.symm.trans hr₂
      change (if c.2 = 0 then r.2 else l.2) = if c'.2 = 0 then r'.2 else l'.2
      rw [ihc hpc hfc c hc c' hc' hltc,ihl hpl hfl l hl l' hl' hltl,ihr hpr hfr r hr r' hr' hltr]
    | builtin function argument ih =>
      have hpo : ∀ p ∈ argument.parts,FitsTruncated σ p := fun p hp => h p (List.mem_cons_of_mem _ hp)
      obtain ⟨o,ho,hmap⟩ := Option.bind_eq_some_iff.mp hm
      obtain ⟨u,hu,rfl⟩ := Option.map_eq_some_iff.mp hmap
      obtain ⟨o',ho',hmap'⟩ := Option.bind_eq_some_iff.mp hn
      obtain ⟨u',hu',rfl⟩ := Option.map_eq_some_iff.mp hmap'
      have hfo := fitsTruncated_iff.mp (hpo argument argument.mem_parts_self)
      obtain ⟨o₂,ho₂,hlt⟩ := hfo o ho
      cases ho'.symm.trans ho₂
      change builtinValue function o.1 o.2 = builtinValue function o'.1 o'.2
      rw [ih hpo hfo o ho o' ho' hlt]
      exact builtinValue_eq function (narrower_of_eq ho ho')

end Readings

/-- Truncation changes the number of no part of an expression exactly when the padded number of
every part fits the width that truncation leaves it. -/
theorem truncating_bitAnd_harmless_iff (σ : Assignment) (e : RValue) :
    (∀ p ∈ e.parts,SameNumber σ p) ↔ ∀ p ∈ e.parts,FitsTruncated σ p := by
  constructor
  · intro h p hp
    rw [fitsTruncated_iff]
    intro m hm
    have hsame := sameNumber_iff.mp (h p hp)
    rw [hm] at hsame
    obtain ⟨n,hn,hnm⟩ := Option.map_eq_some_iff.mp hsame.symm
    exact ⟨n,hn,hnm ▸ (meaning_min_bounds hm).2⟩
  · intro h p hp
    exact sameNumber_iff.mpr (same_of_fits fun q hq => h q (RValueOf.parts_subset hp hq))

/-- The negation of a truncated bitwise and is short of the leading ones. -/
theorem truncating_bitAnd_negated : ¬ ∀ (σ : Assignment) (e : RValue),SameNumber σ e := by
  intro h
  have hsame := h (fun _ _ => 0) (.unary .bitNegation (.binary .bitAnd (.value (.field "x" 10)) (.value (.field "y" 5))))
  exact absurd hsame (by decide)

end SonicPins.P4Symbolic.Operators
