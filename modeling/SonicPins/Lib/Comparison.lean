import Mathlib.Data.List.Lex
import Mathlib.Data.Prod.Lex
import Mathlib.Order.Defs.Unbundled

/-! Comparison functions of keys: an `eq` and an `lt` that are read off a rank in
a linear order are a strict total order with its equality. -/
namespace SonicPins.Lib

variable {α β γ : Type*}

/-- `lt` is a strict total order, and `eq` relates the keys of which neither comes first. -/
structure Comparison (eq lt : α → α → Bool) : Prop where
  strictTotal : IsStrictTotalOrder α fun a b => lt a b = true
  consistent : ∀ a b,eq a b = true ↔ lt a b = false ∧ lt b a = false

theorem Comparison.of_rank [LinearOrder β] {eq lt : α → α → Bool} (rank : α → β) (hrank : Function.Injective rank)
    (heq : ∀ a b,eq a b = true ↔ a = b) (hlt : ∀ a b,lt a b = true ↔ rank a < rank b) : Comparison eq lt := by
  have hfalse : ∀ a b,lt a b = false ↔ rank b ≤ rank a := fun a b => by
    rw [← Bool.not_eq_true,hlt,not_lt]
  refine ⟨{ trichotomous := fun a b hab hba => ?_,irrefl := fun a ha => ?_,trans := fun a b c hab hbc => ?_ },
    fun a b => ?_⟩
  · rw [hlt,not_lt] at hab hba
    exact hrank (le_antisymm hba hab)
  · exact lt_irrefl _ ((hlt a a).mp ha)
  · rw [hlt] at hab hbc ⊢
    exact hab.trans hbc
  · rw [heq,hfalse,hfalse,← hrank.eq_iff,and_comm]
    exact le_antisymm_iff

/-- Compare two lists at the first position where they differ. -/
def firstDifference [DecidableEq α] (lt : α → α → Bool) : List α → List α → Bool
  | a :: as,b :: bs => if a ≠ b then lt a b else firstDifference lt as bs
  | _,_ => false

variable [LinearOrder β] {rank : α → β}

theorem ite_lt_iff [DecidableEq α] [LT γ] (hrank : Function.Injective rank) {x y : α} {less rest : Bool} {u v : γ}
    (hless : less = true ↔ rank x < rank y) (hrest : x = y → (rest = true ↔ u < v)) :
    (if x ≠ y then less else rest) = true ↔ toLex (rank x,u) < toLex (rank y,v) := by
  rw [Prod.Lex.toLex_lt_toLex]
  by_cases hxy : x = y
  · subst hxy
    simpa using hrest
  · have hne : rank x ≠ rank y := fun h => hxy (hrank h)
    simpa [hxy,hne] using hless

theorem map_lt_map_iff [LT α] (hrank : Function.Injective rank) (hlt : ∀ a b,a < b ↔ rank a < rank b)
    (as bs : List α) : as < bs ↔ as.map rank < bs.map rank := by
  induction as generalizing bs with
  | nil => cases bs <;> simp
  | cons a as ih =>
    cases bs with
    | nil => simp
    | cons b bs => rw [List.map_cons,List.map_cons,List.cons_lt_cons_iff,List.cons_lt_cons_iff,hlt,ih,hrank.eq_iff]

theorem firstDifference_iff [DecidableEq α] {lt : α → α → Bool} (hrank : Function.Injective rank)
    (hlt : ∀ a b,lt a b = true ↔ rank a < rank b) :
    ∀ as bs : List α,as.length = bs.length → (firstDifference lt as bs = true ↔ as.map rank < bs.map rank)
  | [],[],_ => by simp [firstDifference]
  | a :: as,b :: bs,hlen => by
    have ih := firstDifference_iff hrank hlt as bs (by simpa using hlen)
    rw [firstDifference,List.map_cons,List.map_cons,List.cons_lt_cons_iff]
    by_cases hab : a = b
    · subst hab
      simp [ih]
    · have hne : rank a ≠ rank b := fun h => hab (hrank h)
      simp [hab,hne,hlt]

end SonicPins.Lib
