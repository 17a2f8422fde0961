import Mathlib.Data.Nat.Count
import SonicPins.Lib.DoubleIndex

/-! Values numbered one at a time: two maps that undo each other, and new numbers taken in
increasing order among those that are free. -/
namespace SonicPins.Lib

section Mirrored
variable {α β : Type} [DecidableEq α] [DecidableEq β]

/-- Two maps that undo each other. -/
def Mirrored (m : List (α × β)) (m' : List (β × α)) : Prop := ∀ a b,m.lookup a = some b ↔ m'.lookup b = some a

variable {m : List (α × β)} {m' : List (β × α)}

omit [DecidableEq β] in
theorem lookup_cons_eq {a x : α} {b : β} : ((a,b) :: m).lookup x = if x = a then some b else m.lookup x := by
  by_cases hx : x = a
  · rw [if_pos hx,hx,List.lookup_cons_self]
  · rw [if_neg hx,List.lookup_cons,beq_false_of_ne hx]

theorem Mirrored.nil : Mirrored ([] : List (α × β)) [] := fun _ _ => by simp

theorem Mirrored.symm (h : Mirrored m m') : Mirrored m' m := fun b a => (h a b).symm

theorem Mirrored.injective (h : Mirrored m m') {a a' : α} {b : β} (ha : m.lookup a = some b) (ha' : m.lookup a' = some b) :
    a = a' := by
  have hb := (h a b).mp ha
  rw [(h a' b).mp ha'] at hb
  exact (Option.some.inj hb).symm

theorem Mirrored.cons (h : Mirrored m m') {a : α} {b : β}
    (hab : (∀ b',m.lookup a = some b' → b' = b) ∧ ∀ a',m'.lookup b = some a' → a' = a) :
    Mirrored ((a,b) :: m) ((b,a) :: m') := by
  intro x y
  rw [lookup_cons_eq,lookup_cons_eq]
  by_cases hx : x = a <;> by_cases hy : y = b
  · simp [hx,hy]
  · have hne : m'.lookup y ≠ some a := fun hm => hy (hab.1 y ((h a y).mpr hm))
    simp [hx,hy,hne,Ne.symm hy]
  · have hne : m.lookup x ≠ some b := fun hm => hx (hab.2 x ((h x b).mp hm))
    simp [hx,hy,hne,Ne.symm hx]
  · simp [hx,hy,h x y]

end Mirrored

variable {free : Nat → Prop} [DecidablePred free]

theorem count_le_of_forall_lt {c n : Nat} (h : ∀ m < n,free m → Nat.count free m < c) : Nat.count free n ≤ c := by
  induction n with
  | zero => simp
  | succ n ih =>
    have hn := ih fun m hm => h m (by omega)
    rw [Nat.count_succ]
    split
    next hfree => exact h n (by omega) hfree
    next => exact hn

theorem count_lt_succ_iff {c n : Nat} (hn : free n) (h : ∀ m < n,free m → Nat.count free m < c) (hnot : ¬ Nat.count free n < c)
    {m : Nat} (hm : free m) : Nat.count free m < c + 1 ↔ m = n ∨ Nat.count free m < c := by
  have hcount : Nat.count free n = c := Nat.le_antisymm (count_le_of_forall_lt h) (Nat.not_lt.mp hnot)
  constructor
  · intro hlt
    rcases Nat.lt_succ_iff_lt_or_eq.mp hlt with hlt | heq
    · exact .inr hlt
    · exact .inl (Nat.count_injective hm hn (heq.trans hcount.symm))
  · rintro (rfl | hlt)
    · omega
    · omega

end SonicPins.Lib
