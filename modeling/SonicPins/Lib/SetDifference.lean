import Mathlib.Order.Basic
import Mathlib.Data.List.Sort

/-! What two strictly sorted lists have in common and what only one of them has, found by
merging them. -/
namespace SonicPins.Lib

structure SetDifference (α : Type) where
  deleted : List α := []
  added : List α := []
  intersection : List α := []
  deriving DecidableEq

section Merge
variable {α : Type} [DecidableEq α] (lt : α → α → Bool)

/-- Merges `a :: as` with a list, where `rest` merges `as`. -/
def mergeHead (a : α) (as : List α) (rest : List α → SetDifference α) : List α → SetDifference α
  | [] => { deleted := a :: as }
  | b :: bs =>
    if a = b then { rest bs with intersection := a :: (rest bs).intersection }
    else if lt a b then { rest (b :: bs) with deleted := a :: (rest (b :: bs)).deleted }
    else { mergeHead a as rest bs with added := b :: (mergeHead a as rest bs).added }

def setDifference : List α → List α → SetDifference α
  | [] => fun new => { added := new }
  | a :: as => mergeHead lt a as (setDifference as)

end Merge

variable {α : Type}

/-- The lists of a difference, in the order of the list they come from. -/
structure Merged (old new : List α) (d : SetDifference α) : Prop where
  deleted : ∀ x,x ∈ d.deleted ↔ x ∈ old ∧ x ∉ new
  added : ∀ x,x ∈ d.added ↔ x ∈ new ∧ x ∉ old
  intersection : ∀ x,x ∈ d.intersection ↔ x ∈ old ∧ x ∈ new
  deletedSublist : d.deleted.Sublist old
  addedSublist : d.added.Sublist new
  intersectionSublist : d.intersection.Sublist old

variable {κ : Type} [LinearOrder κ] [DecidableEq α] {key : α → κ}

theorem merged_mergeHead {a : α} {as : List α} (ha : ∀ x ∈ as,key a < key x) {rest : List α → SetDifference α}
    (hrest : ∀ new : List α,new.Pairwise (fun x y => key x < key y) → Merged as new (rest new)) {new : List α}
    (hnew : new.Pairwise fun x y => key x < key y) :
    Merged (a :: as) new (mergeHead (fun x y => decide (key x < key y)) a as rest new) := by
  induction new with
  | nil => exact ⟨by simp [mergeHead],by simp [mergeHead],by simp [mergeHead],List.Sublist.refl _,List.Sublist.refl _,List.nil_sublist _⟩
  | cons b bs ih =>
    obtain ⟨hb,hbs⟩ := List.pairwise_cons.mp hnew
    unfold mergeHead
    split_ifs with heq hlt
    · subst heq
      obtain ⟨hdeleted,hadded,hboth,hsub,hsub',hsub''⟩ := hrest bs hbs
      have hout : a ∉ as := fun hm => lt_irrefl _ (ha a hm)
      have hout' : a ∉ bs := fun hm => lt_irrefl _ (hb a hm)
      refine ⟨fun x => ?_,fun x => ?_,fun x => ?_,hsub.cons _,hsub'.cons _,hsub''.cons_cons _⟩
      · rw [hdeleted]
        grind
      · rw [hadded]
        grind
      · simp only [List.mem_cons,hboth]
        grind
    · obtain ⟨hdeleted,hadded,hboth,hsub,hsub',hsub''⟩ := hrest (b :: bs) hnew
      have hab : key a < key b := of_decide_eq_true hlt
      have hout : a ∉ bs := fun hm => lt_irrefl _ (hab.trans (hb a hm))
      refine ⟨fun x => ?_,fun x => ?_,fun x => ?_,hsub.cons_cons _,hsub',hsub''.cons _⟩
      · simp only [List.mem_cons,hdeleted]
        grind
      · rw [hadded]
        grind
      · rw [hboth]
        grind
    · obtain ⟨hdeleted,hadded,hboth,hsub,hsub',hsub''⟩ := ih hbs
      have hba : key b ≤ key a := not_lt.mp (by simpa using hlt)
      have hout : b ∉ as := fun hm => lt_irrefl _ (hba.trans_lt (ha b hm))
      refine ⟨fun x => ?_,fun x => ?_,fun x => ?_,hsub,hsub'.cons_cons _,hsub''⟩
      · rw [hdeleted]
        grind
      · simp only [List.mem_cons,hadded]
        grind
      · rw [hboth]
        grind

theorem merged_setDifference_key {old new : List α} (hold : old.Pairwise fun x y => key x < key y)
    (hnew : new.Pairwise fun x y => key x < key y) :
    Merged old new (setDifference (fun x y => decide (key x < key y)) old new) := by
  induction old generalizing new with
  | nil => exact ⟨by simp [setDifference],by simp [setDifference],by simp [setDifference],List.Sublist.refl _,
    List.Sublist.refl _,List.Sublist.refl _⟩
  | cons a as ih =>
    obtain ⟨ha,has⟩ := List.pairwise_cons.mp hold
    exact merged_mergeHead ha (fun new hnew => ih has hnew) hnew

theorem merged_setDifference {old new : List κ} (hold : old.Pairwise (· < ·)) (hnew : new.Pairwise (· < ·)) :
    Merged old new (setDifference (fun x y => decide (x < y)) old new) := @merged_setDifference_key _ _ _ _ id _ _ hold hnew

end SonicPins.Lib
