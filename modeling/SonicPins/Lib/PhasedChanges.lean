import Mathlib.Data.Set.Insert
import Mathlib.Data.List.Perm.Subperm

/-! Sets of keys that are changed phase by phase. Of a phase any part may have been done, and the phases
after one that fails are not begun. -/
namespace SonicPins.Lib

inductive KeyChange (κ : Type) where
  | put (k : κ)
  | remove (k : κ)

namespace KeyChange
variable {κ : Type} {changes part : List (KeyChange κ)} {present : Set κ} {k : κ}

def on (present : Set κ) : KeyChange κ → Set κ
  | put k => insert k present
  | remove k => present \ {k}

def Keeps (changes : List (KeyChange κ)) (k : κ) : Prop := remove k ∉ changes

theorem Keeps.of_subset (h : Keeps changes k) (hsub : part ⊆ changes) : Keeps part k := fun hmem => h (hsub hmem)

theorem mem_on {change : KeyChange κ} (h : change ≠ remove k) (hk : k ∈ present) : k ∈ change.on present := by
  cases change with
  | put k' => exact .inr hk
  | remove k' =>
    refine ⟨hk,fun heq => h ?_⟩
    rw [Set.mem_singleton_iff.mp heq]

theorem Keeps.mem_foldl (h : Keeps changes k) (hk : k ∈ present) : k ∈ changes.foldl on present := by
  induction changes generalizing present with
  | nil => exact hk
  | cons change changes ih =>
    have hchange : change ≠ remove k := fun heq => h (heq ▸ List.mem_cons_self)
    exact ih (h.of_subset (List.subset_cons_self _ _)) (mem_on hchange hk)

theorem Keeps.mem_foldl_of_put (h : Keeps changes k) (hput : put k ∈ changes) : k ∈ changes.foldl on present := by
  induction changes generalizing present with
  | nil => cases hput
  | cons change changes ih =>
    have hrest := h.of_subset (List.subset_cons_self _ _)
    rcases List.mem_cons.mp hput with rfl | hput
    · exact hrest.mem_foldl (Set.mem_insert k present)
    · exact ih hrest hput

end KeyChange

open KeyChange
variable {κ : Type}

/-- The sets that are seen while phases are gone through; none stands for a phase that cannot begin. -/
inductive Seen : List (Option (List (KeyChange κ))) → Set κ → Set κ → Prop
  | start (phases : List (Option (List (KeyChange κ)))) (present : Set κ) : Seen phases present present
  | within {phase part : List (KeyChange κ)} (phases : List (Option (List (KeyChange κ)))) (present : Set κ) :
      part.Subperm phase → Seen (some phase :: phases) present (part.foldl on present)
  | later {phase : List (KeyChange κ)} {phases : List (Option (List (KeyChange κ)))} {present seen : Set κ} :
      Seen phases (phase.foldl on present) seen → Seen (some phase :: phases) present seen

namespace Seen
variable {phases before after : List (Option (List (KeyChange κ)))} {present seen : Set κ} {a : κ}

theorem kept (h : Seen phases present seen) (hkeeps : ∀ p ∈ phases,∀ phase ∈ p,Keeps phase a) (ha : a ∈ present) :
    a ∈ seen := by
  induction h with
  | start => exact ha
  | within phases present hpart =>
    have hphase := hkeeps _ List.mem_cons_self _ rfl
    exact (hphase.of_subset hpart.subset).mem_foldl ha
  | later _ ih =>
    have hphase := hkeeps _ List.mem_cons_self _ rfl
    exact ih (fun p hp => hkeeps p (List.mem_cons_of_mem _ hp)) (hphase.mem_foldl ha)

theorem handover {made : Option (List (KeyChange κ))} {P : Set κ → Prop} (h : Seen (before ++ made :: after) present seen)
    (ha : a ∈ present) (hbefore : ∀ p ∈ before,∀ phase ∈ p,Keeps phase a)
    (hmade : ∀ phase ∈ made,Keeps phase a ∧ ∃ b,put b ∈ phase ∧ Keeps phase b ∧
      ∀ present,b ∈ present → Seen after present seen → P seen) : a ∈ seen ∨ P seen := by
  induction before generalizing present with
  | nil =>
    cases h with
    | start => exact .inl ha
    | within _ _ hpart => exact .inl (((hmade _ rfl).1.of_subset hpart.subset).mem_foldl ha)
    | later h =>
      obtain ⟨-,b,hput,hkeeps,hafter⟩ := hmade _ rfl
      exact .inr (hafter _ (hkeeps.mem_foldl_of_put hput) h)
  | cons p before ih =>
    have hrest : ∀ p ∈ before,∀ phase ∈ p,Keeps phase a := fun p hp => hbefore p (List.mem_cons_of_mem _ hp)
    cases h with
    | start => exact .inl ha
    | within _ _ hpart => exact .inl (((hbefore _ List.mem_cons_self _ rfl).of_subset hpart.subset).mem_foldl ha)
    | later h => exact ih h ((hbefore _ List.mem_cons_self _ rfl).mem_foldl ha) hrest

end Seen
end SonicPins.Lib
