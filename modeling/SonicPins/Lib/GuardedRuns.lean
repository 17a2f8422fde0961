import Mathlib.Logic.Basic

/-! Symbolic states that stand for a concrete state under every assignment, and symbolic steps under a guard: where the guard
holds, the concrete states are related; elsewhere what is to be kept is kept. -/
namespace SonicPins.Lib
variable {S A C D : Type} {den : A → S → C} {keep : C → D} {guard p q : A → Prop} {R R' : A → C → C → Prop} {s s' s'' : S}

structure Follows (den : A → S → C) (keep : C → D) (guard : A → Prop) (R : A → C → C → Prop) (s s' : S) : Prop where
  runs : ∀ a,guard a → R a (den a s) (den a s')
  idle : ∀ a,¬ guard a → keep (den a s') = keep (den a s)

/-- Related states from the first to the last, an item for each step. -/
def Through {α C : Type} (R : α → C → C → Prop) : List α → C → C → Prop
  | [],c,c' => c' = c
  | x :: l,c,c' => ∃ d,R x c d ∧ Through R l d c'

namespace Follows

theorem refl (h : ∀ a,guard a → R a (den a s) (den a s)) : Follows den keep guard R s s := ⟨h,fun _ _ => rfl⟩

theorem imp (h : Follows den keep guard R s s') (himp : ∀ a,guard a → R a (den a s) (den a s') → R' a (den a s) (den a s')) :
    Follows den keep guard R' s s' := ⟨fun a ha => himp a ha (h.runs a ha),h.idle⟩

theorem trans (h : Follows den keep guard R s s') (h' : Follows den keep guard R' s' s'') :
    Follows den keep guard (fun a c c'' => ∃ c',R a c c' ∧ R' a c' c'') s s'' where
  runs a ha := ⟨den a s',h.runs a ha,h'.runs a ha⟩
  idle a ha := (h'.idle a ha).trans (h.idle a ha)

theorem foldlM {α ε : Type} {step : S → α → Except ε S} {R : α → A → C → C → Prop} {Inv : S → Prop} {l : List α}
    (hstep : ∀ x ∈ l,∀ s s',Inv s → step s x = .ok s' → Inv s' ∧ Follows den keep guard (R x) s s') (hs : Inv s)
    (h : l.foldlM step s = .ok s') : Inv s' ∧ Follows den keep guard (fun a => Through (fun x => R x a) l) s s' := by
  induction l generalizing s with
  | nil =>
    cases h
    exact ⟨hs,refl fun _ _ => rfl⟩
  | cons x l ih =>
    rw [List.foldlM_cons] at h
    cases hx : step s x with
    | error e =>
      rw [hx] at h
      cases h
    | ok t =>
      rw [hx] at h
      obtain ⟨ht,hfirst⟩ := hstep x List.mem_cons_self s t hs hx
      obtain ⟨hs',hrest⟩ := ih (fun y hy => hstep y (List.mem_cons_of_mem _ hy)) ht h
      exact ⟨hs',hfirst.trans hrest⟩

theorem exclusive (h : Follows den id p R s s') (h' : Follows den id q R' s' s'') (hpq : ∀ a,p a → ¬ q a) :
    Follows den id (fun a => p a ∨ q a) (fun a c c' => (p a → R a c c') ∧ (q a → R' a c c')) s s'' where
  runs a _ := by
    constructor
    · intro hp
      have hidle : den a s'' = den a s' := h'.idle a (hpq a hp)
      rw [hidle]
      exact h.runs a hp
    · intro hq
      have hidle : den a s' = den a s := h.idle a fun hp => hpq a hp hq
      rw [← hidle]
      exact h'.runs a hq
  idle a ha := by
    obtain ⟨hp,hq⟩ := not_or.mp ha
    exact (h'.idle a hq).trans (h.idle a hp)

theorem under (h : Follows den id (fun a => p a ∧ q a) R s s') :
    Follows den id q (fun a c c' => (p a → R a c c') ∧ (¬ p a → c' = c)) s s' where
  runs a hq := ⟨fun hp => h.runs a ⟨hp,hq⟩,fun hp => h.idle a fun hboth => hp hboth.1⟩
  idle a hq := h.idle a fun hboth => hq hboth.2

end Follows
end SonicPins.Lib
