import Mathlib.Data.List.Basic

/-! Runs of a step function together with the history of its calls and answers.
The caller's discipline is a condition on the history so far and the next call. -/
namespace SonicPins.Lib

/-- `Run init admissible step h s`: from `init`, admissible calls produced the
history `h`, oldest call first, and ended in the state `s`. -/
inductive Run {σ ε ρ : Type} (init : σ) (admissible : List (ε × ρ) → ε → Prop) (step : ε → σ → σ × ρ) :
    List (ε × ρ) → σ → Prop where
  | start : Run init admissible step [] init
  | next {h : List (ε × ρ)} {s : σ} (e : ε) (hr : Run init admissible step h s) (ha : admissible h e) :
      Run init admissible step (h ++ [(e,(step e s).2)]) (step e s).1

namespace Run
variable {σ ε ρ : Type} {init : σ} {admissible : List (ε × ρ) → ε → Prop} {step : ε → σ → σ × ρ}

theorem invariant {P : List (ε × ρ) → σ → Prop} (h0 : P [] init)
    (hs : ∀ h s e,P h s → admissible h e → P (h ++ [(e,(step e s).2)]) (step e s).1)
    {h : List (ε × ρ)} {s : σ} (hr : Run init admissible step h s) : P h s := by
  induction hr with
  | start => exact h0
  | next e hr ha ih => exact hs _ _ e ih ha

theorem answered {h before after : List (ε × ρ)} {s : σ} {e : ε} {r : ρ}
    (hr : Run init admissible step h s) (he : h = before ++ (e,r) :: after) :
    ∃ t,Run init admissible step before t ∧ r = (step e t).2 := by
  induction hr generalizing after with
  | start => simp at he
  | @next h s e' hr ha ih =>
    rcases after.eq_nil_or_concat with rfl | ⟨after,x,rfl⟩
    · obtain ⟨rfl,hx⟩ := List.append_inj_left' he rfl,List.append_inj_right' he rfl
      obtain ⟨rfl,rfl⟩ := Prod.mk.injEq .. ▸ List.singleton_inj.mp hx
      exact ⟨s,hr,rfl⟩
    · refine @ih after ?_
      rw [List.concat_eq_append,← List.cons_append,← List.append_assoc] at he
      exact List.append_inj_left' he rfl

end Run
end SonicPins.Lib
