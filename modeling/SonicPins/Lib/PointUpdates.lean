import Mathlib.Data.List.Nodup
import Mathlib.Logic.Function.Basic

/-! Loops that write to a state one point at a time, each point at most once. -/
namespace SonicPins.Lib
variable {σ α κ γ : Type} {step : σ → α → σ} {key : α → κ} {observe : σ → κ → γ}

/-- A step shows at the point that it writes to, and nowhere else. -/
def WritesAt (step : σ → α → σ) (key : α → κ) (observe : σ → κ → γ) : Prop :=
  ∀ s a k,k ≠ key a → observe (step s a) k = observe s k

theorem observe_foldl_of_notMem (h : WritesAt step key observe) {l : List α} {k : κ} (hk : k ∉ l.map key) (s : σ) :
    observe (l.foldl step s) k = observe s k := by
  induction l generalizing s with
  | nil => rfl
  | cons a l ih =>
    obtain ⟨hne,hl⟩ := not_or.mp (List.mem_cons.not.mp hk)
    rw [List.foldl_cons,ih hl,h s a k hne]

theorem observe_foldl_of_mem (h : WritesAt step key observe) {l : List α} (hnodup : (l.map key).Nodup) {a : α} (ha : a ∈ l)
    (s : σ) : ∃ s',observe s' (key a) = observe s (key a) ∧
      observe (l.foldl step s) (key a) = observe (step s' a) (key a) := by
  induction l generalizing s with
  | nil => cases ha
  | cons b l ih =>
    obtain ⟨hb,hl⟩ := List.nodup_cons.mp hnodup
    rcases List.mem_cons.mp ha with rfl | ha
    · exact ⟨s,rfl,observe_foldl_of_notMem h hb _⟩
    · obtain ⟨s',hbefore,hafter⟩ := ih hl ha (step s b)
      have hne : key a ≠ key b := fun heq => hb (List.mem_map.mpr ⟨a,ha,heq⟩)
      exact ⟨s',hbefore.trans (h s b _ hne),hafter⟩

theorem writesAt_update [DecidableEq κ] {β : Type} :
    WritesAt (fun (f : κ → β) (x : κ × β) => Function.update f x.1 x.2) Prod.fst fun f k => f k :=
  fun f x _ hk => Function.update_of_ne hk x.2 f

theorem foldl_update_of_mem [DecidableEq κ] {β : Type} {l : List (κ × β)} (hnodup : (l.map Prod.fst).Nodup) {k : κ} {v : β}
    (hx : (k,v) ∈ l) (f : κ → β) : l.foldl (fun f x => Function.update f x.1 x.2) f k = v := by
  obtain ⟨g,-,hg⟩ := observe_foldl_of_mem writesAt_update hnodup hx f
  exact hg.trans (Function.update_self _ _ _)

end SonicPins.Lib
