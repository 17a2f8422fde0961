import SonicPins.Lib.SortedMap

/-! Values collected under ordered keys. -/
namespace SonicPins.Lib
variable {κ α : Type} [LinearOrder κ]

def appendAt (k : κ) (vs : List α) (m : List (κ × List α)) : List (κ × List α) := assign k ((m.lookup k).getD [] ++ vs) m

/-- An ordered map whose values all have a property under their key. -/
structure Grouped (P : κ → α → Prop) (m : List (κ × List α)) : Prop where
  ordered : Ordered m
  all : ∀ x ∈ m,∀ v ∈ x.2,P x.1 v

namespace Grouped
variable {P : κ → α → Prop} {m : List (κ × List α)}

theorem nil : Grouped P [] := ⟨ordered_nil,nofun⟩

theorem appendAt (h : Grouped P m) {k : κ} {vs : List α} (hvs : ∀ v ∈ vs,P k v) : Grouped P (appendAt k vs m) where
  ordered := h.ordered.assign _ _
  all := by
    intro x hx v hv
    rcases mem_assign hx with rfl | hx
    · rcases List.mem_append.mp hv with hv | hv
      · cases hlookup : m.lookup k with
        | none => simp [hlookup] at hv
        | some before =>
          rw [hlookup] at hv
          exact h.all (k,before) (h.ordered.lookup_eq_some.mp hlookup) v hv
      · exact hvs v hv
    · exact h.all x hx v hv

end Grouped
end SonicPins.Lib
