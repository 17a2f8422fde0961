import Mathlib.Algebra.Order.Group.Nat
import Mathlib.Data.List.ModifyLast
import Mathlib.Tactic.Ring

/-! Splitting a list into consecutive chunks of one size, the last of which may be
shorter. -/
namespace SonicPins.Lib

variable {α : Type} {m : Nat} {xs : List α} {chunks : List (List α)}

/-- The chunks of a list: all are full but the last, and none is empty. -/
inductive Chunks (m : Nat) : List α → List (List α) → Prop where
  | nil : Chunks m [] []
  | last (front : List (List α)) (c : List α) (hfull : ∀ d ∈ front,d.length = m) (hne : c ≠ []) (hle : c.length ≤ m) :
      Chunks m (front.flatten ++ c) (front ++ [c])

theorem Chunks.flatten (h : Chunks m xs chunks) : chunks.flatten = xs := by
  cases h with
  | nil => rfl
  | last front c hfull hne hle => simp

theorem Chunks.bounds (hm : 0 < m) (h : Chunks m xs chunks) : ∀ d ∈ chunks,1 ≤ d.length ∧ d.length ≤ m := by
  cases h with
  | nil => simp
  | last front c hfull hne hle =>
    intro d hd
    rcases List.mem_append.mp hd with hd | hd
    · rw [hfull d hd]
      exact ⟨hm,le_rfl⟩
    · rw [List.mem_singleton.mp hd]
      exact ⟨List.length_pos_iff.mpr hne,hle⟩

theorem length_flatten_full {front : List (List α)} (hfull : ∀ d ∈ front,d.length = m) :
    front.flatten.length = front.length * m := by
  induction front with
  | nil => simp
  | cons d front ih =>
    rw [List.forall_mem_cons] at hfull
    rw [List.flatten_cons,List.length_append,hfull.1,ih hfull.2,List.length_cons,Nat.succ_mul,Nat.add_comm]

theorem Chunks.length_eq (hm : 0 < m) (h : Chunks m xs chunks) : chunks.length = (xs.length + m - 1) / m := by
  cases h with
  | nil =>
    have hlt : 0 + m - 1 < m := by omega
    exact (Nat.div_eq_of_lt hlt).symm
  | last front c hfull hne hle =>
    have hpos : 0 < c.length := List.length_pos_iff.mpr hne
    have hsplit : front.length * m + c.length + m - 1 = (c.length - 1) + (front.length + 1) * m := by
      rw [Nat.add_mul]
      omega
    rw [List.length_append,List.length_append,length_flatten_full hfull,hsplit,Nat.add_mul_div_right _ _ hm,
      Nat.div_eq_of_lt (by omega)]
    simp

theorem Chunks.single (hne : xs ≠ []) (hle : xs.length ≤ m) : Chunks m xs [xs] :=
  Chunks.last [] xs (by simp) hne hle

theorem Chunks.start (hm : 0 < m) (h : Chunks m xs chunks) (hfull : ∀ d ∈ chunks,d.length = m) (x : α) :
    Chunks m (xs ++ [x]) (chunks ++ [[x]]) := by
  rw [← h.flatten]
  exact Chunks.last chunks [x] hfull (by simp) hm

variable {front : List (List α)} {c : List α}

theorem Chunks.front_full (h : Chunks m xs (front ++ [c])) : (∀ d ∈ front,d.length = m) ∧ c.length ≤ m := by
  generalize hchunks : front ++ [c] = chunks at h
  cases h with
  | nil => simp at hchunks
  | last front' c' hfull hne hle =>
    obtain ⟨rfl,hlast⟩ := List.append_inj' hchunks rfl
    rw [List.singleton_inj.mp hlast]
    exact ⟨hfull,hle⟩

theorem Chunks.extend (h : Chunks m xs (front ++ [c])) (hroom : c.length < m) (x : α) :
    Chunks m (xs ++ [x]) (front ++ [c ++ [x]]) := by
  have heq : xs ++ [x] = front.flatten ++ (c ++ [x]) := by
    rw [← h.flatten]
    simp
  rw [heq]
  exact Chunks.last front (c ++ [x]) h.front_full.1 (by simp) (by simpa using Nat.succ_le_of_lt hroom)

theorem Chunks.mod_eq_zero_iff (h : Chunks m xs chunks) : xs.length % m = 0 ↔ ∀ d ∈ chunks,d.length = m := by
  cases h with
  | nil => simp
  | last front c hfull hne hle =>
    have hpos : 0 < c.length := List.length_pos_iff.mpr hne
    have hmod : (front.flatten ++ c).length % m = c.length % m := by
      rw [List.length_append,length_flatten_full hfull,Nat.add_comm,Nat.add_mul_mod_self_right]
    rw [hmod]
    constructor
    · intro hzero d hd
      rcases List.mem_append.mp hd with hd | hd
      · exact hfull d hd
      · rw [List.mem_singleton.mp hd]
        exact Nat.le_antisymm hle (Nat.le_of_dvd hpos (Nat.dvd_of_mod_eq_zero hzero))
    · intro hall
      rw [hall c (by simp),Nat.mod_self]

end SonicPins.Lib
