import Mathlib.Data.List.Sort

/-! Stable sorting with a comparator, and the comparators that it accepts. -/
namespace SonicPins.Lib

section Comparators
variable {α κ : Type}

/-- What a sort asks of its comparator on the elements of a list: a strict order for which
being incomparable is transitive. -/
structure StrictWeakOrderOn (comp : α → α → Bool) (l : List α) : Prop where
  irrefl : ∀ a ∈ l,comp a a = false
  trans : ∀ a ∈ l,∀ b ∈ l,∀ c ∈ l,comp a b = true → comp b c = true → comp a c = true
  incomparable : ∀ a ∈ l,∀ b ∈ l,∀ c ∈ l,comp a b = false → comp b a = false → comp b c = false → comp c b = false →
    comp a c = false ∧ comp c a = false

/-- On a list, the comparator compares keys. -/
def ComparesBy [LinearOrder κ] (key : α → κ) (comp : α → α → Bool) (l : List α) : Prop :=
  ∀ a ∈ l,∀ b ∈ l,comp a b = decide (key a < key b)

variable [LinearOrder κ] {key : α → κ} {comp : α → α → Bool} {l : List α}

theorem ComparesBy.strictWeakOrderOn (h : ComparesBy key comp l) : StrictWeakOrderOn comp l where
  irrefl a ha := by
    rw [h a ha a ha]
    simp
  trans a ha b hb c hc hab hbc := by
    rw [h a ha b hb,decide_eq_true_eq] at hab
    rw [h b hb c hc,decide_eq_true_eq] at hbc
    rw [h a ha c hc,decide_eq_true_eq]
    exact hab.trans hbc
  incomparable a ha b hb c hc hab hba hbc hcb := by
    have heq {x y : α} (hx : x ∈ l) (hy : y ∈ l) (hxy : comp x y = false) (hyx : comp y x = false) : key x = key y := by
      rw [h x hx y hy,decide_eq_false_iff_not] at hxy
      rw [h y hy x hx,decide_eq_false_iff_not] at hyx
      exact le_antisymm (not_lt.mp hyx) (not_lt.mp hxy)
    have hkey : key a = key c := (heq ha hb hab hba).trans (heq hb hc hbc hcb)
    rw [h a ha c hc,h c hc a ha,hkey]
    simp

end Comparators

section Sorting
variable {α κ : Type}

/-- `std::stable_sort` with a comparator. -/
def stableSort (comp : α → α → Bool) (l : List α) : List α := l.mergeSort fun a b => !comp b a

theorem stableSort_perm (comp : α → α → Bool) (l : List α) : (stableSort comp l).Perm l := List.mergeSort_perm l _

variable [LinearOrder κ] {key : α → κ} {comp : α → α → Bool} {l : List α}

theorem ComparesBy.stableSort_eq (h : ComparesBy key comp l) :
    stableSort comp l = l.mergeSort fun a b => decide (key a ≤ key b) := by
  have hcongr := List.map_mergeSort (r := fun a b => !comp b a) (s := fun a b => decide (key a ≤ key b)) (f := id) (l := l)
    fun a ha b hb => by
      rw [h b hb a ha,← decide_not]
      simp only [not_lt,id_eq]
  rwa [List.map_id,List.map_id] at hcongr

theorem keyOrder_trans (a b c : α) (hab : decide (key a ≤ key b) = true) (hbc : decide (key b ≤ key c) = true) :
    decide (key a ≤ key c) = true :=
  decide_eq_true ((of_decide_eq_true hab).trans (of_decide_eq_true hbc))

theorem keyOrder_total (a b : α) : (decide (key a ≤ key b) || decide (key b ≤ key a)) = true := by
  simpa using le_total (key a) (key b)

theorem ComparesBy.pairwise (h : ComparesBy key comp l) : (stableSort comp l).Pairwise fun a b => key a ≤ key b := by
  rw [h.stableSort_eq]
  exact (List.pairwise_mergeSort keyOrder_trans keyOrder_total l).imp of_decide_eq_true

theorem ComparesBy.stable (h : ComparesBy key comp l) (k : κ) :
    (stableSort comp l).filter (fun a => key a = k) = l.filter fun a => key a = k := by
  have hsame : (l.filter fun a => key a = k).Pairwise fun a b => decide (key a ≤ key b) = true := by
    refine List.pairwise_of_forall_mem_list fun a ha b hb => decide_eq_true ?_
    rw [of_decide_eq_true (List.mem_filter.mp ha).2,of_decide_eq_true (List.mem_filter.mp hb).2]
  have hsublist : (l.filter fun a => key a = k).Sublist (stableSort comp l) := by
    rw [h.stableSort_eq]
    exact List.sublist_mergeSort keyOrder_trans keyOrder_total hsame List.filter_sublist
  have hfiltered := hsublist.filter fun a => decide (key a = k)
  rw [List.filter_filter] at hfiltered
  simp only [Bool.and_self] at hfiltered
  have hlength := ((stableSort_perm comp l).filter fun a => decide (key a = k)).length_eq
  exact (hfiltered.eq_of_length hlength.symm).symm

end Sorting

variable {α κ : Type} [LinearOrder κ]

/-- The items of a list by falling keys, those with one key in their order. -/
structure StablyOrdered (key : α → κ) (l sorted : List α) : Prop where
  perm : sorted.Perm l
  descending : sorted.Pairwise fun a b => key b ≤ key a
  stable : ∀ k,(sorted.filter fun a => key a = k) = l.filter fun a => key a = k

theorem stablyOrdered_stableSort (key : α → κ) (l : List α) : StablyOrdered key l (stableSort (fun a b => key a > key b) l) := by
  have hkey : ComparesBy (fun a => OrderDual.toDual (key a)) (fun a b => decide (key a > key b)) l := fun a _ b _ => rfl
  exact ⟨stableSort_perm _ l,hkey.pairwise.imp id,fun k => hkey.stable (OrderDual.toDual k)⟩

theorem StablyOrdered.eq_of_const {key : α → κ} {l sorted : List α} {k : κ} (h : StablyOrdered key l sorted)
    (hconst : ∀ a ∈ l,key a = k) : sorted = l := by
  have hstable := h.stable k
  rwa [List.filter_eq_self.mpr fun a ha => decide_eq_true (hconst a (h.perm.mem_iff.mp ha)),
    List.filter_eq_self.mpr fun a ha => decide_eq_true (hconst a ha)] at hstable

/-- The first item of a list that has a property. -/
def IsFirst (P : α → Prop) (l : List α) (a : α) : Prop := ∃ before after,l = before ++ a :: after ∧ P a ∧ ∀ b ∈ before,¬ P b

/-- Of the items with a property one with the highest key, and the first of these. -/
def IsFirstBy (key : α → κ) (P : α → Prop) (l : List α) (a : α) : Prop :=
  (∀ b ∈ l,P b → key b ≤ key a) ∧ IsFirst P (l.filter fun b => key b = key a) a

theorem StablyOrdered.first {key : α → κ} {P : α → Prop} {l sorted : List α} {a : α} (h : StablyOrdered key l sorted)
    (ha : IsFirst P sorted a) : IsFirstBy key P l a := by
  obtain ⟨before,after,rfl,hP,hnone⟩ := ha
  constructor
  · intro b hb hPb
    rcases List.mem_append.mp (h.perm.mem_iff.mpr hb) with hmem | hmem
    · exact absurd hPb (hnone b hmem)
    · rcases List.mem_cons.mp hmem with rfl | hmem
      · exact le_rfl
      · exact List.rel_of_pairwise_cons (List.pairwise_append.mp h.descending).2.1 hmem
  · rw [← h.stable,List.filter_append,List.filter_cons_of_pos (by simp)]
    exact ⟨_,_,rfl,hP,fun b hb => hnone b (List.mem_filter.mp hb).1⟩

end SonicPins.Lib
