import Mathlib.Data.List.Sort
import Mathlib.Data.List.Perm.Basic
import Mathlib.SetTheory.Cardinal.Order

/-! Matching two lists by sorting both and comparing them position by position, and when
that finds the one-to-one pairings that exist. -/
namespace SonicPins.Lib

/-- A comparison by which a list has exactly one sorted order. -/
structure TotalOrder (α : Type) where
  le : α → α → Bool
  trans : ∀ a b c,le a b → le b c → le a c
  total : ∀ a b,le a b || le b a
  antisymm : ∀ a b,le a b → le b a → a = b

/-- A one-to-one pairing of two lists whose pairs are related. -/
def Paired {α β : Type} (R : α → β → Prop) (as : List α) (bs : List β) : Prop :=
  ∃ l,List.Forall₂ R as l ∧ l.Perm bs

section Pairing
variable {α β κ : Type}

theorem Paired.length_eq {R : α → β → Prop} {as : List α} {bs : List β} (h : Paired R as bs) : as.length = bs.length := by
  obtain ⟨l,hl,hperm⟩ := h
  rw [hl.length_eq,hperm.length_eq]

theorem Paired.imp {R S : α → β → Prop} {as : List α} {bs : List β} (h : Paired R as bs)
    (hRS : ∀ a ∈ as,∀ b ∈ bs,R a b → S a b) : Paired S as bs := by
  obtain ⟨l,hl,hperm⟩ := h
  refine ⟨l,?_,hperm⟩
  refine List.forall₂_iff_get.mpr ⟨hl.length_eq,fun i hi hi' => ?_⟩
  exact hRS _ (List.get_mem _ _) _ (hperm.subset (List.get_mem _ _)) ((List.forall₂_iff_get.mp hl).2 i hi hi')

theorem forall₂_eq_map {f : α → κ} {g : β → κ} {as : List α} {bs : List β} :
    List.Forall₂ (fun a b => f a = g b) as bs ↔ as.map f = bs.map g := by
  rw [← List.forall₂_eq_eq_eq,List.forall₂_map_left_iff,List.forall₂_map_right_iff]

theorem paired_key {f : α → κ} {g : β → κ} {as : List α} {bs : List β} :
    Paired (fun a b => f a = g b) as bs ↔ (as.map f).Perm (bs.map g) := by
  constructor
  · rintro ⟨l,hl,hperm⟩
    rw [forall₂_eq_map.mp hl]
    exact hperm.map g
  · intro h
    obtain ⟨l,hperm,hl⟩ := List.perm_comp_forall₂ h (v := bs) (r := fun k b => k = g b)
      (by rw [List.forall₂_map_left_iff]; exact List.forall₂_same.mpr fun _ _ => rfl)
    exact ⟨l,List.forall₂_map_left_iff.mp hperm,hl⟩

end Pairing

namespace TotalOrder
variable {α κ : Type} (o : TotalOrder α)

def sort (l : List α) : List α := l.mergeSort o.le

theorem sort_perm (l : List α) : (o.sort l).Perm l := List.mergeSort_perm l o.le

theorem pairwise_sort (l : List α) : (o.sort l).Pairwise fun a b => o.le a b = true :=
  List.pairwise_mergeSort o.trans o.total l

theorem sort_unique {l l' : List α} (hperm : l'.Perm l) (hsorted : l'.Pairwise fun a b => o.le a b = true) :
    o.sort l = l' :=
  List.Perm.eq_of_pairwise (fun a b _ _ => o.antisymm a b) (o.pairwise_sort l) hsorted ((o.sort_perm l).trans hperm.symm)

theorem sort_congr {l l' : List α} (h : l.Perm l') : o.sort l = o.sort l' :=
  o.sort_unique ((o.sort_perm l').trans h.symm) (o.pairwise_sort l')

theorem keys_perm_of_sorted {f : α → κ} {as bs : List α} (h : (o.sort as).map f = (o.sort bs).map f) :
    (as.map f).Perm (bs.map f) :=
  (((o.sort_perm as).map f).symm.trans (h ▸ List.Perm.refl _)).trans ((o.sort_perm bs).map f)

end TotalOrder

/-! ### Orders that separate -/

variable {α κ : Type}

theorem exists_order_by_rank (rank : α → Nat) : ∃ o : TotalOrder α,∀ a b,rank a < rank b → o.le a b := by
  classical
  obtain ⟨linear,-⟩ := exists_wellFoundedLT α
  let key (a : α) : Nat ×ₗ α := toLex (rank a,a)
  have hinj : Function.Injective key := fun a b h => (Prod.mk.injEq .. ▸ toLex.injective h).2
  refine ⟨⟨fun a b => decide (key a ≤ key b),?_,?_,?_⟩,?_⟩
  · intro a b c hab hbc
    exact decide_eq_true (le_trans (of_decide_eq_true hab) (of_decide_eq_true hbc))
  · intro a b
    simpa using le_total (key a) (key b)
  · intro a b hab hba
    exact hinj (le_antisymm (of_decide_eq_true hab) (of_decide_eq_true hba))
  · intro a b h
    exact decide_eq_true (Prod.Lex.le_iff.mpr (.inl h))

theorem exists_order_starting [DecidableEq α] (x y : α) (hne : x ≠ y) :
    ∃ o : TotalOrder α,∀ l : List α,∃ rest,o.sort l =
      List.replicate (l.count x) x ++ (List.replicate (l.count y) y ++ rest) := by
  obtain ⟨o,ho⟩ := exists_order_by_rank fun a => if a = x then 0 else if a = y then 1 else 2
  have hrefl : ∀ a,o.le a a := fun a => by simpa using o.total a a
  refine ⟨o,fun l => ⟨o.sort (l.filter fun a => a ≠ x ∧ a ≠ y),o.sort_unique ?_ ?_⟩⟩
  · rw [List.perm_iff_count]
    intro a
    rw [List.count_append,List.count_append,(o.sort_perm _).count_eq,List.count_replicate,List.count_replicate]
    by_cases hx : a = x
    · subst hx
      have hnot : (l.filter fun b => b ≠ a ∧ b ≠ y).count a = 0 := List.count_eq_zero.mpr (by simp)
      rw [hnot]
      simp [hne.symm]
    · by_cases hy : a = y
      · subst hy
        have hnot : (l.filter fun b => b ≠ x ∧ b ≠ a).count a = 0 := List.count_eq_zero.mpr (by simp)
        rw [hnot]
        simp [hne]
      · rw [List.count_filter (by simp [hx,hy])]
        simp [Ne.symm hx,Ne.symm hy]
  · have hrest : ∀ b ∈ o.sort (l.filter fun a => a ≠ x ∧ a ≠ y),b ≠ x ∧ b ≠ y := by
      intro b hb
      simpa using (List.mem_filter.mp ((o.sort_perm _).subset hb)).2
    refine List.pairwise_append.mpr ⟨List.pairwise_replicate.mpr (.inr (hrefl x)),
      List.pairwise_append.mpr ⟨List.pairwise_replicate.mpr (.inr (hrefl y)),o.pairwise_sort _,?_⟩,?_⟩
    · intro a ha b hb
      obtain ⟨hx,hy⟩ := hrest b hb
      rw [List.eq_of_mem_replicate ha]
      exact ho _ _ (by simp [hx,hy,hne.symm])
    · intro a ha b hb
      rw [List.eq_of_mem_replicate ha]
      rcases List.mem_append.mp hb with hb | hb
      · rw [List.eq_of_mem_replicate hb]
        exact ho _ _ (by simp [hne.symm])
      · obtain ⟨hx,hy⟩ := hrest b hb
        exact ho _ _ (by simp [hx,hy])

theorem exists_count_lt [DecidableEq α] {as bs : List α} (hlen : as.length = bs.length) (h : ¬ as.Perm bs) :
    ∃ x ∈ as,bs.count x < as.count x := by
  by_contra hall
  push Not at hall
  exact h (List.Subperm.perm_of_length_le (List.subperm_ext_iff.mpr hall) hlen.ge)

theorem sorted_keys_iff {key : α → κ} {as bs : List α} (hkeys : (as.map key).Perm (bs.map key)) :
    (∀ o : TotalOrder α,(o.sort as).map key = (o.sort bs).map key) ↔
      as.Perm bs ∨ ∀ a ∈ as ++ bs,∀ b ∈ as ++ bs,key a = key b := by
  classical
  have hlen : as.length = bs.length := by simpa using hkeys.length_eq
  constructor
  · intro h
    by_contra hneither
    push Not at hneither
    obtain ⟨hperm,a,ha,b,hb,hab⟩ := hneither
    obtain ⟨x,hx,hcount⟩ := exists_count_lt hlen hperm
    -- a key of the second list other than that of `x`
    have hother : ∃ y ∈ bs,key y ≠ key x := by
      have hkey : ∀ c ∈ as ++ bs,∃ d ∈ bs,key d = key c := by
        intro c hc
        rcases List.mem_append.mp hc with hc | hc
        · exact List.mem_map.mp (hkeys.subset (List.mem_map_of_mem hc))
        · exact ⟨c,hc,rfl⟩
      obtain ⟨c,hc,hca⟩ := hkey a ha
      obtain ⟨d,hd,hdb⟩ := hkey b hb
      by_cases hcx : key c = key x
      · exact ⟨d,hd,fun hdx => hab (by rw [← hca,← hdb,hcx,hdx])⟩
      · exact ⟨c,hc,hcx⟩
    obtain ⟨y,hy,hyx⟩ := hother
    obtain ⟨o,ho⟩ := exists_order_starting x y (fun h => hyx (h ▸ rfl))
    obtain ⟨resta,hsorta⟩ := ho as
    obtain ⟨restb,hsortb⟩ := ho bs
    have hat := congrArg (fun l => l[bs.count x]?) (h o)
    have hypos : 0 < bs.count y := List.count_pos_iff.mpr hy
    simp only [hsorta,hsortb,List.getElem?_map] at hat
    rw [List.getElem?_append_left (by simpa using hcount),List.getElem?_replicate_of_lt hcount,
      List.getElem?_append_right (by simp),List.length_replicate,Nat.sub_self,
      List.getElem?_append_left (by simpa using hypos),List.getElem?_replicate_of_lt hypos] at hat
    exact hyx (Option.some.inj hat).symm
  · rintro (hperm | hone) o
    · rw [o.sort_congr hperm]
    · refine forall₂_eq_map.mp (List.forall₂_iff_get.mpr ⟨?_,fun i hi hi' => ?_⟩)
      · rw [(o.sort_perm as).length_eq,(o.sort_perm bs).length_eq,hlen]
      · exact hone _ (List.mem_append_left _ ((o.sort_perm as).subset (List.get_mem _ _))) _
          (List.mem_append_right _ ((o.sort_perm bs).subset (List.get_mem _ _)))

end SonicPins.Lib
