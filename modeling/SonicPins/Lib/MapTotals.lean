import Mathlib.Algebra.BigOperators.Group.List.Basic
import Mathlib.Algebra.Group.Int.Defs
import Mathlib.Algebra.Order.BigOperators.Group.List
import Mathlib.Algebra.Order.Group.Int
import Mathlib.Algebra.Ring.Int.Defs
import Mathlib.Data.List.AList

/-! Lookups in a map after an update, totals over its values, and how an update of
one key changes them. -/
namespace SonicPins.Lib
variable {α β : Type} [DecidableEq α]

theorem lookup_insert_cases {s : AList (fun _ : α => β)} {k a : α} {v x : β}
    (h : (s.insert k v).lookup a = some x) : (a = k ∧ x = v) ∨ (a ≠ k ∧ s.lookup a = some x) := by
  by_cases ha : a = k
  · subst ha
    rw [AList.lookup_insert] at h
    exact .inl ⟨rfl,(Option.some.inj h).symm⟩
  · rw [AList.lookup_insert_ne ha] at h
    exact .inr ⟨ha,h⟩

theorem lookup_erase_cases {s : AList (fun _ : α => β)} {k a : α} {x : β}
    (h : (s.erase k).lookup a = some x) : a ≠ k ∧ s.lookup a = some x := by
  by_cases ha : a = k
  · subst ha
    rw [AList.lookup_erase] at h
    cases h
  · exact ⟨ha,by rwa [AList.lookup_erase_ne ha] at h⟩

theorem lookup_singleton_cases {k a : α} {v x : β} (h : (AList.singleton k v : AList fun _ : α => β).lookup a = some x) :
    a = k ∧ x = v := by
  rw [← AList.insert_empty] at h
  rcases lookup_insert_cases h with hfound | ⟨-,h⟩
  · exact hfound
  · cases h

theorem insert_erase (m : AList (fun _ : α => β)) (k : α) (b : β) :
    (m.erase k).insert k b = m.insert k b := by
  have herase : (m.erase k).entries = m.entries.kerase k := rfl
  refine AList.ext ?_
  rw [AList.entries_insert,AList.entries_insert,herase]
  rw [List.kerase_of_notMem_keys (List.notMem_keys_kerase k m.nodupKeys)]

/-- The sum of a quantity over all values of a map. -/
def mapTotal (f : β → Int) (m : AList (fun _ : α => β)) : Int := (m.entries.map fun x => f x.2).sum

/-- The quantity of the value bound to a key, nothing if there is none. -/
def amountAt (f : β → Int) (m : AList (fun _ : α => β)) (k : α) : Int := (m.lookup k).elim 0 f

private theorem sum_kerase (f : β → Int) (k : α) (l : List (Sigma fun _ : α => β)) :
    ((l.kerase k).map fun x => f x.2).sum = (l.map fun x => f x.2).sum - (l.dlookup k).elim 0 f := by
  induction l with
  | nil => simp
  | cons x l ih =>
    obtain ⟨k',b⟩ := x
    by_cases hk : k = k'
    · subst hk
      simp
    · rw [List.kerase_cons_ne hk,List.dlookup_cons_ne _ _ hk,List.map_cons,List.sum_cons,ih,List.map_cons,List.sum_cons]
      omega

theorem mapTotal_erase (f : β → Int) (m : AList (fun _ : α => β)) (k : α) :
    mapTotal f (m.erase k) = mapTotal f m - amountAt f m k := sum_kerase f k m.entries

theorem mapTotal_insert (f : β → Int) (m : AList (fun _ : α => β)) (k : α) (b : β) :
    mapTotal f (m.insert k b) = mapTotal f m + f b - amountAt f m k := by
  have h : mapTotal f (m.insert k b) = f b + mapTotal f (m.erase k) := by
    have herase : (m.erase k).entries = m.entries.kerase k := rfl
    simp [mapTotal,AList.entries_insert,herase]
  rw [h,mapTotal_erase]
  omega

omit [DecidableEq α] in
theorem mapTotal_one (m : AList (fun _ : α => β)) : mapTotal (fun _ => 1) m = m.entries.length := by
  simp [mapTotal]

theorem mapTotal_congr {f g : β → Int} {m : AList (fun _ : α => β)} (h : ∀ k b,m.lookup k = some b → f b = g b) :
    mapTotal f m = mapTotal g m := by
  unfold mapTotal
  congr 1
  exact List.map_congr_left fun x hx => h x.1 x.2 (AList.mem_lookup_iff.mpr hx)

theorem mapTotal_eq_zero {f : β → Int} {m : AList (fun _ : α => β)} (h : ∀ k b,m.lookup k = some b → f b = 0) :
    mapTotal f m = 0 := by
  rw [mapTotal_congr h]
  simp [mapTotal]

theorem mapTotal_nonneg {f : β → Int} {m : AList (fun _ : α => β)} (h : ∀ k b,m.lookup k = some b → 0 ≤ f b) :
    0 ≤ mapTotal f m := by
  refine List.sum_nonneg fun n hn => ?_
  obtain ⟨x,hx,rfl⟩ := List.mem_map.mp hn
  exact h x.1 x.2 (AList.mem_lookup_iff.mpr hx)

theorem sum_map_update {ι : Type} [DecidableEq ι] (f : ι → Int) {i : ι} (v : Int) {l : List ι} (hnodup : l.Nodup) :
    (l.map (Function.update f i v)).sum = (l.map f).sum + if i ∈ l then v - f i else 0 := by
  induction l with
  | nil => simp
  | cons j l ih =>
    obtain ⟨hj,hl⟩ := List.nodup_cons.mp hnodup
    rw [List.map_cons,List.sum_cons,List.map_cons,List.sum_cons,ih hl]
    by_cases hij : i = j
    · subst hij
      rw [Function.update_self,if_neg hj,if_pos (by simp)]
      omega
    · rw [Function.update_of_ne (Ne.symm hij)]
      by_cases hi : i ∈ l
      · simp [hi,hij]
        omega
      · simp [hi,hij]

theorem le_foldl_max (l : List Int) (a : Int) : a ≤ l.foldl max a ∧ ∀ n ∈ l,n ≤ l.foldl max a := by
  induction l generalizing a with
  | nil => simp
  | cons n l ih =>
    obtain ⟨hacc,hmem⟩ := ih (max a n)
    refine ⟨(le_max_left a n).trans hacc,?_⟩
    rintro m (_ | ⟨_,hm⟩)
    · exact (le_max_right a n).trans hacc
    · exact hmem m hm

end SonicPins.Lib
