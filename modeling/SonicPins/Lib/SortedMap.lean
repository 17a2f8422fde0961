import Mathlib.Order.Basic
import Mathlib.Data.List.Lemmas
import Mathlib.Data.List.Perm.Basic
import Mathlib.Data.List.Sort
import Mathlib.Data.List.Induction

/-! Ordered maps as strictly sorted association lists. -/
namespace SonicPins.Lib

variable {κ α β : Type} [LinearOrder κ]

/-- Assignment through the key: inserts in order or overwrites. -/
def assign (k : κ) (v : α) : List (κ × α) → List (κ × α)
  | [] => [(k,v)]
  | (k',v') :: m => if k < k' then (k,v) :: (k',v') :: m else if k = k' then (k,v) :: m else (k',v') :: assign k v m

theorem assign_nil (k : κ) (v : α) : assign k v [] = [(k,v)] := rfl

theorem assign_cons (k k' : κ) (v v' : α) (m : List (κ × α)) : assign k v ((k',v') :: m) =
    if k < k' then (k,v) :: (k',v') :: m else if k = k' then (k,v) :: m else (k',v') :: assign k v m := rfl

/-- Keys strictly increase. -/
def Ordered (m : List (κ × α)) : Prop := m.Pairwise fun a b => a.1 < b.1

instance (m : List (κ × α)) : Decidable (Ordered m) := inferInstanceAs (Decidable (List.Pairwise _ _))

@[simp] theorem ordered_nil : Ordered ([] : List (κ × α)) := List.Pairwise.nil

theorem lookup_cons_ite (k k' : κ) (v : α) (m : List (κ × α)) :
    List.lookup k' ((k,v) :: m) = if k' = k then some v else m.lookup k' := by
  rw [List.lookup_cons]
  by_cases h : k' = k
  · simp [h]
  · simp [h,beq_false_of_ne h]

theorem lookup_eq_none_of_lt {k : κ} {m : List (κ × α)} (h : ∀ x ∈ m,k < x.1) : m.lookup k = none := by
  rw [List.lookup_eq_none_iff]
  intro x hx
  simpa using (h x hx).ne

theorem mem_assign {k : κ} {v : α} {m : List (κ × α)} {x : κ × α} (h : x ∈ assign k v m) : x = (k,v) ∨ x ∈ m := by
  induction m with
  | nil => simpa [assign_nil] using h
  | cons y m ih =>
    obtain ⟨k',v'⟩ := y
    rw [assign_cons] at h
    split at h
    · simpa using h
    · split at h
      · rcases List.mem_cons.mp h with h | h
        · exact .inl h
        · exact .inr (List.mem_cons_of_mem _ h)
      · rcases List.mem_cons.mp h with h | h
        · exact .inr (by simp [h])
        · rcases ih h with h | h
          · exact .inl h
          · exact .inr (List.mem_cons_of_mem _ h)

theorem Ordered.assign {m : List (κ × α)} (h : Ordered m) (k : κ) (v : α) : Ordered (assign k v m) := by
  induction m with
  | nil => simp [assign_nil,Ordered]
  | cons y m ih =>
    obtain ⟨k',v'⟩ := y
    have hhead := (List.pairwise_cons.mp h).1
    have htail := (List.pairwise_cons.mp h).2
    rw [assign_cons]
    split
    · rename_i hlt
      refine List.pairwise_cons.mpr ⟨fun x hx => ?_,h⟩
      rcases List.mem_cons.mp hx with rfl | hx
      · exact hlt
      · exact hlt.trans (hhead x hx)
    · split
      · rename_i heq
        exact List.pairwise_cons.mpr ⟨fun x hx => heq ▸ hhead x hx,htail⟩
      · rename_i hlt hne
        refine List.pairwise_cons.mpr ⟨fun x hx => ?_,ih htail⟩
        rcases mem_assign hx with rfl | hx
        · exact lt_of_le_of_ne (not_lt.mp hlt) (Ne.symm hne)
        · exact hhead x hx

theorem lookup_assign (k k' : κ) (v : α) (m : List (κ × α)) :
    (assign k v m).lookup k' = if k' = k then some v else m.lookup k' := by
  induction m with
  | nil => rw [assign_nil,lookup_cons_ite]
  | cons y m ih =>
    obtain ⟨k₀,v₀⟩ := y
    rw [assign_cons]
    split
    · rw [lookup_cons_ite]
    · split
      · rename_i heq
        subst heq
        simp only [lookup_cons_ite]
        by_cases h : k' = k <;> simp [h]
      · rename_i hne
        simp only [lookup_cons_ite,ih]
        by_cases h : k' = k
        · subst h; simp [hne]
        · simp [h]

theorem mem_keys_assign (k k' : κ) (v : α) (m : List (κ × α)) :
    k' ∈ (assign k v m).map Prod.fst ↔ k' = k ∨ k' ∈ m.map Prod.fst := by
  induction m with
  | nil => simp [assign_nil]
  | cons y m ih =>
    obtain ⟨k₀,v₀⟩ := y
    rw [assign_cons]
    split
    · simp
    · split
      · rename_i heq
        simp [heq]
      · simp only [List.map_cons,List.mem_cons,ih]
        tauto

theorem length_assign (k : κ) (v : α) {m : List (κ × α)} (hm : Ordered m) :
    (assign k v m).length = if k ∈ m.map Prod.fst then m.length else m.length + 1 := by
  induction m with
  | nil => simp [assign_nil]
  | cons y m ih =>
    obtain ⟨k₀,v₀⟩ := y
    have hhead := (List.pairwise_cons.mp hm).1
    have htail := (List.pairwise_cons.mp hm).2
    rw [assign_cons]
    split
    · rename_i hlt
      rw [if_neg]
      · simp
      · rintro hk
        rcases List.mem_cons.mp hk with hk | hk
        · exact hlt.ne hk
        · obtain ⟨x,hx,hxk⟩ := List.mem_map.mp hk
          exact (hlt.trans (hhead x hx)).ne hxk.symm
    · split
      · rename_i heq
        simp [heq]
      · rename_i hne
        rw [List.length_cons,ih htail]
        simp only [List.map_cons,List.mem_cons,hne,false_or,List.length_cons]
        split <;> rfl

theorem assign_of_forall_lt {k : κ} (v : α) {m : List (κ × α)} (h : ∀ x ∈ m,x.1 < k) :
    assign k v m = m ++ [(k,v)] := by
  induction m with
  | nil => rfl
  | cons y m ih =>
    obtain ⟨k',v'⟩ := y
    have hlt : k' < k := h (k',v') (by simp)
    rw [assign_cons,if_neg hlt.asymm,if_neg hlt.ne',ih fun x hx => h x (by simp [hx]),List.cons_append]

theorem foldl_assign_ordered {m : List (κ × α)} (h : Ordered m) :
    m.foldl (fun acc x => assign x.1 x.2 acc) [] = m := by
  induction m using List.reverseRecOn with
  | nil => rfl
  | append_singleton m x ih =>
    obtain ⟨hm,-,hx⟩ := List.pairwise_append.mp h
    rw [List.foldl_append,ih hm,List.foldl_cons,List.foldl_nil,assign_of_forall_lt]
    intro y hy
    exact hx y hy x (by simp)

theorem lookup_foldl_assign (key : α → κ) (value : α → β) {l : List α} (hl : (l.map key).Nodup)
    (m : List (κ × β)) {x : α} (hx : x ∈ l) :
    (l.foldl (fun m x => assign (key x) (value x) m) m).lookup (key x) = some (value x) := by
  induction l using List.reverseRecOn with
  | nil => simp at hx
  | append_singleton l y ih =>
    rw [List.map_append] at hl
    rw [List.foldl_append,List.foldl_cons,List.foldl_nil,lookup_assign]
    rcases List.mem_append.mp hx with hx | hx
    · rw [if_neg,ih hl.of_append_left hx]
      intro hk
      exact List.disjoint_of_nodup_append hl (List.mem_map.mpr ⟨x,hx,rfl⟩) (by simp [hk])
    · rw [List.mem_singleton] at hx
      simp [hx]

theorem ordered_foldl_assign (key : α → κ) (value : α → β) (l : List α) {m : List (κ × β)}
    (hm : Ordered m) : Ordered (l.foldl (fun m x => assign (key x) (value x) m) m) := by
  induction l generalizing m with
  | nil => exact hm
  | cons x l ih => exact ih (hm.assign _ _)

theorem mem_keys_foldl_assign (key : α → κ) (value : α → β) (l : List α) (m : List (κ × β))
    (k : κ) : k ∈ (l.foldl (fun m x => assign (key x) (value x) m) m).map Prod.fst ↔
      k ∈ l.map key ∨ k ∈ m.map Prod.fst := by
  induction l generalizing m with
  | nil => simp
  | cons x l ih =>
    rw [List.foldl_cons,ih,mem_keys_assign]
    simp only [List.map_cons,List.mem_cons]
    tauto

theorem length_foldl_assign (key : α → κ) (value : α → β) (l : List α) :
    (l.foldl (fun m x => assign (key x) (value x) m) []).length ≤ l.length ∧
      ((l.foldl (fun m x => assign (key x) (value x) m) []).length = l.length ↔ (l.map key).Nodup) := by
  induction l using List.reverseRecOn with
  | nil => simp
  | append_singleton l x ih =>
    obtain ⟨hle,hiff⟩ := ih
    have hordered := ordered_foldl_assign key value l (m := []) ordered_nil
    rw [List.foldl_append,List.foldl_cons,List.foldl_nil,length_assign _ _ hordered,List.map_append,List.nodup_append,
      ← hiff]
    simp only [mem_keys_foldl_assign,List.map_nil,List.not_mem_nil,or_false,List.length_append,List.length_cons,
      List.length_nil,List.map_cons,
      List.nodup_cons,not_false_eq_true,List.nodup_nil,and_self,true_and,List.mem_singleton,ne_eq]
    by_cases hx : key x ∈ l.map key
    · rw [if_pos hx]
      refine ⟨by omega,⟨fun h => by omega,fun h => ?_⟩⟩
      exact absurd rfl (h.2 _ hx _ rfl)
    · rw [if_neg hx]
      refine ⟨by omega,⟨fun h => ⟨by omega,fun a ha b hb hab => hx ?_⟩,fun h => by omega⟩⟩
      rw [← hb,← hab]
      exact ha

theorem perm_assign {k : κ} {v : α} {m : List (κ × α)} (h : k ∉ m.map Prod.fst) : (assign k v m).Perm ((k,v) :: m) := by
  induction m with
  | nil => exact .refl _
  | cons y m ih =>
    obtain ⟨k',v'⟩ := y
    rw [List.map_cons,List.mem_cons,not_or] at h
    rw [assign_cons]
    split
    · exact .refl _
    · rw [if_neg h.1]
      exact ((ih h.2).cons _).trans (.swap _ _ _)

theorem perm_foldl_assign {l : List (κ × α)} (h : (l.map Prod.fst).Nodup) :
    (l.foldl (fun m x => assign x.1 x.2 m) []).Perm l := by
  induction l using List.reverseRecOn with
  | nil => exact .refl _
  | append_singleton l x ih =>
    rw [List.map_append] at h
    have hx : x.1 ∉ (l.foldl (fun m x => assign x.1 x.2 m) []).map Prod.fst := by
      rw [mem_keys_foldl_assign Prod.fst Prod.snd]
      simpa using fun hmem => List.disjoint_of_nodup_append h hmem (List.mem_singleton.mpr rfl)
    rw [List.foldl_append,List.foldl_cons,List.foldl_nil]
    exact (perm_assign hx).trans (((ih h.of_append_left).cons x).trans (List.perm_append_singleton x l).symm)

theorem Ordered.nodupKeys {m : List (κ × α)} (h : Ordered m) : (m.map Prod.fst).Nodup := by
  refine List.pairwise_map.mpr (h.imp fun hlt => hlt.ne)

theorem Ordered.keys_eq {m : List (κ × α)} {n : List (κ × β)} (hm : Ordered m) (hn : Ordered n)
    (h : ∀ k,k ∈ m.map Prod.fst ↔ k ∈ n.map Prod.fst) : m.map Prod.fst = n.map Prod.fst := by
  have hperm := (List.perm_ext_iff_of_nodup hm.nodupKeys hn.nodupKeys).mpr h
  have hm' : (m.map Prod.fst).Pairwise (· < ·) := List.pairwise_map.mpr hm
  have hn' : (n.map Prod.fst).Pairwise (· < ·) := List.pairwise_map.mpr hn
  exact hperm.eq_of_pairwise (fun a b _ _ hab hba => absurd hab hba.asymm) hm' hn'

theorem Ordered.lookup_eq_some {m : List (κ × α)} (h : Ordered m) {k : κ} {v : α} :
    m.lookup k = some v ↔ (k,v) ∈ m := by
  induction m with
  | nil => simp
  | cons y m ih =>
    obtain ⟨k',v'⟩ := y
    have hhead := (List.pairwise_cons.mp h).1
    have htail := (List.pairwise_cons.mp h).2
    rw [lookup_cons_ite]
    by_cases hk : k = k'
    · subst hk
      have hnot : (k,v) ∉ m := fun hm => lt_irrefl k (hhead (k,v) hm)
      simp [hnot,eq_comm]
    · simp [hk,ih htail]

theorem Ordered.ext {m n : List (κ × α)} (hm : Ordered m) (hn : Ordered n)
    (h : ∀ k,m.lookup k = n.lookup k) : m = n := by
  have hmem (x : κ × α) : x ∈ m ↔ x ∈ n := by
    rw [← hm.lookup_eq_some,← hn.lookup_eq_some,h]
  have hperm : m.Perm n :=
    (List.perm_ext_iff_of_nodup (List.Nodup.of_map _ hm.nodupKeys) (List.Nodup.of_map _ hn.nodupKeys)).mpr hmem
  refine hperm.eq_of_pairwise (fun a b _ _ hab hba => ?_) hm hn
  exact absurd hab hba.asymm

end SonicPins.Lib
