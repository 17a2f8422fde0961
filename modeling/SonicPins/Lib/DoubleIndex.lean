import Mathlib.Data.List.Basic
import Mathlib.Data.List.Nodup
import Mathlib.Data.List.Lookmap

/-! Values indexed twice, by two of their own projections. -/
namespace SonicPins.Lib

section Lookup
variable {κ α β : Type} [DecidableEq κ]

theorem mem_of_lookup_eq_some {k : κ} {v : α} {m : List (κ × α)} (h : m.lookup k = some v) : (k,v) ∈ m := by
  induction m with
  | nil => simp at h
  | cons x m ih =>
    rw [List.lookup_cons] at h
    split at h
    · rename_i hk
      have hk : k = x.1 := eq_of_beq hk
      have hv : x.2 = v := Option.some.inj h
      simp [hk,← hv]
    · exact List.mem_cons_of_mem _ (ih h)

theorem lookup_eq_some_of_mem {k : κ} {v : α} {m : List (κ × α)} (hm : (m.map Prod.fst).Nodup) (h : (k,v) ∈ m) :
    m.lookup k = some v := by
  induction m with
  | nil => simp at h
  | cons x m ih =>
    obtain ⟨hx,hm⟩ := List.nodup_cons.mp hm
    rcases List.mem_cons.mp h with rfl | h
    · simp
    · have hne : (k == x.1) = false := by
        refine beq_false_of_ne fun hk => hx ?_
        exact List.mem_map.mpr ⟨(k,v),h,hk⟩
      rw [List.lookup_cons,hne]
      exact ih hm h

theorem lookup_mapValues (f : α → β) (m : List (κ × α)) (k : κ) : (m.map fun x => (x.1,f x.2)).lookup k = (m.lookup k).map f := by
  induction m with
  | nil => rfl
  | cons x m ih =>
    rw [List.map_cons,List.lookup_cons,List.lookup_cons,ih]
    split <;> rfl

theorem lookup_filter_ne (m : List (κ × α)) (a k : κ) :
    (m.filter fun p => p.1 ≠ a).lookup k = if k = a then none else m.lookup k := by
  induction m with
  | nil => simp
  | cons p m ih =>
    rw [List.filter_cons]
    by_cases hp : p.1 = a
    · rw [if_neg (by simpa using hp),ih,List.lookup_cons,hp]
      by_cases hk : k = a
      · rw [if_pos hk,if_pos hk]
      · rw [if_neg hk,if_neg hk,beq_false_of_ne hk]
    · rw [if_pos (by simpa using hp),List.lookup_cons,List.lookup_cons,ih]
      by_cases hk : k = p.1
      · rw [hk,beq_self_eq_true,if_neg hp]
        exact (if_neg hp).symm
      · rw [beq_false_of_ne hk]

end Lookup

variable {ι κ α : Type} [DecidableEq ι] [DecidableEq κ]

/-- Two maps over the same values, each under its own key of the value. -/
structure DoubleIndex (byId : List (ι × α)) (byName : List (κ × α)) (idOf : α → ι) (nameOf : α → κ) : Prop where
  idNodup : (byId.map Prod.fst).Nodup
  nameNodup : (byName.map Prod.fst).Nodup
  ofId : ∀ x ∈ byId,idOf x.2 = x.1 ∧ (nameOf x.2,x.2) ∈ byName
  ofName : ∀ x ∈ byName,nameOf x.2 = x.1 ∧ (idOf x.2,x.2) ∈ byId

instance [DecidableEq α] (byId : List (ι × α)) (byName : List (κ × α)) (idOf : α → ι) (nameOf : α → κ) :
    Decidable (DoubleIndex byId byName idOf nameOf) :=
  decidable_of_iff ((byId.map Prod.fst).Nodup ∧ (byName.map Prod.fst).Nodup ∧
      (∀ x ∈ byId,idOf x.2 = x.1 ∧ (nameOf x.2,x.2) ∈ byName) ∧
      ∀ x ∈ byName,nameOf x.2 = x.1 ∧ (idOf x.2,x.2) ∈ byId)
    ⟨fun ⟨a,b,c,d⟩ => ⟨a,b,c,d⟩,fun ⟨a,b,c,d⟩ => ⟨a,b,c,d⟩⟩

namespace DoubleIndex
variable {byId : List (ι × α)} {byName : List (κ × α)} {idOf : α → ι} {nameOf : α → κ}

theorem lookup_name (h : DoubleIndex byId byName idOf nameOf) {i : ι} {v : α} (hv : byId.lookup i = some v) :
    idOf v = i ∧ byName.lookup (nameOf v) = some v := by
  obtain ⟨hi,hm⟩ := h.ofId (i,v) (mem_of_lookup_eq_some hv)
  exact ⟨hi,lookup_eq_some_of_mem h.nameNodup hm⟩

theorem lookup_id (h : DoubleIndex byId byName idOf nameOf) {k : κ} {v : α} (hv : byName.lookup k = some v) :
    nameOf v = k ∧ byId.lookup (idOf v) = some v := by
  obtain ⟨hk,hm⟩ := h.ofName (k,v) (mem_of_lookup_eq_some hv)
  exact ⟨hk,lookup_eq_some_of_mem h.idNodup hm⟩

omit [DecidableEq ι] [DecidableEq κ] in
theorem symm (h : DoubleIndex byId byName idOf nameOf) : DoubleIndex byName byId nameOf idOf :=
  ⟨h.nameNodup,h.idNodup,h.ofName,h.ofId⟩

omit [DecidableEq ι] in
theorem nodup_names (h : DoubleIndex byId byName idOf nameOf) : (byId.map fun x => nameOf x.2).Nodup := by
  refine List.Nodup.map_on (fun x hx y hy heq => ?_) (List.Nodup.of_map _ h.idNodup)
  obtain ⟨hxid,hxname⟩ := h.ofId x hx
  obtain ⟨hyid,hyname⟩ := h.ofId y hy
  rw [heq] at hxname
  have hvalue := Option.some.inj ((lookup_eq_some_of_mem h.nameNodup hxname).symm.trans (lookup_eq_some_of_mem h.nameNodup hyname))
  exact Prod.ext (by rw [← hxid,← hyid,hvalue]) hvalue

end DoubleIndex
end SonicPins.Lib
