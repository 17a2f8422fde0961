import SonicPins.Lib.JsonTree
import SonicPins.Lib.SetMatching
import SonicPins.Lib.SortedMap
import SonicPins.Lib.Status
import Mathlib.Data.String.Basic

/-! JSON documents up to the order of their elements and members. -/
namespace SonicPins.Lib.JsonTree
variable {σ : Type} {same : σ → σ → Prop}

/-- One document can be turned into the other by permuting elements and members at any depth
and exchanging scalars that are the same. -/
inductive UpToOrder (same : σ → σ → Prop) : JsonTree σ → JsonTree σ → Prop
  | null : UpToOrder same .null .null
  | scalar {s t : σ} (h : same s t) : UpToOrder same (.scalar s) (.scalar t)
  | arr {pairs : List (JsonTree σ × JsonTree σ)} {ys : List (JsonTree σ)} (h : ∀ p ∈ pairs,UpToOrder same p.1 p.2)
      (hperm : (pairs.map Prod.snd).Perm ys) : UpToOrder same (.arr (pairs.map Prod.fst)) (.arr ys)
  | obj {pairs : List (String × JsonTree σ × JsonTree σ)} {n : List (String × JsonTree σ)}
      (h : ∀ p ∈ pairs,UpToOrder same p.2.1 p.2.2) (hperm : (pairs.map fun p => (p.1,p.2.2)).Perm n) :
      UpToOrder same (.obj (pairs.map fun p => (p.1,p.2.1))) (.obj n)

theorem upToOrder_scalar {s t : σ} : UpToOrder same (.scalar s) (.scalar t) ↔ same s t := by
  constructor
  · intro h
    cases h with
    | scalar h => exact h
  · exact .scalar

theorem upToOrder_arr {xs ys : List (JsonTree σ)} :
    UpToOrder same (.arr xs) (.arr ys) ↔ EqUpToOrder (UpToOrder same) xs ys := by
  constructor
  · intro h
    cases h with
    | @arr pairs _ h hperm =>
      refine ⟨pairs.map Prod.snd,?_,hperm⟩
      rw [List.forall₂_map_left_iff,List.forall₂_map_right_iff]
      exact List.forall₂_same.mpr h
  · rintro ⟨l,hl,hperm⟩
    have hlength := hl.length_eq
    have hpairs : UpToOrder same (.arr ((xs.zip l).map Prod.fst)) (.arr ys) := by
      apply UpToOrder.arr
      · intro p hp
        exact (List.forall₂_iff_zip.mp hl).2 hp
      · rw [List.map_snd_zip hlength.ge]
        exact hperm
    rwa [List.map_fst_zip hlength.le] at hpairs

theorem upToOrder_obj {m n : List (String × JsonTree σ)} :
    UpToOrder same (.obj m) (.obj n) ↔ EqUpToOrder (fun p q => p.1 = q.1 ∧ UpToOrder same p.2 q.2) m n := by
  constructor
  · intro h
    cases h with
    | @obj pairs _ h hperm =>
      refine ⟨pairs.map fun p => (p.1,p.2.2),?_,hperm⟩
      rw [List.forall₂_map_left_iff,List.forall₂_map_right_iff]
      exact List.forall₂_same.mpr fun p hp => ⟨rfl,h p hp⟩
  · rintro ⟨l,hl,hperm⟩
    let pairs := (m.zip l).map fun p => (p.1.1,p.1.2,p.2.2)
    have hnames : ∀ p ∈ m.zip l,p.1.1 = p.2.1 ∧ UpToOrder same p.1.2 p.2.2 := fun p hp => (List.forall₂_iff_zip.mp hl).2 hp
    have hleft : (pairs.map fun p => (p.1,p.2.1)) = m := by
      rw [List.map_map]
      exact List.map_fst_zip hl.length_eq.le
    have hright : (pairs.map fun p => (p.1,p.2.2)) = l := by
      calc
        (pairs.map fun p => (p.1,p.2.2)) = (m.zip l).map Prod.snd := by
          rw [List.map_map]
          apply List.map_congr_left
          intro p hp
          exact Prod.ext (hnames p hp).1 rfl
        _ = l := List.map_snd_zip hl.length_eq.ge
    have hpairs : UpToOrder same (.obj (pairs.map fun p => (p.1,p.2.1))) (.obj n) := by
      apply UpToOrder.obj
      · intro p hp
        obtain ⟨q,hq,rfl⟩ := List.mem_map.mp hp
        exact (hnames q hq).2
      · rw [hright]
        exact hperm
    rwa [hleft] at hpairs

theorem upToOrder_refl (hsame : Equivalence same) (j : JsonTree σ) : UpToOrder same j j := by
  induction j using JsonTree.induct with
  | null => exact .null
  | scalar s => exact .scalar (hsame.refl s)
  | arr xs ih => exact upToOrder_arr.mpr ⟨xs,List.forall₂_same.mpr ih,.refl _⟩
  | obj m ih => exact upToOrder_obj.mpr ⟨m,List.forall₂_same.mpr fun p hp => ⟨rfl,ih p hp⟩,.refl _⟩

theorem UpToOrder.symm (hsame : Equivalence same) {v w : JsonTree σ} (h : UpToOrder same v w) :
    UpToOrder same w v := by
  induction v using JsonTree.induct generalizing w with
  | null =>
    cases h
    exact .null
  | scalar s =>
    cases h with
    | scalar h => exact .scalar (hsame.symm h)
  | arr xs ih =>
    cases w with
    | arr ys => exact upToOrder_arr.mpr ((upToOrder_arr.mp h).symm fun x hx y hxy => ih x hx hxy)
    | _ => cases h
  | obj m ih =>
    cases w with
    | obj n => exact upToOrder_obj.mpr ((upToOrder_obj.mp h).symm fun p hp q hpq => ⟨hpq.1.symm,ih p hp hpq.2⟩)
    | _ => cases h

theorem UpToOrder.trans (hsame : Equivalence same) {u v w : JsonTree σ} (h : UpToOrder same u v)
    (h' : UpToOrder same v w) : UpToOrder same u w := by
  induction u using JsonTree.induct generalizing v w with
  | null =>
    cases h
    exact h'
  | scalar s =>
    cases h with
    | scalar h =>
      cases h' with
      | scalar h' => exact .scalar (hsame.trans h h')
  | arr xs ih =>
    cases v with
    | arr ys =>
      cases w with
      | arr zs =>
        exact upToOrder_arr.mpr ((upToOrder_arr.mp h).trans (upToOrder_arr.mp h') fun x hx y z hxy hyz => ih x hx hxy hyz)
      | _ => cases h'
    | _ => cases h
  | obj m ih =>
    cases v with
    | obj n =>
      cases w with
      | obj l =>
        refine upToOrder_obj.mpr ((upToOrder_obj.mp h).trans (upToOrder_obj.mp h') fun p hp q r hpq hqr => ?_)
        exact ⟨hpq.1.trans hqr.1,ih p hp hpq.2 hqr.2⟩
      | _ => cases h'
    | _ => cases h

theorem upToOrder_equivalence (hsame : Equivalence same) : Equivalence (UpToOrder same) :=
  ⟨upToOrder_refl hsame,fun h => h.symm hsame,fun h h' => h.trans hsame h'⟩

theorem upToOrder_obj_iff {m n : List (String × JsonTree σ)} (hm : Ordered m) (hn : Ordered n) :
    UpToOrder same (.obj m) (.obj n) ↔ m.length = n.length ∧ ∀ p ∈ m,∃ y,n.lookup p.1 = some y ∧ UpToOrder same p.2 y := by
  rw [upToOrder_obj]
  constructor
  · intro h
    refine ⟨h.length_eq,fun p hp => ?_⟩
    obtain ⟨l,hl,hperm⟩ := h
    obtain ⟨q,hq,hname,hsame⟩ := exists_of_forall₂_left hl hp
    refine ⟨q.2,?_,hsame⟩
    rw [hname]
    exact hn.lookup_eq_some.mpr (hperm.subset hq)
  · rintro ⟨hlength,hvalues⟩
    have hsubset : m.map Prod.fst ⊆ n.map Prod.fst := by
      intro k hk
      obtain ⟨p,hp,rfl⟩ := List.mem_map.mp hk
      obtain ⟨y,hy,-⟩ := hvalues p hp
      exact List.mem_map.mpr ⟨_,mem_of_lookup_eq_some hy,rfl⟩
    have hperm : (m.map Prod.fst).Perm (n.map Prod.fst) := by
      refine (List.subperm_of_subset hm.nodupKeys hsubset).perm_of_length_le ?_
      rw [List.length_map,List.length_map]
      exact hlength.ge
    refine eqUpToOrder_of_keys hm.nodupKeys hn.nodupKeys (fun k => hperm.mem_iff) fun p hp q hq hname => ⟨hname,?_⟩
    obtain ⟨y,hy,hsame⟩ := hvalues p hp
    rw [hname,hn.lookup_eq_some.mpr hq] at hy
    rwa [Option.some.inj hy]

end SonicPins.Lib.JsonTree
