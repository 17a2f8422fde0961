import Mathlib.Data.List.Forall2
import Mathlib.Data.List.Perm.Basic
import SonicPins.Lib.KeyedUnion

/-! Lists compared as sets: each item is matched to one of its own, in any order. -/
namespace SonicPins.Lib
variable {α β : Type}

/-- Each item in turn takes the first item of the other list that is the same. -/
def sameAsSet (same : α → α → Bool) : List α → List α → Bool
  | [],ys => ys.isEmpty
  | x :: xs,ys => ys.any (same x) && sameAsSet same xs (ys.eraseP (same x))

variable {xs ys : List α}

theorem eqUpToOrder_eq_iff : EqUpToOrder Eq xs ys ↔ xs.Perm ys := by
  constructor
  · rintro ⟨l,hl,hperm⟩
    rw [List.forall₂_eq_eq_eq] at hl
    exact hl ▸ hperm
  · exact fun h => ⟨xs,List.forall₂_refl xs,h⟩

theorem eqUpToOrder_iff_classes (s : Setoid α) :
    EqUpToOrder s.r xs ys ↔ (xs.map (Quotient.mk s)).Perm (ys.map (Quotient.mk s)) := by
  have hclasses : ∀ l,List.Forall₂ s.r xs l ↔ xs.map (Quotient.mk s) = l.map (Quotient.mk s) := fun l => by
    rw [← List.forall₂_eq_eq_eq,List.forall₂_map_left_iff,List.forall₂_map_right_iff]
    exact ⟨fun h => h.imp fun _ _ => Quotient.sound,fun h => h.imp fun _ _ => Quotient.exact⟩
  constructor
  · rintro ⟨l,hl,hperm⟩
    rw [(hclasses l).mp hl]
    exact hperm.map _
  · intro h
    obtain ⟨l,hl,hperm⟩ : Relation.Comp (fun m l => m = List.map (Quotient.mk s) l) List.Perm (xs.map (Quotient.mk s)) ys := by
      rw [List.eq_map_comp_perm]
      exact h
    exact ⟨l,(hclasses l).mpr hl,hperm⟩

theorem EqUpToOrder.transfer {R : α → β → Prop} {Same : α → α → Prop} {Same' : β → β → Prop} {ps qs : List β}
    (hstep : ∀ a b p q,Same a b → R a p → R b q → Same' p q) (h : EqUpToOrder Same xs ys) (hps : List.Forall₂ R xs ps)
    (hqs : List.Forall₂ R ys qs) : EqUpToOrder Same' ps qs := by
  obtain ⟨l,hl,hperm⟩ := h
  obtain ⟨rs,hrs,hrsperm⟩ := List.perm_comp_forall₂ hperm hqs
  refine ⟨rs,?_,hrsperm⟩
  clear hqs hperm hrsperm
  induction hl generalizing ps rs with
  | nil =>
    cases hps
    cases hrs
    exact .nil
  | @cons a b xs l hab _ ih =>
    cases hps with
    | cons hap hps =>
      cases hrs with
      | cons hbr hrs => exact .cons (hstep _ _ _ _ hab hap hbr) (ih hps _ hrs)

theorem forall₂_imp_mem {R S : α → β → Prop} {l : List α} {l' : List β} (h : List.Forall₂ R l l')
    (hRS : ∀ x ∈ l,∀ y,R x y → S x y) : List.Forall₂ S l l' := by
  induction h with
  | nil => exact .nil
  | cons hxy _ ih => exact .cons (hRS _ List.mem_cons_self _ hxy) (ih fun x hx => hRS x (List.mem_cons_of_mem _ hx))

theorem EqUpToOrder.symm {R S : α → α → Prop} (h : EqUpToOrder R xs ys) (hRS : ∀ x ∈ xs,∀ y,R x y → S y x) :
    EqUpToOrder S ys xs := by
  obtain ⟨l,hl,hperm⟩ := h
  have hflip := List.Forall₂.flip (forall₂_imp_mem (S := fun x y => S y x) hl hRS)
  obtain ⟨l',hl',hperm'⟩ := List.perm_comp_forall₂ hperm.symm hflip
  exact ⟨l',hl',hperm'⟩

theorem EqUpToOrder.trans {R S T : α → α → Prop} {zs : List α} (h : EqUpToOrder R xs ys) (h' : EqUpToOrder S ys zs)
    (hRST : ∀ x ∈ xs,∀ y z,R x y → S y z → T x z) : EqUpToOrder T xs zs := by
  obtain ⟨l,hl,hperm⟩ := h
  obtain ⟨l',hl',hperm'⟩ := h'
  obtain ⟨k,hk,hkperm⟩ := List.perm_comp_forall₂ hperm hl'
  refine ⟨k,?_,hkperm.trans hperm'⟩
  clear hperm hl' hkperm hperm'
  induction hl generalizing k with
  | nil =>
    cases hk
    exact .nil
  | cons hxy _ ih =>
    cases hk with
    | cons hyz hk => exact .cons (hRST _ List.mem_cons_self _ _ hxy hyz) (ih (fun x hx => hRST x (List.mem_cons_of_mem _ hx)) _ hk)

theorem EqUpToOrder.length_eq {R : α → α → Prop} (h : EqUpToOrder R xs ys) : xs.length = ys.length := by
  obtain ⟨l,hl,hperm⟩ := h
  rw [hl.length_eq,hperm.length_eq]

theorem eqUpToOrder_of_sameAsSet {same : α → α → Bool} (h : sameAsSet same xs ys = true) :
    EqUpToOrder (fun a b => same a b = true) xs ys := by
  induction xs generalizing ys with
  | nil => exact ⟨[],.nil,by rw [List.isEmpty_iff.mp h]⟩
  | cons x xs ih =>
    rw [sameAsSet,Bool.and_eq_true] at h
    obtain ⟨y,hy,hxy⟩ := List.any_eq_true.mp h.1
    obtain ⟨z,before,after,-,hxz,rfl,herase⟩ := List.exists_of_eraseP hy hxy
    obtain ⟨l,hl,hperm⟩ := ih h.2
    rw [herase] at hperm
    exact ⟨z :: l,.cons hxz hl,(hperm.cons z).trans List.perm_middle.symm⟩

theorem sameAsSet_iff (s : Setoid α) {same : α → α → Bool} (hsame : ∀ a b,same a b = true ↔ s.r a b) :
    sameAsSet same xs ys = true ↔ EqUpToOrder s.r xs ys := by
  constructor
  · intro h
    obtain ⟨l,hl,hperm⟩ := eqUpToOrder_of_sameAsSet h
    exact ⟨l,hl.imp fun a b => (hsame a b).mp,hperm⟩
  · rw [eqUpToOrder_iff_classes]
    intro hperm
    induction xs generalizing ys with
    | nil => simpa [sameAsSet,List.isEmpty_iff,List.nil_perm] using hperm
    | cons x xs ih =>
      rw [List.map_cons] at hperm
      obtain ⟨y,hy,hclass⟩ := List.mem_map.mp (hperm.subset List.mem_cons_self)
      have hxy : same x y = true := (hsame x y).mpr (Quotient.exact hclass.symm)
      obtain ⟨z,before,after,-,hxz,rfl,herase⟩ := List.exists_of_eraseP hy hxy
      have hclass' : Quotient.mk s x = Quotient.mk s z := Quotient.sound ((hsame x z).mp hxz)
      rw [sameAsSet,Bool.and_eq_true,herase]
      rw [hclass'] at hperm
      exact ⟨List.any_eq_true.mpr ⟨y,hy,hxy⟩,ih (List.Perm.cons_inv (hperm.trans (List.perm_middle.map (Quotient.mk s))))⟩

theorem sameAsSet_eq_iff [DecidableEq α] : sameAsSet (fun a b => decide (a = b)) xs ys = true ↔ xs.Perm ys := by
  rw [← eqUpToOrder_eq_iff]
  exact sameAsSet_iff ⟨Eq,eq_equivalence⟩ fun a b => decide_eq_true_iff

end SonicPins.Lib
