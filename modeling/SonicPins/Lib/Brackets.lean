import Mathlib.Data.List.Basic

/-! Brackets of several kinds: a stack of the closers to come accepts exactly the lists that are nested. -/
namespace SonicPins.Lib
variable {α : Type}

/-- The item that closes an opening one, and the items that close. None does both. -/
structure Brackets (α : Type) where
  closing : α → Option α
  closes : α → Bool
  closing_closes : ∀ {o c},closing o = some c → closes c = true
  closing_of_closes : ∀ {c},closes c = true → closing c = none

/-- Lists in which every bracket is closed by one of its kind, and those inside of it before. -/
inductive Nested (b : Brackets α) : List α → Prop where
  | nil : Nested b []
  | plain {x : α} {l : List α} : b.closing x = none → b.closes x = false → Nested b l → Nested b (x :: l)
  | wrapped {o c : α} {inner rest : List α} : b.closing o = some c → Nested b inner → Nested b rest →
      Nested b (o :: (inner ++ c :: rest))

section Closing
variable {b : Brackets α} {l rest : List α} {c : α}

theorem Nested.append (h : Nested b l) (hrest : Nested b rest) : Nested b (l ++ rest) := by
  induction h with
  | nil => exact hrest
  | plain hclosing hcloses _ ih => exact .plain hclosing hcloses ih
  | @wrapped o c inner _ hclosing hinner _ _ ih =>
    rw [List.cons_append,List.append_assoc,List.cons_append]
    exact .wrapped hclosing hinner ih

theorem not_nested_of_closes (hc : b.closes c = true) : ¬ Nested b (c :: l) := by
  intro h
  cases h with
  | plain _ hcloses => exact Bool.false_ne_true (hcloses.symm.trans hc)
  | wrapped hclosing => exact absurd hclosing (by rw [b.closing_of_closes hc]; simp)

/-- What the rest of a list looks like while these closers are to come. -/
def Closes (b : Brackets α) : List α → List α → Prop
  | [],l => Nested b l
  | c :: stack,l => ∃ inner rest,l = inner ++ c :: rest ∧ Nested b inner ∧ Closes b stack rest

variable {stack : List α}

theorem Closes.prepend (h : Nested b l) (hrest : Closes b stack rest) : Closes b stack (l ++ rest) := by
  cases stack with
  | nil => exact h.append hrest
  | cons c stack =>
    obtain ⟨inner,after,rfl,hinner,hafter⟩ := hrest
    exact ⟨l ++ inner,after,(List.append_assoc ..).symm,h.append hinner,hafter⟩

theorem closes_cons_of_closes (hc : b.closes c = true) :
    Closes b stack (c :: l) ↔ ∃ stack',stack = c :: stack' ∧ Closes b stack' l := by
  cases stack with
  | nil => exact iff_of_false (not_nested_of_closes hc) (by simp)
  | cons c' stack =>
    constructor
    · rintro ⟨inner,rest,heq,hinner,hrest⟩
      cases inner with
      | nil =>
        obtain ⟨rfl,rfl⟩ := List.cons.inj heq
        exact ⟨stack,rfl,hrest⟩
      | cons x inner =>
        obtain ⟨rfl,-⟩ := List.cons.inj heq
        exact absurd hinner (not_nested_of_closes hc)
    · rintro ⟨stack',heq,hrest⟩
      obtain ⟨rfl,rfl⟩ := List.cons.inj heq
      exact ⟨[],l,rfl,.nil,hrest⟩

theorem closes_cons_of_plain {x : α} (hclosing : b.closing x = none) (hcloses : b.closes x = false)
    (hstack : ∀ c ∈ stack,b.closes c = true) : Closes b stack (x :: l) ↔ Closes b stack l := by
  have hplain : Nested b [x] := .plain hclosing hcloses .nil
  refine ⟨fun h => ?_,fun h => h.prepend hplain⟩
  cases stack with
  | nil =>
    cases h with
    | plain _ _ hl => exact hl
    | wrapped hopens => exact absurd (hclosing.symm.trans hopens) (by simp)
  | cons c stack =>
    obtain ⟨inner,rest,heq,hinner,hrest⟩ := h
    cases inner with
    | nil =>
      obtain ⟨rfl,-⟩ := List.cons.inj heq
      exact absurd (hstack x List.mem_cons_self) (by rw [hcloses]; simp)
    | cons y inner =>
      obtain ⟨rfl,rfl⟩ := List.cons.inj heq
      cases hinner with
      | plain _ _ hinner => exact ⟨inner,rest,rfl,hinner,hrest⟩
      | wrapped hopens => exact absurd (hclosing.symm.trans hopens) (by simp)

theorem closes_cons_of_opens {o : α} (hclosing : b.closing o = some c) (hstack : ∀ c ∈ stack,b.closes c = true) :
    Closes b stack (o :: l) ↔ Closes b (c :: stack) l := by
  have hopens : ∀ {rest},Nested b (o :: rest) → ∃ inner after,rest = inner ++ c :: after ∧ Nested b inner ∧ Nested b after := by
    intro rest h
    cases h with
    | plain hnone => exact absurd (hnone.symm.trans hclosing) (by simp)
    | @wrapped _ c' inner after hsome hinner hafter =>
      obtain rfl : c' = c := Option.some_inj.mp (hsome.symm.trans hclosing)
      exact ⟨inner,after,rfl,hinner,hafter⟩
  constructor
  · intro h
    cases stack with
    | nil => exact hopens h
    | cons d stack =>
      obtain ⟨inner,rest,heq,hinner,hrest⟩ := h
      cases inner with
      | nil =>
        obtain ⟨rfl,-⟩ := List.cons.inj heq
        rw [b.closing_of_closes (hstack o List.mem_cons_self)] at hclosing
        cases hclosing
      | cons y inner =>
        obtain ⟨rfl,rfl⟩ := List.cons.inj heq
        obtain ⟨first,second,rfl,hfirst,hsecond⟩ := hopens hinner
        exact ⟨first,second ++ d :: rest,List.append_assoc first (c :: second) (d :: rest),hfirst,second,rest,rfl,hsecond,hrest⟩
  · rintro ⟨inner,rest,rfl,hinner,hrest⟩
    have hwrapped : Nested b (o :: (inner ++ [c])) := .wrapped hclosing hinner .nil
    have hall := hrest.prepend hwrapped
    rw [List.cons_append,List.append_assoc,List.singleton_append] at hall
    exact hall

end Closing

variable [DecidableEq α] {b : Brackets α}

/-- One item against the closers to come. -/
def Brackets.step (b : Brackets α) (stack : List α) (x : α) : Option (List α) :=
  if stack.head? = some x then some stack.tail
  else match b.closing x with
    | some c => some (c :: stack)
    | none => if b.closes x then none else some stack

theorem Brackets.step_closes {stack stack' : List α} {x : α} (h : b.step stack x = some stack')
    (hstack : ∀ c ∈ stack,b.closes c = true) : ∀ c ∈ stack',b.closes c = true := by
  unfold Brackets.step at h
  by_cases hhead : stack.head? = some x
  · rw [if_pos hhead] at h
    cases h
    exact fun c hc => hstack c (List.mem_of_mem_tail hc)
  · rw [if_neg hhead] at h
    cases hclosing : b.closing x with
    | some c =>
      rw [hclosing] at h
      cases h
      exact List.forall_mem_cons.mpr ⟨b.closing_closes hclosing,hstack⟩
    | none =>
      rw [hclosing] at h
      simp only [Option.ite_none_left_eq_some] at h
      exact Option.some_inj.mp h.2 ▸ hstack

theorem foldlM_step_eq_nil_iff {stack : List α} (hstack : ∀ c ∈ stack,b.closes c = true) (l : List α) :
    l.foldlM b.step stack = some [] ↔ Closes b stack l := by
  induction l generalizing stack with
  | nil =>
    cases stack with
    | nil => exact iff_of_true rfl .nil
    | cons c stack => exact iff_of_false (by simp) (by simp [Closes])
  | cons x l ih =>
    rw [List.foldlM_cons]
    by_cases hcloses : b.closes x = true
    · rw [closes_cons_of_closes hcloses]
      by_cases hhead : stack.head? = some x
      · obtain ⟨stack',rfl⟩ := List.head?_eq_some_iff.mp hhead
        rw [Brackets.step,if_pos hhead]
        refine (ih fun c hc => hstack c (List.mem_cons_of_mem x hc)).trans ⟨fun h => ⟨stack',rfl,h⟩,?_⟩
        rintro ⟨stack'',heq,h⟩
        exact (List.cons.inj heq).2 ▸ h
      · rw [Brackets.step,if_neg hhead,b.closing_of_closes hcloses]
        refine iff_of_false (by simp [hcloses]) ?_
        rintro ⟨stack',rfl,-⟩
        exact hhead rfl
    · have hhead : stack.head? ≠ some x := fun h => hcloses (hstack x (List.mem_of_head? h))
      rw [Brackets.step,if_neg hhead]
      cases hclosing : b.closing x with
      | some c =>
        rw [closes_cons_of_opens hclosing hstack]
        exact ih (List.forall_mem_cons.mpr ⟨b.closing_closes hclosing,hstack⟩)
      | none =>
        rw [closes_cons_of_plain hclosing (Bool.eq_false_iff.mpr hcloses) hstack]
        simp only [if_neg hcloses]
        exact ih hstack

theorem nested_iff (l : List α) : l.foldlM b.step [] = some [] ↔ Nested b l := foldlM_step_eq_nil_iff (by simp) l

end SonicPins.Lib
