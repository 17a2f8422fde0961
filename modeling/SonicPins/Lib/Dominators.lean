import Mathlib.Data.List.Forall2
import Mathlib.Data.List.Infix
import Mathlib.Data.List.Perm.Basic
import Mathlib.Logic.Relation
import Mathlib.Order.WellFoundedSet

/-! Dominators of the nodes of an acyclic flow graph, and the chains that longest common
prefixes make of them. -/
namespace SonicPins.Lib
variable {ν : Type}

section Paths
variable (edge : ν → ν → Prop) (entry : ν → Prop)

/-- The nodes of a path from an entry to a node. -/
inductive PathTo : ν → List ν → Prop
  | entry {n : ν} (h : entry n) : PathTo n [n]
  | step {m n : ν} {l : List ν} (p : PathTo m l) (h : edge m n) : PathTo n (l ++ [n])

/-- Every path to the node goes through the other. -/
def Dominates (d n : ν) : Prop := ∀ l,PathTo edge entry n l → d ∈ l

/-- The dominators that some nodes share, each before those that it dominates. -/
structure IsCommonChain (ns l : List ν) : Prop where
  mem : ∀ d,d ∈ l ↔ ∀ n ∈ ns,Dominates edge entry d n
  ordered : l.Pairwise fun a b => a ≠ b ∧ Dominates edge entry a b

/-- The dominators of a node, in their order. -/
def IsDominatorChain (n : ν) (l : List ν) : Prop := IsCommonChain edge entry [n] l

/-- The last of the other dominators of a node. -/
structure ImmediateDominator (d n : ν) : Prop where
  dominates : Dominates edge entry d n
  ne : d ≠ n
  last : ∀ a,Dominates edge entry a n → a ≠ n → Dominates edge entry a d

def HaveCommonDominator (m n : ν) : Prop := ∃ d,Dominates edge entry d m ∧ Dominates edge entry d n

variable {edge entry} {a b d m n : ν} {l : List ν}

theorem PathTo.self_mem (p : PathTo edge entry n l) : n ∈ l := by
  cases p <;> simp

theorem PathTo.upTo (p : PathTo edge entry n l) (hd : d ∈ l) : ∃ l',PathTo edge entry d l' ∧ ∀ x ∈ l',x ∈ l := by
  induction p with
  | entry h =>
    rw [List.mem_singleton] at hd
    subst hd
    exact ⟨_,.entry h,fun _ hx => hx⟩
  | @step m n l p h ih =>
    rcases List.mem_append.mp hd with hd | hd
    · obtain ⟨l',p',hsub⟩ := ih hd
      exact ⟨l',p',fun x hx => List.mem_append_left _ (hsub x hx)⟩
    · rw [List.mem_singleton] at hd
      subst hd
      exact ⟨_,.step p h,fun _ hx => hx⟩

theorem PathTo.leads (p : PathTo edge entry n l) (hd : d ∈ l) : d = n ∨ Relation.TransGen edge d n := by
  induction p with
  | entry h => exact .inl (List.mem_singleton.mp hd)
  | @step m n l p h ih =>
    rcases List.mem_append.mp hd with hd | hd
    · rcases ih hd with rfl | hleads
      · exact .inr (.single h)
      · exact .inr (hleads.tail h)
    · exact .inl (List.mem_singleton.mp hd)

theorem dominates_self (n : ν) : Dominates edge entry n n := fun _ p => p.self_mem

theorem Dominates.trans (hab : Dominates edge entry a b) (hbn : Dominates edge entry b n) : Dominates edge entry a n := by
  intro l p
  obtain ⟨l',p',hsub⟩ := p.upTo (hbn l p)
  exact hsub a (hab l' p')

theorem dominates_iff : Dominates edge entry d n ↔ d = n ∨ (¬ entry n ∧ ∀ m,edge m n → Dominates edge entry d m) := by
  constructor
  · intro h
    by_cases hd : d = n
    · exact .inl hd
    · refine .inr ⟨fun hentry => hd (List.mem_singleton.mp (h _ (.entry hentry))),fun m hm l p => ?_⟩
      exact (List.mem_append.mp (h _ (.step p hm))).resolve_right (by simpa using hd)
  · rintro (rfl | ⟨hentry,h⟩) l p
    · exact p.self_mem
    · cases p with
      | entry hn => exact absurd hn hentry
      | step p hm => exact List.mem_append_left _ (h _ hm _ p)

end Paths

section Acyclic
variable {edge : ν → ν → Prop} {entry : ν → Prop}

theorem wellFounded_of_acyclic {nodes : Set ν} (hfinite : nodes.Finite) (hnodes : ∀ a b,edge a b → a ∈ nodes ∧ b ∈ nodes)
    (hacyclic : ∀ n,¬ Relation.TransGen edge n n) : WellFounded edge := by
  have hstrict : IsStrictOrder ν (Relation.TransGen edge) :=
    { irrefl := hacyclic
      trans := fun _ _ _ => Relation.TransGen.trans }
  have hon := hfinite.wellFoundedOn (r := Relation.TransGen edge)
  rw [Set.wellFoundedOn_iff] at hon
  exact Subrelation.wf (fun {a b} h => ⟨.single h,hnodes a b h⟩) hon

variable (hwf : WellFounded edge)
include hwf

theorem not_cyclic (n : ν) : ¬ Relation.TransGen edge n n := fun h => hwf.transGen.irrefl.irrefl n h

theorem Dominates.antisymm {a b : ν} {l : List ν} (ha : PathTo edge entry a l) (hab : Dominates edge entry a b)
    (hba : Dominates edge entry b a) : a = b := by
  obtain ⟨l',hb,-⟩ := ha.upTo (hba l ha)
  rcases hb.leads (hab l' hb) with heq | hleads
  · exact heq
  · rcases ha.leads (hba l ha) with heq | hback
    · exact heq.symm
    · exact absurd (hleads.trans hback) (not_cyclic hwf a)

theorem not_dominates_of_edge {m n : ν} {l : List ν} (hm : PathTo edge entry m l) (h : edge m n) :
    ¬ Dominates edge entry n m := by
  intro hdom
  rcases hm.leads (hdom l hm) with rfl | hleads
  · exact not_cyclic hwf _ (.single h)
  · exact not_cyclic hwf _ (hleads.tail h)

theorem IsCommonChain.unique {ns l l' : List ν} {n : ν} {path : List ν} (hn : n ∈ ns) (hpath : PathTo edge entry n path)
    (h : IsCommonChain edge entry ns l) (h' : IsCommonChain edge entry ns l') : l = l' := by
  have hperm : l.Perm l' := by
    refine (List.perm_ext_iff_of_nodup (h.ordered.imp And.left) (h'.ordered.imp And.left)).mpr fun d => ?_
    rw [h.mem,h'.mem]
  refine hperm.eq_of_pairwise (fun a b ha _ hab hba => ?_) h.ordered h'.ordered
  obtain ⟨path',hpath',-⟩ := hpath.upTo ((h.mem a).mp ha n hn path hpath)
  exact hab.2.antisymm hwf hpath' hba.2

theorem IsCommonChain.upTo {ns before after : List ν} {n d : ν} {path : List ν} (hn : n ∈ ns) (hpath : PathTo edge entry n path)
    (h : IsCommonChain edge entry ns (before ++ d :: after)) : IsDominatorChain edge entry d (before ++ [d]) := by
  have hd := (h.mem d).mp (by simp)
  obtain ⟨-,hright,hcross⟩ := List.pairwise_append.mp h.ordered
  constructor
  · intro x
    rw [List.forall_mem_singleton]
    constructor
    · intro hx
      rcases List.mem_append.mp hx with hx | hx
      · exact (hcross x hx d List.mem_cons_self).2
      · rw [List.mem_singleton.mp hx]
        exact dominates_self d
    · intro hx
      have hmem := (h.mem x).mpr fun m hm => hx.trans (hd m hm)
      rcases List.mem_append.mp hmem with hmem | hmem
      · exact List.mem_append_left _ hmem
      · rcases List.mem_cons.mp hmem with rfl | hmem
        · simp
        · -- what comes after `d` does not dominate it
          obtain ⟨hne,hdx⟩ := (List.pairwise_cons.mp hright).1 x hmem
          obtain ⟨path',hpath',-⟩ := hpath.upTo (hd n hn path hpath)
          exact absurd (hdx.antisymm hwf hpath' hx) hne
  · refine h.ordered.sublist ?_
    simp

end Acyclic

section Prefixes
variable [DecidableEq ν]

/-- The items at which two lists agree from their start. -/
def longestCommonPrefix : List ν → List ν → List ν
  | x :: xs,y :: ys => if x = y then x :: longestCommonPrefix xs ys else []
  | _,_ => []

theorem longestCommonPrefix_cons (x y : ν) (xs ys : List ν) :
    longestCommonPrefix (x :: xs) (y :: ys) = if x = y then x :: longestCommonPrefix xs ys else [] := rfl

theorem longestCommonPrefix_left (l r : List ν) : longestCommonPrefix l r <+: l := by
  induction l generalizing r with
  | nil => exact List.nil_prefix
  | cons x xs ih =>
    cases r with
    | nil => exact List.nil_prefix
    | cons y ys =>
      rw [longestCommonPrefix_cons]
      split_ifs
      · exact (List.prefix_cons_inj x).mpr (ih ys)
      · exact List.nil_prefix

theorem longestCommonPrefix_right (l r : List ν) : longestCommonPrefix l r <+: r := by
  induction l generalizing r with
  | nil => exact List.nil_prefix
  | cons x xs ih =>
    cases r with
    | nil => exact List.nil_prefix
    | cons y ys =>
      rw [longestCommonPrefix_cons]
      split_ifs with heq
      · rw [heq]
        exact (List.prefix_cons_inj y).mpr (ih ys)
      · exact List.nil_prefix

theorem prefix_longestCommonPrefix {p l r : List ν} (hl : p <+: l) (hr : p <+: r) : p <+: longestCommonPrefix l r := by
  induction p generalizing l r with
  | nil => exact List.nil_prefix
  | cons x p ih =>
    obtain ⟨l,rfl⟩ := hl
    obtain ⟨r,rfl⟩ := hr
    rw [List.cons_append,List.cons_append,longestCommonPrefix_cons,if_pos rfl]
    exact (List.prefix_cons_inj x).mpr (ih (List.prefix_append p l) (List.prefix_append p r))

/-- A path taken into account; an empty one is taken for none so far. -/
def contract (path next : List ν) : List ν := if path.isEmpty then next else longestCommonPrefix path next

theorem mem_foldl_contract {cs : List (List ν)} {l : List ν} {x : ν} (h : x ∈ cs.foldl contract l) :
    x ∈ l ∨ ∃ c ∈ cs,x ∈ c := by
  induction cs generalizing l with
  | nil => exact .inl h
  | cons c cs ih =>
    rcases ih h with h | ⟨c',hc',h⟩
    · unfold contract at h
      split_ifs at h
      · exact .inr ⟨c,List.mem_cons_self,h⟩
      · exact .inl ((longestCommonPrefix_left l c).subset h)
    · exact .inr ⟨c',List.mem_cons_of_mem c hc',h⟩

/-- The nodes, in their order, fall into runs: each starts with a node, goes on with nodes that
are related to it, and ends with one that is not. -/
inductive CancelsOut (related : ν → ν → Prop) : List ν → Prop
  | nil : CancelsOut related []
  | run {first last : ν} {kept rest : List ν} (hkept : ∀ k ∈ kept,related first k) (hlast : ¬ related first last)
      (hrest : CancelsOut related rest) : CancelsOut related (first :: (kept ++ last :: rest))

end Prefixes

section Contraction
variable [DecidableEq ν] {edge : ν → ν → Prop} {entry : ν → Prop} (hwf : WellFounded edge) {m n : ν} {ns l c path path' : List ν}
include hwf

theorem IsCommonChain.longestCommonPrefix (hm : m ∈ ns) (hmpath : PathTo edge entry m path) (hnpath : PathTo edge entry n path')
    (h : IsCommonChain edge entry ns l) (hc : IsDominatorChain edge entry n c) :
    IsCommonChain edge entry (n :: ns) (longestCommonPrefix l c) := by
  constructor
  · intro d
    rw [List.forall_mem_cons]
    constructor
    · intro hd
      exact ⟨(hc.mem d).mp ((longestCommonPrefix_right l c).subset hd) n (by simp),
        (h.mem d).mp ((longestCommonPrefix_left l c).subset hd)⟩
    · rintro ⟨hdn,hdns⟩
      -- both chains start with the chain of `d`
      obtain ⟨before,after,rfl⟩ := List.append_of_mem ((h.mem d).mpr hdns)
      obtain ⟨before',after',rfl⟩ := List.append_of_mem ((hc.mem d).mpr (by simpa using hdn))
      have hchain := h.upTo hwf hm hmpath
      have hchain' := hc.upTo hwf List.mem_cons_self hnpath
      obtain ⟨dpath,hdpath,-⟩ := hnpath.upTo (hdn path' hnpath)
      have heq := hchain.unique hwf List.mem_cons_self hdpath hchain'
      have hleft : before ++ [d] <+: before ++ d :: after := ⟨after,by simp⟩
      have hright : before ++ [d] <+: before' ++ d :: after' := by
        rw [heq]
        exact ⟨after',by simp⟩
      exact (prefix_longestCommonPrefix hleft hright).subset (by simp)
  · exact h.ordered.sublist (longestCommonPrefix_left l c).sublist

theorem longestCommonPrefix_ne_nil {b : ν} {cb : List ν} (hb : b ∈ ns) (hbpath : PathTo edge entry b path)
    (hcb : IsDominatorChain edge entry b cb) (hnpath : PathTo edge entry n path') (h : IsCommonChain edge entry ns l)
    (hl : l ≠ []) (hc : IsDominatorChain edge entry n c) :
    longestCommonPrefix l c ≠ [] ↔ HaveCommonDominator edge entry b n := by
  have hcommon := h.longestCommonPrefix hwf hb hbpath hnpath hc
  constructor
  · intro hne
    obtain ⟨d,hd⟩ := List.exists_mem_of_ne_nil _ hne
    have hall := (hcommon.mem d).mp hd
    exact ⟨d,hall b (List.mem_cons_of_mem _ hb),hall n List.mem_cons_self⟩
  · rintro ⟨d,hdb,hdn⟩
    -- the first node of the chain dominates `d`
    obtain ⟨h₀,rest,rfl⟩ := List.exists_cons_of_ne_nil hl
    have hfirst : IsDominatorChain edge entry h₀ [h₀] :=
      (show IsCommonChain edge entry ns ([] ++ h₀ :: rest) from h).upTo hwf hb hbpath
    have hh₀b := (h.mem h₀).mp List.mem_cons_self b hb
    obtain ⟨before,after,rfl⟩ := List.append_of_mem ((hcb.mem h₀).mpr (by simpa using hh₀b))
    obtain ⟨hpath₀,hhpath₀,-⟩ := hbpath.upTo (hh₀b path hbpath)
    have hbefore : before ++ [h₀] = [h₀] :=
      (hcb.upTo hwf List.mem_cons_self hbpath).unique hwf List.mem_cons_self hhpath₀ hfirst
    obtain rfl : before = [] := by simpa using hbefore
    have hdmem : d ∈ h₀ :: after := (hcb.mem d).mpr (by simpa using hdb)
    have hh₀d : Dominates edge entry h₀ d := by
      rcases List.mem_cons.mp hdmem with rfl | hdmem
      · exact dominates_self d
      · exact ((List.pairwise_cons.mp hcb.ordered).1 d hdmem).2
    have hmem : h₀ ∈ Lib.longestCommonPrefix (h₀ :: rest) c := by
      rw [hcommon.mem,List.forall_mem_cons]
      exact ⟨hh₀d.trans hdn,(h.mem h₀).mp List.mem_cons_self⟩
    exact List.ne_nil_of_mem hmem

/-- The contraction of chains, from a chain that some nodes share, is empty exactly when a
node that has no dominator in common with them ends the run, and the rest cancels out. -/
theorem contract_eq_nil_iff {ps : List ν} {cs : List (List ν)} (hreached : ∀ p ∈ ps,∃ path,PathTo edge entry p path)
    (hcs : List.Forall₂ (IsDominatorChain edge entry) ps cs) :
    (cs.foldl contract [] = [] ↔ CancelsOut (HaveCommonDominator edge entry) ps) ∧
    ∀ {b : ν} {cb l : List ν} {ns path : List ν},b ∈ ns → PathTo edge entry b path → IsDominatorChain edge entry b cb →
      IsCommonChain edge entry ns l → l ≠ [] → (cs.foldl contract l = [] ↔ ∃ kept last rest,ps = kept ++ last :: rest ∧
        (∀ k ∈ kept,HaveCommonDominator edge entry b k) ∧ ¬ HaveCommonDominator edge entry b last ∧
        CancelsOut (HaveCommonDominator edge entry) rest) := by
  induction hcs with
  | nil =>
    refine ⟨iff_of_true rfl .nil,fun _ _ _ _ hl => iff_of_false hl ?_⟩
    rintro ⟨kept,last,rest,heq,-⟩
    simp at heq
  | @cons p c ps cs hpc hcs ih =>
    obtain ⟨⟨ppath,hppath⟩,hrest⟩ := List.forall_mem_cons.mp hreached
    obtain ⟨hempty,hrun⟩ := ih hrest
    constructor
    · have hne : c ≠ [] := List.ne_nil_of_mem ((hpc.mem p).mpr (by simpa using dominates_self p))
      have hstart : contract [] c = c := rfl
      rw [List.foldl_cons,hstart,hrun List.mem_cons_self hppath hpc hpc hne]
      constructor
      · rintro ⟨kept,last,rest,rfl,hkept,hlast,hcancels⟩
        exact .run hkept hlast hcancels
      · intro h
        generalize hps : p :: ps = whole at h
        cases h with
        | nil => cases hps
        | run hkept hlast hcancels =>
          cases hps
          exact ⟨_,_,_,rfl,hkept,hlast,hcancels⟩
    · intro b cb l ns path hb hbpath hcb hl hne
      have hnext : contract l c = longestCommonPrefix l c := if_neg (by simpa using hne)
      have hcommon := longestCommonPrefix_ne_nil hwf hb hbpath hcb hppath hl hne hpc
      rw [List.foldl_cons,hnext]
      by_cases hrelated : HaveCommonDominator edge entry b p
      · have hl' := hl.longestCommonPrefix hwf hb hbpath hppath hpc
        rw [hrun (List.mem_cons_of_mem p hb) hbpath hcb hl' (hcommon.mpr hrelated)]
        constructor
        · rintro ⟨kept,last,rest,rfl,hkept,hlast,hcancels⟩
          exact ⟨p :: kept,last,rest,rfl,List.forall_mem_cons.mpr ⟨hrelated,hkept⟩,hlast,hcancels⟩
        · rintro ⟨kept,last,rest,heq,hkept,hlast,hcancels⟩
          cases kept with
          | nil =>
            cases heq
            exact absurd hrelated hlast
          | cons k kept =>
            cases heq
            exact ⟨kept,last,rest,rfl,fun k hk => hkept k (List.mem_cons_of_mem _ hk),hlast,hcancels⟩
      · rw [not_not.mp fun h => hrelated (hcommon.mp h),hempty]
        constructor
        · exact fun hcancels => ⟨[],p,ps,rfl,by simp,hrelated,hcancels⟩
        · rintro ⟨kept,last,rest,heq,hkept,hlast,hcancels⟩
          cases kept with
          | nil =>
            cases heq
            exact hcancels
          | cons k kept =>
            cases heq
            exact absurd (hkept p List.mem_cons_self) hrelated

theorem contract_isCommonChain {ps : List ν} {cs : List (List ν)} (hreached : ∀ p ∈ ps,∃ path,PathTo edge entry p path)
    (hcs : List.Forall₂ (IsDominatorChain edge entry) ps cs) {b : ν} {cb : List ν} (hb : b ∈ ns)
    (hbpath : PathTo edge entry b path) (hcb : IsDominatorChain edge entry b cb) (hl : IsCommonChain edge entry ns l)
    (hne : l ≠ []) (hrelated : ∀ p ∈ ps,HaveCommonDominator edge entry b p) :
    IsCommonChain edge entry (ps ++ ns) (cs.foldl contract l) := by
  induction hcs generalizing ns l with
  | nil => exact hl
  | @cons p c ps cs hpc hcs ih =>
    obtain ⟨⟨ppath,hppath⟩,hrest⟩ := List.forall_mem_cons.mp hreached
    obtain ⟨hp,hrelated⟩ := List.forall_mem_cons.mp hrelated
    have hnext : contract l c = longestCommonPrefix l c := if_neg (by simpa using hne)
    have hl' := hl.longestCommonPrefix hwf hb hbpath hppath hpc
    have hne' := (longestCommonPrefix_ne_nil hwf hb hbpath hcb hppath hl hne hpc).mpr hp
    have hall := ih hrest (List.mem_cons_of_mem p hb) hl' hne' hrelated
    rw [List.foldl_cons,hnext]
    refine ⟨fun d => ?_,hall.ordered⟩
    rw [hall.mem]
    simp only [List.forall_mem_append,List.forall_mem_cons]
    tauto

end Contraction

section Nodes
variable [DecidableEq ν] (edge : ν → ν → Prop) (entry : ν → Prop)

/-- Where the contraction of the chains before a node is right: they cancel out, or the node is
no entry and any two of the nodes before it have a dominator in common. -/
def ContractsRightly (n : ν) (ps : List ν) : Prop :=
  CancelsOut (HaveCommonDominator edge entry) ps ∨ (¬ entry n ∧ ∀ p ∈ ps,∀ q ∈ ps,HaveCommonDominator edge entry p q)

variable {edge entry} (hwf : WellFounded edge) {n : ν} {l ps : List ν}
include hwf

omit [DecidableEq ν] in
theorem isDominatorChain_concat {n : ν} {l ps : List ν} (hps : ∀ m,m ∈ ps ↔ edge m n) (hn : ¬ entry n) (hne : ps ≠ [])
    (hreached : ∀ p ∈ ps,∃ path,PathTo edge entry p path) :
    IsDominatorChain edge entry n (l ++ [n]) ↔ IsCommonChain edge entry ps l := by
  obtain ⟨p,hp⟩ := List.exists_mem_of_ne_nil ps hne
  obtain ⟨path,hpath⟩ := hreached p hp
  have hdom : ∀ d,Dominates edge entry d n ↔ d = n ∨ ∀ m ∈ ps,Dominates edge entry d m := by
    intro d
    rw [dominates_iff]
    simp only [hn,not_false_eq_true,true_and,hps]
  have hself : ¬ ∀ m ∈ ps,Dominates edge entry n m := fun h =>
    not_dominates_of_edge hwf hpath ((hps p).mp hp) (h p hp)
  constructor
  · intro h
    obtain ⟨hordered,-,hcross⟩ := List.pairwise_append.mp h.ordered
    refine ⟨fun d => ?_,hordered⟩
    constructor
    · intro hd
      have hne := (hcross d hd n (by simp)).1
      have hdn := (h.mem d).mp (List.mem_append_left _ hd)
      exact ((hdom d).mp (hdn n (by simp))).resolve_left hne
    · intro hd
      have hmem := (h.mem d).mpr (by simpa using (hdom d).mpr (.inr hd))
      rcases List.mem_append.mp hmem with hmem | hmem
      · exact hmem
      · rw [List.mem_singleton] at hmem
        exact absurd (hmem ▸ hd) hself
  · intro h
    constructor
    · intro d
      rw [List.mem_append,List.mem_singleton,List.forall_mem_singleton,hdom,h.mem,or_comm]
    · refine List.pairwise_append.mpr ⟨h.ordered,List.pairwise_singleton _ _,fun d hd x hx => ?_⟩
      rw [List.mem_singleton.mp hx]
      have hall := (h.mem d).mp hd
      exact ⟨fun heq => hself (heq ▸ hall),(hdom d).mpr (.inr hall)⟩

omit [DecidableEq ν] hwf in
theorem isDominatorChain_entry (hn : entry n) : IsDominatorChain edge entry n [n] := by
  refine ⟨fun d => ?_,List.pairwise_singleton _ _⟩
  rw [List.mem_singleton,List.forall_mem_singleton,dominates_iff]
  simp [hn]

theorem contracted_isDominatorChain_iff {cs : List (List ν)} (hps : ∀ m,m ∈ ps ↔ edge m n) (hnode : entry n ∨ ps ≠ [])
    (hreached : ∀ p ∈ ps,∃ path,PathTo edge entry p path) (hcs : List.Forall₂ (IsDominatorChain edge entry) ps cs) :
    IsDominatorChain edge entry n (cs.foldl contract [] ++ [n]) ↔ ContractsRightly edge entry n ps := by
  have hnil := (contract_eq_nil_iff hwf hreached hcs).1
  by_cases hn : entry n
  · have hrightly : ContractsRightly edge entry n ps ↔ CancelsOut (HaveCommonDominator edge entry) ps := by
      simp [ContractsRightly,hn]
    rw [hrightly,← hnil]
    constructor
    · intro h
      have heq := h.unique hwf List.mem_cons_self (.entry hn) (isDominatorChain_entry hn)
      simpa using heq
    · intro h
      rw [h]
      exact isDominatorChain_entry hn
  · have hne := hnode.resolve_left hn
    rw [isDominatorChain_concat hwf hps hn hne hreached]
    by_cases hrelated : ∀ p ∈ ps,∀ q ∈ ps,HaveCommonDominator edge entry p q
    · refine iff_of_true ?_ (.inr ⟨hn,hrelated⟩)
      cases hcs with
      | nil => exact absurd rfl hne
      | @cons p c ps cs hpc hcs =>
        obtain ⟨⟨ppath,hppath⟩,hrest⟩ := List.forall_mem_cons.mp hreached
        have hc : c ≠ [] := List.ne_nil_of_mem ((hpc.mem p).mpr (by simpa using dominates_self p))
        have hall := contract_isCommonChain hwf hrest hcs List.mem_cons_self hppath hpc hpc hc
          fun q hq => hrelated p List.mem_cons_self q (List.mem_cons_of_mem p hq)
        refine ⟨fun d => ?_,hall.ordered⟩
        rw [List.foldl_cons]
        change d ∈ cs.foldl contract c ↔ _
        rw [hall.mem]
        simp only [List.forall_mem_append,List.forall_mem_cons,List.not_mem_nil,false_implies,implies_true,and_true]
        tauto
    · have hrightly : ContractsRightly edge entry n ps ↔ CancelsOut (HaveCommonDominator edge entry) ps := by
        simp only [ContractsRightly,hrelated,and_false,or_false]
      rw [hrightly,← hnil]
      constructor
      · intro h
        by_contra hcontracted
        obtain ⟨d,hd⟩ := List.exists_mem_of_ne_nil _ hcontracted
        have hall := (h.mem d).mp hd
        exact hrelated fun p hp q hq => ⟨d,hall p hp,hall q hq⟩
      · intro h
        rw [h]
        refine ⟨fun d => iff_of_false List.not_mem_nil fun hall => hrelated fun p hp q hq => ⟨d,hall p hp,hall q hq⟩,.nil⟩

omit [DecidableEq ν] in
theorem IsDominatorChain.immediate {d n : ν} {l path : List ν} (hpath : PathTo edge entry n path)
    (h : IsDominatorChain edge entry n (l ++ [n])) : l.getLast? = some d ↔ ImmediateDominator edge entry d n := by
  obtain ⟨hordered,-,hcross⟩ := List.pairwise_append.mp h.ordered
  have hmem : ∀ a,Dominates edge entry a n → a ≠ n → a ∈ l := fun a ha hne =>
    (List.mem_append.mp ((h.mem a).mpr (by simpa using ha))).resolve_right (by simpa using hne)
  have hlast : ∀ {l' e},l = l' ++ [e] → ∀ a ∈ l,Dominates edge entry a e := by
    rintro l' e rfl a ha
    rcases List.mem_append.mp ha with ha | ha
    · exact ((List.pairwise_append.mp hordered).2.2 a ha e (by simp)).2
    · rw [List.mem_singleton.mp ha]
      exact dominates_self e
  constructor
  · intro hd
    obtain ⟨l',rfl⟩ := List.getLast?_eq_some_iff.mp hd
    obtain ⟨hne,hdn⟩ := hcross d (by simp) n (by simp)
    exact ⟨hdn,hne,fun a ha hne => hlast rfl a (hmem a ha hne)⟩
  · intro hd
    have hdl := hmem d hd.dominates hd.ne
    obtain ⟨l',e,heq⟩ := (List.eq_nil_or_concat l).resolve_left (List.ne_nil_of_mem hdl)
    rw [List.concat_eq_append] at heq
    subst heq
    obtain ⟨hene,hen⟩ := hcross e (by simp) n (by simp)
    have hed := hd.last e hen hene
    obtain ⟨path',hpath',-⟩ := hpath.upTo (hd.dominates path hpath)
    have heq := (hlast rfl d hdl).antisymm hwf hpath' hed
    rw [heq]
    simp

end Nodes

variable [DecidableEq ν] {edge : ν → ν → Prop} {entry : ν → Prop} (hwf : WellFounded edge) {before : ν → List ν}

/-- The path of a node: the contraction of the paths of those before it, and the node itself. -/
noncomputable def contractedPath (hbefore : ∀ {m n},m ∈ before n → edge m n) : ν → List ν :=
  hwf.fix fun n path => (((before n).attach.map fun m => path m.1 (hbefore m.2)).foldl contract []) ++ [n]

theorem contractedPath_eq (hbefore : ∀ {m n},m ∈ before n → edge m n) (n : ν) :
    contractedPath hwf hbefore n = ((before n).map (contractedPath hwf hbefore)).foldl contract [] ++ [n] := by
  have hfix := hwf.fix_eq (fun n path => (((before n).attach.map fun m => path m.1 (hbefore m.2)).foldl contract []) ++ [n]) n
  refine hfix.trans ?_
  rw [List.map_attach_eq_pmap,List.pmap_eq_map]
  rfl

theorem reaches_of_mem_contractedPath (hbefore : ∀ {m n},m ∈ before n → edge m n) {d n : ν}
    (h : d ∈ contractedPath hwf hbefore n) : Relation.ReflTransGen edge d n := by
  induction n using hwf.induction with
  | h n ih =>
    rw [contractedPath_eq] at h
    rcases List.mem_append.mp h with h | h
    · obtain ⟨c,hc,hd⟩ := (mem_foldl_contract h).resolve_left List.not_mem_nil
      obtain ⟨m,hm,rfl⟩ := List.mem_map.mp hc
      exact (ih m (hbefore hm) hd).tail (hbefore hm)
    · rw [List.mem_singleton.mp h]

include hwf in
omit [DecidableEq ν] in
theorem exists_pathTo {node : ν → Prop} (hall : ∀ m n,node n → edge m n → node m)
    (hnode : ∀ n,node n → entry n ∨ ∃ m,edge m n) (n : ν) (hn : node n) : ∃ path,PathTo edge entry n path := by
  induction n using hwf.induction with
  | h n ih =>
    rcases hnode n hn with hentry | ⟨m,hm⟩
    · exact ⟨_,.entry hentry⟩
    · obtain ⟨path,hpath⟩ := ih m hm (hall m n hn hm)
      exact ⟨_,.step hpath hm⟩

theorem contractedPaths_iff (hbefore : ∀ {m n},m ∈ before n → edge m n) {node : ν → Prop}
    (hall : ∀ m n,node n → edge m n → m ∈ before n ∧ node m) (hnode : ∀ n,node n → entry n ∨ before n ≠ []) :
    (∀ n,node n → IsDominatorChain edge entry n (contractedPath hwf hbefore n)) ↔
      ∀ n,node n → ContractsRightly edge entry n (before n) := by
  have hps : ∀ n,node n → ∀ m,m ∈ before n ↔ edge m n := fun n hn m => ⟨hbefore,fun h => (hall m n hn h).1⟩
  have hreached : ∀ n,node n → ∃ path,PathTo edge entry n path := by
    refine exists_pathTo hwf (fun m n hn hm => (hall m n hn hm).2) fun n hn => (hnode n hn).imp id fun hne => ?_
    obtain ⟨m,hm⟩ := List.exists_mem_of_ne_nil _ hne
    exact ⟨m,hbefore hm⟩
  have hstep : ∀ n,node n → (∀ m ∈ before n,IsDominatorChain edge entry m (contractedPath hwf hbefore m)) →
      (IsDominatorChain edge entry n (contractedPath hwf hbefore n) ↔ ContractsRightly edge entry n (before n)) := by
    intro n hn hchains
    rw [contractedPath_eq]
    refine contracted_isDominatorChain_iff hwf (hps n hn) (hnode n hn) (fun p hp => hreached p (hall p n hn (hbefore hp)).2) ?_
    rw [List.forall₂_map_right_iff,List.forall₂_same]
    exact hchains
  constructor
  · intro h n hn
    exact (hstep n hn fun m hm => h m (hall m n hn (hbefore hm)).2).mp (h n hn)
  · intro h n
    induction n using hwf.induction with
    | h n ih => exact fun hn => (hstep n hn fun m hm => ih m (hbefore hm) (hall m n hn (hbefore hm)).2).mpr (h n hn)

end SonicPins.Lib
