import SonicPins.Lib.Dominators

/-! Flow graphs whose branches stop at merge points. A node goes on after its merge point only if it is the immediate dominator of
it; where every branch is entered through its first node alone, each branch then stops at the merge point it belongs to. -/
namespace SonicPins.Lib
open Relation
variable {ν : Type} {edge : ν → ν → Prop} {entry sink node : ν → Prop} {c d e m n p q : ν} {l : List ν}

/-- A path that goes past a node. -/
abbrev Around (edge : ν → ν → Prop) (d : ν) : ν → ν → Prop := ReflTransGen fun a b => edge a b ∧ a ≠ d ∧ b ≠ d

theorem PathTo.around (h : PathTo edge entry n l) (hc : c ∈ l) (hd : d ∉ l) : Around edge d c n := by
  induction h with
  | entry _ =>
    rw [List.mem_singleton.mp hc]
  | @step m n l h hedge ih =>
    have hl : d ∉ l := fun hmem => hd (List.mem_append_left _ hmem)
    rcases List.mem_append.mp hc with hc | hc
    · have hm : m ≠ d := fun heq => hl (heq ▸ h.self_mem)
      have hn : n ≠ d := fun heq => hd (heq ▸ List.mem_append_right _ (List.mem_singleton_self n))
      exact (ih hc hl).tail ⟨hedge,hm,hn⟩
    · rw [List.mem_singleton.mp hc]

theorem PathTo.extend (h : PathTo edge entry m l) (hd : d ∉ l) (hpath : Around edge d m n) : ¬ Dominates edge entry d n := by
  suffices ∃ l,PathTo edge entry n l ∧ d ∉ l from fun hdom => this.choose_spec.2 (hdom _ this.choose_spec.1)
  induction hpath with
  | refl => exact ⟨l,h,hd⟩
  | @tail a b _ hedge ih =>
    obtain ⟨l',hl',hd'⟩ := ih
    refine ⟨l' ++ [b],.step hl' hedge.1,fun hmem => ?_⟩
    rcases List.mem_append.mp hmem with hmem | hmem
    · exact hd' hmem
    · exact hedge.2.2 (List.mem_singleton.mp hmem).symm

theorem Dominates.along (h : Dominates (fun a b => edge b a) sink d c) (hpath : Around edge d c n) :
    Dominates (fun a b => edge b a) sink d n := by
  induction hpath with
  | refl => exact h
  | tail _ hedge ih => exact ((dominates_iff.mp ih).resolve_left hedge.2.1.symm).2 _ hedge.1

theorem around_swap (h : Around (fun a b => edge b a) d m n) : Around edge d n m := by
  rw [Around,← reflTransGen_swap]
  exact ReflTransGen.mono (fun a b hab => ⟨hab.1,hab.2.2,hab.2.1⟩) _ _ h

section FlowGraphs

/-- Nodes that are reached from an entry and lead to a sink, without cycles. -/
structure FlowGraph (edge : ν → ν → Prop) (entry sink node : ν → Prop) : Prop where
  wellFounded : WellFounded fun b a => edge a b
  closed : ∀ a b,node a → edge a b → node b
  reached : ∀ n,node n → ∃ l,PathTo edge entry n l
  leads : ∀ n,node n → ∃ l,PathTo (fun a b => edge b a) sink n l

/-- The first node that all paths from a node to the sinks go through. -/
abbrev MergesAt (edge : ν → ν → Prop) (sink : ν → Prop) (n m : ν) : Prop := ImmediateDominator (fun a b => edge b a) sink m n

/-- Between a node's branches and its merge point, a branch is entered through its first node only. -/
def WellNested (edge : ν → ν → Prop) (entry sink node : ν → Prop) : Prop :=
  ∀ n m c x,node n → MergesAt edge sink n m → edge n c → ReflTransGen edge c x → TransGen edge x m → Dominates edge entry c x

variable (h : FlowGraph edge entry sink node)
include h

theorem FlowGraph.acyclic (n : ν) : ¬ TransGen edge n n := fun hcycle =>
  h.wellFounded.transGen.irrefl.irrefl n (transGen_swap.mpr hcycle)

theorem FlowGraph.closed_path (hn : node n) (hpath : ReflTransGen edge n m) : node m := by
  induction hpath with
  | refl => exact hn
  | tail _ hedge ih => exact h.closed _ _ ih hedge

theorem FlowGraph.leadsTo (hn : node n) (hdom : Dominates (fun a b => edge b a) sink m n) : ReflTransGen edge n m := by
  obtain ⟨l,hl⟩ := h.leads n hn
  rcases hl.leads (hdom l hl) with rfl | hleads
  · exact .refl
  · exact (transGen_swap.mp hleads).to_reflTransGen

theorem FlowGraph.around_of_before (hpath : ReflTransGen edge c p) (hm : TransGen edge p m) : Around edge m c p := by
  induction hpath with
  | refl => exact .refl
  | @tail a b _ hedge ih =>
    have ha := TransGen.head hedge hm
    have hne : ∀ x,TransGen edge x m → x ≠ m := fun x hx heq => h.acyclic m (heq ▸ hx)
    exact (ih ha).tail ⟨hedge,hne a ha,hne b hm⟩

theorem FlowGraph.dominates_between (hdom : Dominates (fun a b => edge b a) sink m c) (hpath : ReflTransGen edge c p)
    (hm : TransGen edge p m) : Dominates (fun a b => edge b a) sink m p := hdom.along (h.around_of_before hpath hm)

theorem FlowGraph.immediate_of_mergesAt (hc : node c) (hpost : Dominates (fun a b => edge b a) sink p c) (hpath : ReflTransGen edge c p)
    (hmerge : MergesAt edge sink p q) (hdom : Dominates edge entry c q) : ImmediateDominator edge entry p q := by
  have hp := h.closed_path hc hpath
  have hpq := (reflTransGen_iff_eq_or_transGen.mp (h.leadsTo hp hmerge.dominates)).resolve_left hmerge.ne
  have hq := h.closed_path hp hpq.to_reflTransGen
  refine ⟨fun l hl => ?_,hmerge.ne.symm,fun a ha hne => ?_⟩
  · by_contra hnot
    have hback := h.leadsTo hq (hpost.along (hl.around (hdom l hl) hnot))
    exact h.acyclic p (hpq.trans_left hback)
  · by_contra hnot
    obtain ⟨l,hl⟩ := not_forall.mp hnot
    obtain ⟨hl,hal⟩ := Classical.not_imp.mp hl
    -- every path from p to the sinks goes through a, before it gets to q
    have hpost : Dominates (fun a b => edge b a) sink a p := by
      intro l' hl'
      by_contra hal'
      exact hl.extend hal (around_swap (hl'.around (hmerge.dominates l' hl') hal')) ha
    have hne' : a ≠ p := fun heq => hal (heq ▸ hl.self_mem)
    have hqa := (reflTransGen_iff_eq_or_transGen.mp (h.leadsTo hq (hmerge.last a hpost hne'))).resolve_left hne
    obtain ⟨path,hpath'⟩ := h.reached q hq
    rcases hpath'.leads (ha path hpath') with heq | haq
    · exact hne heq
    · exact h.acyclic a (haq.trans hqa)

theorem FlowGraph.not_dominates_merge (hn : node n) (hmerge : MergesAt edge sink n m) (hedge : edge n c) (hpath : ReflTransGen edge c p)
    (hm : TransGen edge p m) : ¬ Dominates edge entry p m := by
  have hnp : TransGen edge n p := TransGen.head' hedge hpath
  have hnot : ¬ Dominates (fun a b => edge b a) sink p n := by
    intro hpost
    have hne : p ≠ n := fun heq => h.acyclic n (heq ▸ hnp)
    have hnode := h.closed_path hn (hnp.trans hm).to_reflTransGen
    exact h.acyclic p (hm.trans_left (h.leadsTo hnode (hmerge.last p hpost hne)))
  obtain ⟨l',hl'⟩ := not_forall.mp hnot
  obtain ⟨hl',hpl'⟩ := Classical.not_imp.mp hl'
  obtain ⟨l,hl⟩ := h.reached n hn
  refine hl.extend (fun hpl => ?_) (around_swap (hl'.around (hmerge.dominates l' hl') hpl'))
  rcases hl.leads hpl with heq | hleads
  · exact h.acyclic n (heq ▸ hnp)
  · exact h.acyclic n (hnp.trans hleads)

end FlowGraphs

variable {S : ν → ν → Prop} (h : FlowGraph edge entry sink node)
  (hrule : ∀ n m stop,node n → MergesAt edge sink n m → (∀ c,edge n c → c ≠ m → S c m) →
    (ImmediateDominator edge entry n m → S m stop) → (¬ ImmediateDominator edge entry n m → stop = m) → S n stop)
  (hmerges : ∀ n c,node n → edge n c → ∃ m,MergesAt edge sink n m)
include h hrule hmerges

theorem FlowGraph.stops_between (hc : node c) (hpost : Dominates (fun a b => edge b a) sink m c)
    (hregion : ∀ x,ReflTransGen edge c x → TransGen edge x m → Dominates edge entry c x)
    (hbranches : ∀ p q d,ReflTransGen edge c p → MergesAt edge sink p q → edge p d → d ≠ q → S d q)
    (hm : ∀ p,ReflTransGen edge c p → TransGen edge p m → ImmediateDominator edge entry p m → S m m) :
    ∀ p,ReflTransGen edge c p → TransGen edge p m → Dominates (fun a b => edge b a) sink p c → S p m := by
  intro p
  induction p using h.wellFounded.transGen.induction with
  | _ p ih =>
    intro hpath hpm hpc
    have hp := h.closed_path hc hpath
    obtain ⟨d,hd,-⟩ := TransGen.head'_iff.mp hpm
    obtain ⟨q,hq⟩ := hmerges p d hp hd
    have hpq := (reflTransGen_iff_eq_or_transGen.mp (h.leadsTo hp hq.dominates)).resolve_left hq.ne
    have hcq := hpath.trans hpq.to_reflTransGen
    have hne : m ≠ p := fun heq => h.acyclic p (heq ▸ hpm)
    have hqm := h.leadsTo (h.closed_path hc hcq) (hq.last m (h.dominates_between hpost hpath hpm) hne)
    rcases reflTransGen_iff_eq_or_transGen.mp hqm with rfl | hqm
    · exact hrule p m m hp hq (fun d hd hne => hbranches p m d hpath hq hd hne) (hm p hpath hpm) fun _ => rfl
    · have himmediate := h.immediate_of_mergesAt hc hpc hpath hq (hregion q hcq hqm)
      exact hrule p q m hp hq (fun d hd hne => hbranches p q d hpath hq hd hne)
        (fun _ => ih q (transGen_swap.mpr hpq) hcq hqm (hq.dominates.trans hpc)) fun hnot => absurd himmediate hnot

theorem FlowGraph.branch_stops (hnested : WellNested edge entry sink node) :
    ∀ n m c,node n → MergesAt edge sink n m → edge n c → c ≠ m → S c m := by
  intro n
  induction n using h.wellFounded.transGen.induction with
  | _ n ih =>
    intro m c hn hmerge hedge hne
    have hc := h.closed n c hn hedge
    have hpost : Dominates (fun a b => edge b a) sink m c := ((dominates_iff.mp hmerge.dominates).resolve_left hmerge.ne).2 c hedge
    have hcm := (reflTransGen_iff_eq_or_transGen.mp (h.leadsTo hc hpost)).resolve_left hne.symm
    refine h.stops_between hrule hmerges hc hpost (fun x hx hxm => hnested n m c x hn hmerge hedge hx hxm)
      (fun p q d hpath hq hd hdq => ?_) (fun p hpath hpm himmediate => ?_) c .refl hcm (dominates_self c)
    · exact ih p (transGen_swap.mpr (TransGen.head' hedge hpath)) q d (h.closed_path hc hpath) hq hd hdq
    · exact absurd himmediate.dominates (h.not_dominates_merge hn hmerge hedge hpath hpm)

theorem FlowGraph.stops (hnested : WellNested edge entry sink node) (hc : node c) (hpost : Dominates (fun a b => edge b a) sink m c)
    (hregion : ∀ x,ReflTransGen edge c x → TransGen edge x m → Dominates edge entry c x) (hm : S m m) : S c m := by
  rcases reflTransGen_iff_eq_or_transGen.mp (h.leadsTo hc hpost) with rfl | hcm
  · exact hm
  · exact h.stops_between hrule hmerges hc hpost hregion
      (fun p q d hpath hq hd hdq => h.branch_stops hrule hmerges hnested p q d (h.closed_path hc hpath) hq hd hdq)
      (fun _ _ _ _ => hm) c .refl hcm (dominates_self c)

end SonicPins.Lib
