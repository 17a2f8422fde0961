import Mathlib.Data.Finset.Sort
import Mathlib.Data.List.Sort
import Mathlib.Logic.Relation
import Mathlib.Order.WellFoundedSet

/-! Peeling a finite graph in layers: the vertices without an edge into them form the
next layer, whose edges are then removed. -/
namespace SonicPins.Lib

section Algorithm
variable {α : Type} [LinearOrder α]

def inDegree (edges : Finset (α × α)) (v : α) : Nat := (edges.filter fun e => e.2 = v).card

def clearOutEdges (edges : Finset (α × α)) (r : α) : Finset (α × α) := edges.filter fun e => e.1 ≠ r

/-- The targets of a vertex whose last edge comes from it. -/
def released (edges : Finset (α × α)) (r : α) : List α :=
  ((edges.filter fun e => e.1 = r).image Prod.snd).sort.filter fun t => inDegree edges t = 1

/-- Removes the edges of all roots, one root at a time, and collects the new roots. -/
def removeRoots : List α → Finset (α × α) → List α × Finset (α × α)
  | [],edges => ([],edges)
  | r :: rs,edges =>
    let rest := removeRoots rs (clearOutEdges edges r)
    (released edges r ++ rest.1,rest.2)

theorem removeRoots_nil (edges : Finset (α × α)) : removeRoots [] edges = ([],edges) := rfl

theorem removeRoots_cons (r : α) (rs : List α) (edges : Finset (α × α)) : removeRoots (r :: rs) edges =
    (released edges r ++ (removeRoots rs (clearOutEdges edges r)).1,(removeRoots rs (clearOutEdges edges r)).2) := rfl

/-- The loop, for a number of rounds: the sorted layers and the edges that are left. -/
def peel : Nat → List α → Finset (α × α) → Option (List (List α) × Finset (α × α))
  | 0,_,_ => none
  | rounds + 1,roots,edges =>
    if roots.isEmpty then some ([],edges)
    else
      let layer := roots.insertionSort (· ≤ ·)
      let next := removeRoots layer edges
      (peel rounds next.1 next.2).map fun rest => (layer :: rest.1,rest.2)

end Algorithm

section Rounds
variable {α : Type} [LinearOrder α] {edges : Finset (α × α)}

theorem mem_released {r t : α} : t ∈ released edges r ↔ (r,t) ∈ edges ∧ ∀ u,(u,t) ∈ edges → u = r := by
  have htarget : t ∈ ((edges.filter fun e => e.1 = r).image Prod.snd).sort ↔ (r,t) ∈ edges := by simp
  unfold released inDegree
  rw [List.mem_filter,htarget,decide_eq_true_eq,Finset.card_eq_one]
  refine and_congr_right fun hedge => ?_
  have hmem : (r,t) ∈ edges.filter fun e => e.2 = t := Finset.mem_filter.mpr ⟨hedge,rfl⟩
  constructor
  · rintro ⟨e,he⟩ u hu
    have hsource : (u,t) ∈ edges.filter fun e => e.2 = t := Finset.mem_filter.mpr ⟨hu,rfl⟩
    rw [he,Finset.mem_singleton] at hmem hsource
    exact congrArg Prod.fst (hsource.trans hmem.symm)
  · intro honly
    refine ⟨(r,t),Finset.eq_singleton_iff_unique_mem.mpr ⟨hmem,?_⟩⟩
    rintro ⟨u,v⟩ he
    obtain ⟨hedge',htarget⟩ := Finset.mem_filter.mp he
    obtain rfl : v = t := htarget
    rw [honly u hedge']

theorem nodup_released (edges : Finset (α × α)) (r : α) : (released edges r).Nodup := (Finset.sort_nodup _ _).filter _

theorem mem_clearOutEdges {r u v : α} : (u,v) ∈ clearOutEdges edges r ↔ (u,v) ∈ edges ∧ u ≠ r := by
  simp [clearOutEdges]

theorem removeRoots_edges (rs : List α) (edges : Finset (α × α)) :
    (removeRoots rs edges).2 = edges.filter fun e => e.1 ∉ rs := by
  induction rs generalizing edges with
  | nil => simp [removeRoots_nil]
  | cons r rs ih =>
    ext ⟨u,v⟩
    simp only [removeRoots_cons,ih,Finset.mem_filter,mem_clearOutEdges,List.mem_cons,not_or]
    tauto

theorem mem_removeRoots {rs : List α} {v : α} : v ∈ (removeRoots rs edges).1 ↔
    (∃ u,(u,v) ∈ edges) ∧ ∀ u,(u,v) ∈ edges → u ∈ rs := by
  induction rs generalizing edges with
  | nil =>
    simp only [removeRoots_nil,List.not_mem_nil,false_iff,not_and]
    rintro ⟨u,hu⟩ hnone
    exact hnone u hu
  | cons r rs ih =>
    simp only [removeRoots_cons,List.mem_append,mem_released,ih,mem_clearOutEdges,List.mem_cons]
    constructor
    · rintro (⟨hr,honly⟩ | ⟨⟨u,hu,-⟩,hrest⟩)
      · exact ⟨⟨r,hr⟩,fun u hu => .inl (honly u hu)⟩
      · exact ⟨⟨u,hu⟩,fun u' hu' => or_iff_not_imp_left.mpr fun hne => hrest u' ⟨hu',hne⟩⟩
    · rintro ⟨⟨u,hu⟩,hall⟩
      by_cases honly : ∀ u,(u,v) ∈ edges → u = r
      · exact .inl ⟨honly u hu ▸ hu,honly⟩
      · push Not at honly
        obtain ⟨w,hw,hne⟩ := honly
        exact .inr ⟨⟨w,hw,hne⟩,fun u' hu' => (hall u' hu'.1).resolve_left hu'.2⟩

theorem nodup_removeRoots (rs : List α) (edges : Finset (α × α)) : (removeRoots rs edges).1.Nodup := by
  induction rs generalizing edges with
  | nil => exact List.nodup_nil
  | cons r rs ih =>
    refine List.nodup_append.mpr ⟨nodup_released edges r,ih _,?_⟩
    rintro a ha b hb rfl
    obtain ⟨⟨u,hu⟩,-⟩ := mem_removeRoots.mp hb
    obtain ⟨hu,hne⟩ := mem_clearOutEdges.mp hu
    exact hne ((mem_released.mp ha).2 u hu)

end Rounds

variable {α : Type} [LinearOrder α] (vertices : Finset α) (edges : Finset (α × α))

/-- The vertices that can come right after those of `done`. -/
def IsRoot (done : Finset α) (v : α) : Prop := v ∈ vertices ∧ v ∉ done ∧ ∀ u,(u,v) ∈ edges → u ∈ done

/-- The layers that follow `done`, up to where no vertex can follow. -/
inductive Layers : Finset α → List (List α) → Finset α → Prop
  | stop {done : Finset α} : (∀ v,¬ IsRoot vertices edges done v) → Layers done [] done
  | layer {done final : Finset α} {layer : List α} {rest : List (List α)} : layer.Pairwise (· < ·) →
      (∀ v,v ∈ layer ↔ IsRoot vertices edges done v) → Layers (done ∪ layer.toFinset) rest final →
      Layers done (layer :: rest) final

structure Frontier (done : Finset α) (roots : List α) (left : Finset (α × α)) : Prop where
  left : left = edges.filter fun e => e.1 ∉ done
  nodup : roots.Nodup
  roots : ∀ v,v ∈ roots ↔ IsRoot vertices edges done v
  closed : ∀ v ∈ done,∀ u,(u,v) ∈ edges → u ∈ done
  subset : done ⊆ vertices

variable {vertices edges} {done final : Finset α} {roots : List α} {left : Finset (α × α)} {layers : List (List α)}

theorem Frontier.start (hroots : ∀ v,v ∈ roots ↔ v ∈ vertices ∧ inDegree edges v = 0) (hnodup : roots.Nodup) :
    Frontier vertices edges ∅ roots edges where
  left := by simp
  nodup := hnodup
  roots v := by
    rw [hroots,inDegree,Finset.card_eq_zero,Finset.filter_eq_empty_iff]
    simp only [IsRoot,Finset.notMem_empty,not_false_eq_true,true_and,imp_false]
    refine and_congr_right fun _ => ⟨fun h u hu => h hu rfl,?_⟩
    rintro h ⟨u,v'⟩ hu rfl
    exact h u hu
  closed := by simp
  subset := by simp

theorem Frontier.next (h : Frontier vertices edges done roots left)
    (hends : ∀ u v,(u,v) ∈ edges → u ∈ vertices ∧ v ∈ vertices) {layer : List α} (hlayer : ∀ v,v ∈ layer ↔ v ∈ roots) :
    Frontier vertices edges (done ∪ layer.toFinset) (removeRoots layer left).1 (removeRoots layer left).2 where
  left := by
    rw [removeRoots_edges,h.left,Finset.filter_filter]
    refine Finset.filter_congr fun e _ => ?_
    simp
  nodup := nodup_removeRoots _ _
  roots v := by
    have hmem : ∀ u,(u,v) ∈ left ↔ (u,v) ∈ edges ∧ u ∉ done := by simp [h.left]
    have hroot : v ∈ layer ↔ IsRoot vertices edges done v := (hlayer v).trans (h.roots v)
    rw [mem_removeRoots]
    constructor
    · rintro ⟨⟨u,hu⟩,hall⟩
      obtain ⟨hu,hdone⟩ := (hmem u).mp hu
      refine ⟨(hends u v hu).2,?_,fun w hw => ?_⟩
      · rw [Finset.mem_union,List.mem_toFinset,not_or]
        exact ⟨fun hv => hdone (h.closed v hv u hu),fun hv => hdone ((hroot.mp hv).2.2 u hu)⟩
      · rw [Finset.mem_union,List.mem_toFinset]
        by_cases hw' : w ∈ done
        · exact .inl hw'
        · exact .inr (hall w ((hmem w).mpr ⟨hw,hw'⟩))
    · rintro ⟨hv,hnew,hall⟩
      simp only [Finset.mem_union,List.mem_toFinset,not_or] at hnew hall
      refine ⟨?_,fun u hu => ?_⟩
      · by_contra hnone
        refine hnew.2 (hroot.mpr ⟨hv,hnew.1,fun u hu => ?_⟩)
        by_contra hdone
        exact hnone ⟨u,(hmem u).mpr ⟨hu,hdone⟩⟩
      · obtain ⟨hu,hdone⟩ := (hmem u).mp hu
        exact (hall u hu).resolve_left hdone
  closed v hv u hu := by
    rw [Finset.mem_union] at hv ⊢
    rcases hv with hv | hv
    · exact .inl (h.closed v hv u hu)
    · exact .inl (((h.roots v).mp ((hlayer v).mp (List.mem_toFinset.mp hv))).2.2 u hu)
  subset := by
    refine Finset.union_subset h.subset fun v hv => ?_
    exact ((h.roots v).mp ((hlayer v).mp (List.mem_toFinset.mp hv))).1

theorem peel_spec (hends : ∀ u v,(u,v) ∈ edges → u ∈ vertices ∧ v ∈ vertices) {rounds : Nat}
    (h : Frontier vertices edges done roots left) (hrounds : (vertices \ done).card < rounds) :
    ∃ layers final,peel rounds roots left = some (layers,edges.filter fun e => e.1 ∉ final) ∧
      Layers vertices edges done layers final := by
  induction rounds generalizing done roots left with
  | zero => omega
  | succ rounds ih =>
    unfold peel
    cases hroots : roots with
    | nil =>
      refine ⟨[],done,by simp [h.left],.stop fun v hv => ?_⟩
      have hmem := (h.roots v).mpr hv
      rw [hroots] at hmem
      cases hmem
    | cons r rs =>
      rw [← hroots]
      have hlayer : ∀ v,v ∈ roots.insertionSort (· ≤ ·) ↔ v ∈ roots := fun v => List.mem_insertionSort _
      have hr : IsRoot vertices edges done r := (h.roots r).mp (by simp [hroots])
      have hcard : (vertices \ (done ∪ (roots.insertionSort (· ≤ ·)).toFinset)).card < rounds := by
        refine lt_of_lt_of_le (Finset.card_lt_card (Finset.ssubset_iff_of_subset ?_ |>.mpr ⟨r,?_,?_⟩)) (Nat.le_of_lt_succ hrounds)
        · exact Finset.sdiff_subset_sdiff le_rfl Finset.subset_union_left
        · exact Finset.mem_sdiff.mpr ⟨hr.1,hr.2.1⟩
        · simp [hroots]
      obtain ⟨layers,final,hpeel,hlayers⟩ := ih (h.next hends hlayer) hcard
      refine ⟨_ :: layers,final,?_,.layer ?_ (fun v => (hlayer v).trans (h.roots v)) hlayers⟩
      · rw [if_neg (by simp [hroots])]
        simp only [hpeel,Option.map_some]
      · have hnodup : (roots.insertionSort (· ≤ ·)).Nodup := (List.perm_insertionSort _ roots).nodup_iff.mpr h.nodup
        exact ((List.pairwise_insertionSort (· ≤ ·) roots).and hnodup).imp fun hab => lt_of_le_of_ne hab.1 hab.2

theorem peel_layers {α : Type} [LinearOrder α] {rounds : Nat} {roots : List α} {edges : Finset (α × α)}
    {r : List (List α) × Finset (α × α)} (h : peel rounds roots edges = some r) :
    ∀ layer ∈ r.1,layer ≠ [] ∧ ∀ v ∈ layer,v ∈ roots ∨ ∃ u,(u,v) ∈ edges := by
  induction rounds generalizing roots edges r with
  | zero => cases h
  | succ rounds ih =>
    rw [peel] at h
    split at h
    · cases h
      simp
    · next hne =>
      obtain ⟨rest,hrest,rfl⟩ := Option.map_eq_some_iff.mp h
      intro layer hlayer
      rcases List.mem_cons.mp hlayer with rfl | hlayer
      · refine ⟨fun hnil => hne ?_,fun v hv => .inl ((List.mem_insertionSort _).mp hv)⟩
        have hlength := List.length_insertionSort (· ≤ ·) roots
        rw [hnil] at hlength
        exact List.isEmpty_iff.mpr (List.eq_nil_of_length_eq_zero hlength.symm)
      · obtain ⟨hlayerNe,hmem⟩ := ih hrest layer hlayer
        refine ⟨hlayerNe,fun v hv => .inr ?_⟩
        rcases hmem v hv with hroot | ⟨u,hu⟩
        · exact (mem_removeRoots.mp hroot).1
        · rw [removeRoots_edges] at hu
          exact ⟨u,(Finset.mem_filter.mp hu).1⟩

theorem Layers.subset (h : Layers vertices edges done layers final) : done ⊆ final := by
  induction h with
  | stop _ => exact le_rfl
  | layer _ _ _ ih => exact Finset.subset_union_left.trans ih

theorem Layers.partition (h : Layers vertices edges done layers final) :
    layers.flatten.Nodup ∧ ∀ v,v ∈ layers.flatten ↔ v ∈ final ∧ v ∉ done := by
  induction h with
  | stop _ => simp
  | @layer done final layer rest hsorted hroots hrest ih =>
    obtain ⟨hnodup,hmem⟩ := ih
    have hdone : ∀ v ∈ layer,v ∉ done := fun v hv => ((hroots v).mp hv).2.1
    constructor
    · refine List.nodup_append.mpr ⟨hsorted.imp ne_of_lt,hnodup,?_⟩
      rintro a ha b hb rfl
      have hnew := ((hmem a).mp hb).2
      simp [ha] at hnew
    · intro v
      rw [List.flatten_cons,List.mem_append,hmem]
      simp only [Finset.mem_union,List.mem_toFinset,not_or]
      constructor
      · rintro (hv | ⟨hfinal,hnew,-⟩)
        · exact ⟨hrest.subset (Finset.mem_union_right _ (List.mem_toFinset.mpr hv)),hdone v hv⟩
        · exact ⟨hfinal,hnew⟩
      · rintro ⟨hfinal,hnew⟩
        by_cases hv : v ∈ layer
        · exact .inl hv
        · exact .inr ⟨hfinal,hnew,hv⟩

theorem Layers.mem_vertices (h : Layers vertices edges done layers final) {v : α} (hdone : done ⊆ vertices)
    (hv : v ∈ layers.flatten) : v ∈ vertices := by
  induction h with
  | stop _ => simp at hv
  | @layer done final layer rest _ hroots _ ih =>
    have hlayer : ∀ v ∈ layer,v ∈ vertices := fun v hv => ((hroots v).mp hv).1
    rw [List.flatten_cons,List.mem_append] at hv
    rcases hv with hv | hv
    · exact hlayer v hv
    · exact ih (Finset.union_subset hdone fun v hv => hlayer v (List.mem_toFinset.mp hv)) hv

theorem Layers.sorted (h : Layers vertices edges done layers final) : ∀ layer ∈ layers,layer.Pairwise (· < ·) := by
  induction h with
  | stop _ => simp
  | layer hsorted _ _ ih =>
    rintro l (_ | ⟨_,hl⟩)
    · exact hsorted
    · exact ih l hl

theorem Layers.ordered (h : Layers vertices edges done layers final) {u v : α} (hedge : (u,v) ∈ edges) {j : Nat}
    {layer : List α} (hj : layers[j]? = some layer) (hv : v ∈ layer) :
    u ∈ done ∨ ∃ i < j,∃ l,layers[i]? = some l ∧ u ∈ l := by
  induction h generalizing j with
  | stop _ => simp at hj
  | @layer done final first rest _ hroots _ ih =>
    cases j with
    | zero =>
      obtain rfl : first = layer := by simpa using hj
      exact .inl (((hroots v).mp hv).2.2 u hedge)
    | succ j =>
      rcases ih (by simpa using hj) with hdone | ⟨i,hi,l,hl,hu⟩
      · rw [Finset.mem_union,List.mem_toFinset] at hdone
        exact hdone.imp id fun hu => ⟨0,Nat.succ_pos j,first,rfl,hu⟩
      · exact .inr ⟨i + 1,Nat.succ_lt_succ hi,l,by simpa using hl,hu⟩

theorem Layers.earliest (h : Layers vertices edges done layers final)
    (hends : ∀ u v,(u,v) ∈ edges → u ∈ vertices ∧ v ∈ vertices) {f : α → Nat} (hf : ∀ u v,(u,v) ∈ edges → f u < f v)
    {k : Nat} (hk : ∀ v ∈ vertices,v ∉ done → k ≤ f v) {j : Nat} {layer : List α} (hj : layers[j]? = some layer) {v : α}
    (hv : v ∈ layer) : k + j ≤ f v := by
  induction h generalizing j k with
  | stop _ => simp at hj
  | @layer done final first rest _ hroots _ ih =>
    cases j with
    | zero =>
      obtain rfl : first = layer := by simpa using hj
      obtain ⟨hvertex,hnew,-⟩ := (hroots v).mp hv
      exact hk v hvertex hnew
    | succ j =>
      have hnext : ∀ v ∈ vertices,v ∉ done ∪ first.toFinset → k + 1 ≤ f v := by
        intro v hvertex hnew
        simp only [Finset.mem_union,List.mem_toFinset,not_or] at hnew
        -- A vertex that is no root yet has an edge from a vertex that is not done.
        have hpred : ∃ u,(u,v) ∈ edges ∧ u ∉ done := by
          by_contra hnone
          push Not at hnone
          exact hnew.2 ((hroots v).mpr ⟨hvertex,hnew.1,hnone⟩)
        obtain ⟨u,hu,hdone⟩ := hpred
        exact lt_of_le_of_lt (hk u (hends u v hu).1 hdone) (hf u v hu)
      have hle := ih hnext (by simpa using hj)
      omega

def Cyclic (edges : Finset (α × α)) : Prop := ∃ v,Relation.TransGen (fun u v => (u,v) ∈ edges) v v

theorem Layers.stopped (h : Layers vertices edges done layers final) (v : α) : ¬ IsRoot vertices edges final v := by
  induction h with
  | stop hstop => exact hstop v
  | layer _ _ _ ih => exact ih

theorem Layers.pred_of_not_final (h : Layers vertices edges done layers final) {v : α} (hv : v ∈ vertices) (hnew : v ∉ final) :
    ∃ u,(u,v) ∈ edges ∧ u ∉ final := by
  by_contra hnone
  push Not at hnone
  exact h.stopped v ⟨hv,hnew,hnone⟩

omit [LinearOrder α] in
private theorem not_cyclic_of_ordered (hordered : ∀ u v,(u,v) ∈ edges → ∀ (j : Nat) (l : List α),layers[j]? = some l → v ∈ l →
      ∃ i < j,∃ l,layers[i]? = some l ∧ u ∈ l)
    (hplaced : ∀ u v,(u,v) ∈ edges → ∃ (j : Nat) (l : List α),layers[j]? = some l ∧ v ∈ l) : ¬ Cyclic edges := by
  rintro ⟨v,hcycle⟩
  have hpath : ∀ {u w},Relation.TransGen (fun u v => (u,v) ∈ edges) u w → ∀ (j : Nat) (l : List α),layers[j]? = some l → w ∈ l →
      ∃ i < j,∃ l,layers[i]? = some l ∧ u ∈ l := by
    intro u w hpath
    induction hpath with
    | single hedge => exact hordered _ _ hedge
    | tail _ hedge ih =>
      intro j l hj hw
      obtain ⟨i,hi,l',hl',hmem⟩ := hordered _ _ hedge j l hj hw
      obtain ⟨i',hi',hfound⟩ := ih i l' hl' hmem
      exact ⟨i',hi'.trans hi,hfound⟩
  have hnever : ∀ (j : Nat) (l : List α),layers[j]? = some l → v ∉ l := by
    intro j
    induction j using Nat.strong_induction_on with
    | _ j ih =>
      intro l hj hv
      obtain ⟨i,hi,l',hl',hmem⟩ := hpath hcycle j l hj hv
      exact ih i hi l' hl' hmem
  obtain ⟨u,-,hedge⟩ := Relation.TransGen.tail'_iff.mp hcycle
  obtain ⟨j,l,hj,hv⟩ := hplaced u v hedge
  exact hnever j l hj hv

theorem Layers.left_eq_empty_iff (h : Layers vertices edges ∅ layers final)
    (hends : ∀ u v,(u,v) ∈ edges → u ∈ vertices ∧ v ∈ vertices) :
    edges.filter (fun e => e.1 ∉ final) = ∅ ↔ ¬ Cyclic edges := by
  rw [Finset.filter_eq_empty_iff]
  constructor
  · intro hempty
    refine not_cyclic_of_ordered (fun u v hedge j l hj hv => (h.ordered hedge hj hv).resolve_left (by simp)) ?_
    intro u v hedge
    have hfinal : v ∈ final := by
      by_contra hnew
      obtain ⟨w,hw,hleft⟩ := h.pred_of_not_final (hends u v hedge).2 hnew
      exact hempty hw hleft
    obtain ⟨l,hl,hv⟩ := List.mem_flatten.mp ((h.partition.2 v).mpr ⟨hfinal,by simp⟩)
    obtain ⟨j,hj⟩ := List.mem_iff_getElem?.mp hl
    exact ⟨j,l,hj,hv⟩
  · rintro hacyclic ⟨u,v⟩ hedge hleft
    let before := Relation.TransGen fun u v => (u,v) ∈ edges
    have hirrefl : ∀ x,¬ before x x := fun x hx => hacyclic ⟨x,hx⟩
    have : IsStrictOrder α before := { irrefl := hirrefl,trans := fun _ _ _ => Relation.TransGen.trans }
    have hfinite : ((vertices \ final : Finset α) : Set α).WellFoundedOn before := (Finset.finite_toSet _).wellFoundedOn
    -- A first vertex among those that are left would have been a root.
    obtain ⟨⟨m,hm⟩,-,hmin⟩ := hfinite.has_min Set.univ ⟨⟨u,by simpa using ⟨(hends u v hedge).1,hleft⟩⟩,trivial⟩
    have hmem := Finset.mem_sdiff.mp (Finset.mem_coe.mp hm)
    obtain ⟨w,hw,hleft⟩ := h.pred_of_not_final hmem.1 hmem.2
    refine hmin ⟨w,by simpa using ⟨(hends w m hw).1,hleft⟩⟩ trivial ?_
    exact Relation.TransGen.single hw

end SonicPins.Lib
