import SonicPins.P4Symbolic.ContractedPaths

/-! What the control flow analysis says of a program's dominators and merge points, and where. -/
namespace SonicPins.P4Symbolic.Cfg
open Lib Pdpi

section Statements
variable (program : ProgramControls) (parser : Parser)

/-- The edges in a direction: those of the program, or the other way round. -/
def edgeIn : Direction → String → String → Prop
  | .fromRoot => IsEdge program parser
  | .fromLeaf => fun n c => IsEdge program parser c n

/-- Where the implicit source leads, or from where the implicit sink is reached. -/
def entryIn : Direction → String → Prop
  | .fromRoot => IsInitial program parser
  | .fromLeaf => fun n => IsNode program parser n ∧ ∀ c,¬ IsEdge program parser n c

/-- The last node that every path from the node to the sink goes through. -/
def IsMergePoint (d n : String) : Prop := ImmediateDominator (edgeIn program parser .fromLeaf) (entryIn program parser .fromLeaf) d n

/-- A node whose paths are its dominators and post-dominators, and whose merge point is the immediate post-dominator. -/
structure AnalysedNode (n : String) (node : CfgNode) : Prop where
  dominators : IsDominatorChain (IsEdge program parser) (IsInitial program parser) n node.contractedPathFromRoot
  postDominators : IsDominatorChain (edgeIn program parser .fromLeaf) (entryIn program parser .fromLeaf) n
    node.contractedReversePathFromLeaf
  mergePoint : ∀ d,node.mergePoint = some d ↔ IsMergePoint program parser d n
  sink : node.mergePoint = none ↔ ∀ d,Dominates (edgeIn program parser .fromLeaf) (entryIn program parser .fromLeaf) d n → d = n
  continues : node.continueToMergePoint = true ↔ ∃ d,IsMergePoint program parser d n ∧
    ImmediateDominator (IsEdge program parser) (IsInitial program parser) n d

def Analysed (graph : ControlFlowGraph) : Prop :=
  ∀ n,IsNode program parser n → ∃ node,graph.lookup n = some node ∧ AnalysedNode program parser n node

/-- The nodes before each node, by name, contract rightly. -/
def ContractsEverywhere (direction : Direction) : Prop :=
  ∀ n,IsNode program parser n → ∃ names,names.Pairwise (· < ·) ∧ (∀ m,m ∈ names ↔ edgeIn program parser direction m n) ∧
    ContractsRightly (edgeIn program parser direction) (entryIn program parser direction) n names

end Statements

section Graphs
variable {program : ProgramControls} {parser : Parser} {graph : ControlFlowGraph} {direction : Direction} {m n : String}

theorem Acyclic.wellFounded_edgeIn (h : Acyclic program parser) : ∀ direction,WellFounded (edgeIn program parser direction)
  | .fromRoot => h.wellFounded.1
  | .fromLeaf => h.wellFounded.2

theorem GraphOf.mem_neighboursIn (h : GraphOf program parser graph) :
    m ∈ neighboursIn graph direction n ↔ edgeIn program parser direction m n := by
  cases direction with
  | fromRoot => exact h.mem_parentsOf
  | fromLeaf => exact h.mem_childrenOf

theorem GraphOf.neighbours_sorted (h : GraphOf program parser graph) : (neighboursIn graph direction n).Pairwise (· < ·) := by
  cases direction with
  | fromRoot => exact h.linked.parentsSorted n
  | fromLeaf => exact h.linked.childrenSorted n

theorem edgeIn_nodes (h : edgeIn program parser direction m n) : IsNode program parser m ∧ IsNode program parser n := by
  cases direction with
  | fromRoot => exact h.nodes
  | fromLeaf => exact h.nodes.symm

theorem entryIn_or_edgeIn (hn : IsNode program parser n) :
    entryIn program parser direction n ∨ ∃ m,edgeIn program parser direction m n := by
  cases direction with
  | fromRoot =>
    rcases hn with hn | hn
    · cases hn with
      | initial h => exact .inl (.inl h)
      | child hm hcs hc => exact .inr ⟨_,.inl ⟨hm,_,hcs,hc⟩⟩
    · cases hn with
      | initial h => exact .inl (.inr h)
      | child hm hcs hc => exact .inr ⟨_,.inr ⟨hm,_,hcs,hc⟩⟩
  | fromLeaf =>
    by_cases hc : ∃ c,IsEdge program parser n c
    · exact .inr hc
    · exact .inl ⟨hn,not_exists.mp hc⟩

theorem exists_pathIn (direction : Direction) (hacyclic : Acyclic program parser) (hn : IsNode program parser n) :
    ∃ path,PathTo (edgeIn program parser direction) (entryIn program parser direction) n path :=
  exists_pathTo (hacyclic.wellFounded_edgeIn direction) (fun _ _ _ h => (edgeIn_nodes h).1) (fun _ h => entryIn_or_edgeIn h) n hn

/-- The paths that the recursion makes of a graph. -/
noncomputable def pathOf (hacyclic : Acyclic program parser) (h : GraphOf program parser graph) (direction : Direction) :
    String → List String :=
  @contractedPath String _ _ (hacyclic.wellFounded_edgeIn direction) (neighboursIn graph direction) h.mem_neighboursIn.mp

variable (hacyclic : Acyclic program parser) (h : GraphOf program parser graph)

theorem pathOf_eq (n : String) : pathOf hacyclic h direction n =
    ((neighboursIn graph direction n).map (pathOf hacyclic h direction)).foldl contract [] ++ [n] :=
  contractedPath_eq (hacyclic.wellFounded_edgeIn direction) h.mem_neighboursIn.mp n

private theorem node_of_mem_pathOf {d : String} (hn : IsNode program parser n) (hd : d ∈ pathOf hacyclic h direction n) :
    IsNode program parser d := by
  have hreaches := reaches_of_mem_contractedPath (hacyclic.wellFounded_edgeIn direction) h.mem_neighboursIn.mp hd
  rcases Relation.ReflTransGen.cases_head hreaches with rfl | ⟨m,hm,-⟩
  · exact hn
  · exact (edgeIn_nodes hm).1

private theorem pathOf_chains_iff :
    (∀ n,IsNode program parser n → IsDominatorChain (edgeIn program parser direction) (entryIn program parser direction) n
      (pathOf hacyclic h direction n)) ↔ ContractsEverywhere program parser direction := by
  have hiff : (∀ n,IsNode program parser n → IsDominatorChain (edgeIn program parser direction) (entryIn program parser direction) n
      (pathOf hacyclic h direction n)) ↔ ∀ n,IsNode program parser n →
        ContractsRightly (edgeIn program parser direction) (entryIn program parser direction) n (neighboursIn graph direction n) :=
    contractedPaths_iff (hacyclic.wellFounded_edgeIn direction) h.mem_neighboursIn.mp
      (fun m n _ hm => ⟨h.mem_neighboursIn.mpr hm,(edgeIn_nodes hm).1⟩)
      fun n hn => (entryIn_or_edgeIn hn).imp id fun ⟨m,hm⟩ => List.ne_nil_of_mem (h.mem_neighboursIn.mpr hm)
  refine hiff.trans (forall₂_congr fun n hn => ?_)
  constructor
  · exact fun hcontracts => ⟨_,h.neighbours_sorted,fun m => h.mem_neighboursIn,hcontracts⟩
  · rintro ⟨names,hsorted,hnames,hcontracts⟩
    have heq := sorted_names_unique hsorted h.neighbours_sorted fun m => (hnames m).trans h.mem_neighboursIn.symm
    rwa [heq] at hcontracts

/-- A graph whose paths and continuations are set. -/
structure Completed (graph' : ControlFlowGraph) : Prop where
  edges : SameEdges graph graph'
  paths : ∀ n,IsNode program parser n → ∀ d,pathIn d graph' n = pathOf hacyclic h d n
  continuations : ∀ n,IsNode program parser n → continuationIn graph' n = some (continuationOf (pathOf hacyclic h) n)

theorem getMergePoint_pathOf {d : String} (hn : IsNode program parser n)
    (hchain : IsDominatorChain (edgeIn program parser direction) (entryIn program parser direction) n (pathOf hacyclic h direction n)) :
    getMergePoint (pathOf hacyclic h direction n) = some d ↔
      ImmediateDominator (edgeIn program parser direction) (entryIn program parser direction) d n := by
  obtain ⟨path,hpath⟩ := exists_pathIn direction hacyclic hn
  rw [pathOf_eq] at hchain ⊢
  rw [getMergePoint,List.dropLast_concat]
  exact hchain.immediate (hacyclic.wellFounded_edgeIn direction) hpath

private theorem getMergePoint_pathOf_eq_none
    (hchain : IsDominatorChain (edgeIn program parser direction) (entryIn program parser direction) n (pathOf hacyclic h direction n)) :
    getMergePoint (pathOf hacyclic h direction n) = none ↔
      ∀ d,Dominates (edgeIn program parser direction) (entryIn program parser direction) d n → d = n := by
  rw [pathOf_eq] at hchain ⊢
  rw [getMergePoint,List.dropLast_concat,List.getLast?_eq_none_iff]
  obtain ⟨-,-,hcross⟩ := List.pairwise_append.mp hchain.ordered
  constructor
  · intro hnil d hd
    rw [hnil] at hchain
    simpa using (hchain.mem d).mpr (by simpa using hd)
  · intro hall
    refine List.eq_nil_iff_forall_not_mem.mpr fun d hd => ?_
    have hdn := (hchain.mem d).mp (List.mem_append_left _ hd) n (by simp)
    exact (hcross d hd n (by simp)).1 (hall d hdn)

theorem Completed.analysed_iff {graph' : ControlFlowGraph} (hcompleted : Completed hacyclic h graph') :
    Analysed program parser graph' ↔ ∀ direction,ContractsEverywhere program parser direction := by
  have hnodes : ∀ n,IsNode program parser n → ∃ node,graph'.lookup n = some node ∧
      (∀ d,node.path d = pathOf hacyclic h d n) ∧
      (node.mergePoint,node.continueToMergePoint) = continuationOf (pathOf hacyclic h) n := by
    intro n hn
    obtain ⟨node,hnode⟩ := Option.isSome_iff_exists.mp (hcompleted.edges.present.mpr ((h.present n).mpr hn))
    refine ⟨node,hnode,fun d => (pathIn_of_lookup hnode).symm.trans (hcompleted.paths n hn d),?_⟩
    have hcontinuation := hcompleted.continuations n hn
    rw [continuationIn,hnode] at hcontinuation
    exact Option.some.inj hcontinuation
  have hall : (∀ direction,ContractsEverywhere program parser direction) ↔ ∀ direction n,IsNode program parser n →
      IsDominatorChain (edgeIn program parser direction) (entryIn program parser direction) n (pathOf hacyclic h direction n) :=
    forall_congr' fun direction => (pathOf_chains_iff hacyclic h).symm
  rw [hall]
  constructor
  · intro hanalysed direction n hn
    obtain ⟨node,hnode,hpaths,-⟩ := hnodes n hn
    obtain ⟨node',hnode',hchains⟩ := hanalysed n hn
    cases hnode.symm.trans hnode'
    rw [← hpaths]
    cases direction with
    | fromRoot => exact hchains.dominators
    | fromLeaf => exact hchains.postDominators
  · intro hchains n hn
    obtain ⟨node,hnode,hpaths,hcontinuation⟩ := hnodes n hn
    have hmerge : node.mergePoint = getMergePoint (pathOf hacyclic h .fromLeaf n) := by
      have hfst := congrArg Prod.fst hcontinuation
      unfold continuationOf at hfst
      cases hpoint : getMergePoint (pathOf hacyclic h .fromLeaf n) <;> simpa [hpoint] using hfst
    have hcontinues : node.continueToMergePoint = true ↔ ∃ d,getMergePoint (pathOf hacyclic h .fromLeaf n) = some d ∧
        getMergePoint (pathOf hacyclic h .fromRoot d) = some n := by
      have hsnd := congrArg Prod.snd hcontinuation
      unfold continuationOf at hsnd
      cases hpoint : getMergePoint (pathOf hacyclic h .fromLeaf n) <;> simp [hpoint] at hsnd <;> simp [hsnd]
    refine ⟨node,hnode,?_,?_,fun d => ?_,?_,?_⟩
    · have hroot : node.contractedPathFromRoot = pathOf hacyclic h .fromRoot n := hpaths .fromRoot
      rw [hroot]
      exact hchains .fromRoot n hn
    · have hleaf : node.contractedReversePathFromLeaf = pathOf hacyclic h .fromLeaf n := hpaths .fromLeaf
      rw [hleaf]
      exact hchains .fromLeaf n hn
    · rw [hmerge]
      exact getMergePoint_pathOf hacyclic h hn (hchains .fromLeaf n hn)
    · rw [hmerge]
      exact getMergePoint_pathOf_eq_none hacyclic h (hchains .fromLeaf n hn)
    · rw [hcontinues]
      refine exists_congr fun d => ?_
      rw [getMergePoint_pathOf hacyclic h hn (hchains .fromLeaf n hn)]
      refine and_congr_right fun hd => ?_
      obtain ⟨path,hpath⟩ := exists_pathIn .fromLeaf hacyclic hn
      obtain ⟨l,hl,-⟩ := hpath.upTo (hd.dominates path hpath)
      have hdnode : IsNode program parser d := by
        rcases hl with hentry | ⟨-,hedge⟩
        · exact hentry.1
        · exact (edgeIn_nodes hedge).2
      exact getMergePoint_pathOf hacyclic h hdnode (hchains .fromRoot d hdnode)

end Graphs

section Create
variable {program : ProgramControls} {parser : Parser} {base base' : ControlFlowGraph}

theorem GraphOf.neighboursIn_eq (h : GraphOf program parser base) (h' : GraphOf program parser base') (direction : Direction)
    (n : String) : neighboursIn base' direction n = neighboursIn base direction n :=
  sorted_names_unique h'.neighbours_sorted h.neighbours_sorted fun _ => h'.mem_neighboursIn.trans h.mem_neighboursIn.symm

theorem GraphOf.sameEdges (h : GraphOf program parser base) (h' : GraphOf program parser base') : SameEdges base base' := by
  intro n direction
  have hpresent : Present base' n ↔ Present base n := (h'.present n).trans (h.present n).symm
  have hneighbours := h.neighboursIn_eq h' direction n
  unfold Present at hpresent
  unfold neighboursIn at hneighbours
  cases hnode : base.lookup n <;> cases hnode' : base'.lookup n <;> simp_all

theorem GraphOf.pathIn_eq_nil (h : GraphOf program parser base) (d : Direction) (n : String) : pathIn d base n = [] := by
  unfold pathIn
  cases hnode : base.lookup n with
  | none => rfl
  | some node =>
    obtain ⟨hroot,hleaf⟩ := h.linked.blank n node hnode
    cases d
    · exact hroot
    · exact hleaf

theorem mem_keys_iff_present {graph : ControlFlowGraph} {n : String} : n ∈ graph.keys ↔ Present graph n := by
  rw [← AList.mem_keys,← AList.lookup_isSome]
  rfl

theorem create_ok {name : String} (hparser : program.parsers = [(name,parser)]) (hwf : WellFormed program parser)
    (hacyclic : Acyclic program parser) : ∃ base,∃ h : GraphOf program parser base,∃ depth,∀ stack ≥ depth,∃ graph,
      create stack program = .ok graph ∧ Completed hacyclic h graph := by
  obtain ⟨depth,hdepth⟩ := constructGraph_ok hwf hacyclic
  obtain ⟨base,-,h⟩ := hdepth depth le_rfl
  have hnode : ∀ n ∈ base.keys,IsNode program parser n := fun n hn => (h.present n).mp (mem_keys_iff_present.mp hn)
  have hsets := fun (direction : Direction) n hn => @setContractedPath_ok _ _ direction (hacyclic.wellFounded_edgeIn direction) _ _
    (fun n m hm => ⟨h.mem_neighboursIn.mp hm,(edgeIn_nodes (h.mem_neighboursIn.mp hm)).1⟩) (pathOf_eq hacyclic h) n (hnode n hn)
  obtain ⟨rootDepth,hroot⟩ := exists_depth (hsets .fromRoot)
  obtain ⟨leafDepth,hleaf⟩ := exists_depth (hsets .fromLeaf)
  refine ⟨base,h,max depth (max rootDepth leafDepth),fun stack hstack => ?_⟩
  obtain ⟨hstack,hrootStack,hleafStack⟩ : depth ≤ stack ∧ rootDepth ≤ stack ∧ leafDepth ≤ stack := by omega
  obtain ⟨start,hstart,h'⟩ := hdepth stack hstack
  have hkeys : ∀ n ∈ start.keys,Present start n ∧ ∀ d,pathOf hacyclic h d n ≠ [] ∧
      SetsPath (edgeIn program parser d) (pathOf hacyclic h d) d start (setContractedPath d stack) n := by
    intro n hn
    have hn' : n ∈ base.keys := mem_keys_iff_present.mpr ((h.sameEdges h').present.mp (mem_keys_iff_present.mp hn))
    refine ⟨mem_keys_iff_present.mp hn,fun d => ⟨?_,?_⟩⟩
    · rw [pathOf_eq]
      simp
    · cases d with
      | fromRoot => exact hroot stack hrootStack n hn' start h'.present (h.neighboursIn_eq h' _)
      | fromLeaf => exact hleaf stack hleafStack n hn' start h'.present (h.neighboursIn_eq h' _)
  obtain ⟨mid,hmid,hboth,hpaths⟩ := setAllPaths_ok (.refl start) (fun d m => .inl (h'.pathIn_eq_nil d m)) hkeys
  have hpresent : ∀ n,Present mid n ↔ IsNode program parser n := fun n => hboth.same.present.trans (h'.present n)
  have hmidPaths : ∀ n,Present mid n → ∀ d,pathIn d mid n = pathOf hacyclic h d n := fun n hn d =>
    hpaths n (mem_keys_iff_present.mpr (hboth.same.present.mp hn)) d
  obtain ⟨graph,hgraph,hsame,-,hcontinuations⟩ := setAllContinuations_ok (fun n hn => mem_keys_iff_present.mp hn) hmidPaths
    fun n hn m hm => (hpresent m).mpr (node_of_mem_pathOf hacyclic h ((hpresent n).mp hn) hm)
  refine ⟨graph,?_,?_⟩
  · rw [create,hparser]
    exact bind_eq_ok.mpr ⟨start,hstart,bind_eq_ok.mpr ⟨mid,hmid,hgraph⟩⟩
  · refine ⟨(h.sameEdges h').trans (hboth.same.trans hsame.edges),fun n hn d => ?_,fun n hn => ?_⟩
    · rw [hsame.paths,hmidPaths n ((hpresent n).mpr hn)]
    · exact hcontinuations n (mem_keys_iff_present.mpr ((hpresent n).mpr hn))

/-- With enough stack, the analysis ends, and tells the dominators, post-dominators and merge points of all nodes
exactly where their neighbours contract rightly in both directions. -/
theorem control_flow_analysed_iff {name : String} (hparser : program.parsers = [(name,parser)]) (hwf : WellFormed program parser)
    (hacyclic : Acyclic program parser) : ∃ depth,∀ stack ≥ depth,∃ graph,create stack program = .ok graph ∧
      (Analysed program parser graph ↔ ∀ direction,ContractsEverywhere program parser direction) := by
  obtain ⟨base,h,depth,hdepth⟩ := create_ok hparser hwf hacyclic
  refine ⟨depth,fun stack hstack => ?_⟩
  obtain ⟨graph,hgraph,hcompleted⟩ := hdepth stack hstack
  exact ⟨graph,hgraph,hcompleted.analysed_iff hacyclic h⟩

end Create

section Listed
variable {program : ProgramControls} {parser : Parser} {children : String → StatusOr (List String)} {names : List String} {n : String}

/-- A list of names in which children come after their parents. -/
def Follows (children : String → StatusOr (List String)) (names : List String) : Prop :=
  ∀ n ∈ names,(children n).toOption.any (fun cs => decide (∀ c ∈ cs,c ∈ names ∧ names.idxOf n < names.idxOf c)) = true

instance : Decidable (Follows children names) := inferInstanceAs (Decidable (∀ n ∈ names,_))

theorem Follows.child (h : Follows children names) (hn : n ∈ names) : ∃ cs,children n = .ok cs ∧
    ∀ c ∈ cs,c ∈ names ∧ names.idxOf n < names.idxOf c := by
  have hany := h n hn
  cases hcs : children n with
  | error e =>
    rw [hcs] at hany
    cases hany
  | ok cs =>
    rw [hcs] at hany
    exact ⟨cs,rfl,of_decide_eq_true hany⟩

theorem Follows.reachable {initial : String → Prop} (h : Follows children names) (hinitial : ∀ n,initial n → n ∈ names)
    (hn : Reachable children initial n) : n ∈ names := by
  induction hn with
  | initial hn => exact hinitial _ hn
  | child _ hcs hc ih =>
    obtain ⟨cs,hcs',hall⟩ := h.child ih
    cases hcs.symm.trans hcs'
    exact (hall _ hc).1

theorem acyclic_of_follows (names states : List String) (hcontrols : Follows (controlChildren program) names)
    (hstates : Follows (parseStateChildren parser) states) (hdisjoint : ∀ n ∈ names,n ∉ states)
    (hinitial : ∀ pipeline ∈ program.pipeline,pipeline.2.initialControl ∈ names) (hparser : parser.initialState ∈ states) :
    WellFormed program parser ∧ Acyclic program parser := by
  have hcontrol : ∀ n,IsControl program n → n ∈ names := fun n => hcontrols.reachable fun n ⟨pipeline,hpipeline,heq⟩ =>
    heq ▸ hinitial pipeline hpipeline
  have hstate : ∀ n,IsParseState parser n → n ∈ states := fun n => hstates.reachable fun n heq => heq ▸ hparser
  refine ⟨⟨fun n hn => ?_,fun n hn => ?_,fun n hn => hdisjoint n (hcontrol n hn.1) (hstate n hn.2)⟩,fun n hn => ?_⟩
  · obtain ⟨cs,hcs,-⟩ := hcontrols.child (hcontrol n hn)
    exact ⟨cs,hcs⟩
  · obtain ⟨cs,hcs,-⟩ := hstates.child (hstate n hn)
    exact ⟨cs,hcs⟩
  · -- along the edges, the place in the two lists grows
    have hedge : ∀ a b,IsEdge program parser a b → (names ++ states).idxOf a < (names ++ states).idxOf b := by
      rintro a b (⟨ha,cs,hcs,hb⟩ | ⟨ha,cs,hcs,hb⟩)
      · obtain ⟨cs',hcs',hall⟩ := hcontrols.child (hcontrol a ha)
        cases hcs.symm.trans hcs'
        rw [List.idxOf_append_of_mem (hcontrol a ha),List.idxOf_append_of_mem (hall b hb).1]
        exact (hall b hb).2
      · obtain ⟨cs',hcs',hall⟩ := hstates.child (hstate a ha)
        cases hcs.symm.trans hcs'
        rw [List.idxOf_append_of_notMem fun h => hdisjoint a h (hstate a ha),
          List.idxOf_append_of_notMem fun h => hdisjoint b h (hall b hb).1]
        exact Nat.add_lt_add_left (hall b hb).2 _
    have hless : ∀ {a b},Relation.TransGen (IsEdge program parser) a b → (names ++ states).idxOf a < (names ++ states).idxOf b := by
      intro a b h
      induction h with
      | single h => exact hedge _ _ h
      | tail _ h ih => exact ih.trans (hedge _ _ h)
    exact lt_irrefl _ (hless hn)

end Listed

/-- A parser that accepts every packet at once. -/
def emptyParser : Parser := { initialState := endOfParser }

/-- A branch with a table on one side and two on the other, and a table after it. -/
def oneBranch : ProgramControls where
  parsers := [("parser",emptyParser)]
  pipeline := [("ingress",⟨"a"⟩)]
  conditionals := [("a",⟨"b","c"⟩)]
  tables := [("b",⟨[("NoAction","e")]⟩),("c",⟨[("NoAction","d"),("drop","e")]⟩),("d",⟨[("NoAction","e")]⟩),
    ("e",⟨[("NoAction",endOfPipeline)]⟩)]

/-- One table in the ingress pipeline, and a branch with two tables in the egress pipeline. -/
def twoPipelines : ProgramControls where
  parsers := [("parser",emptyParser)]
  pipeline := [("ingress",⟨"a"⟩),("egress",⟨"b"⟩)]
  conditionals := [("b",⟨"c","d"⟩)]
  tables := [("a",⟨[("NoAction",endOfPipeline)]⟩),("c",⟨[("NoAction",endOfPipeline)]⟩),("d",⟨[("NoAction",endOfPipeline)]⟩)]

theorem oneBranch_ok : WellFormed oneBranch emptyParser ∧ Acyclic oneBranch emptyParser :=
  acyclic_of_follows ["a","b","c","d","e",endOfPipeline] [endOfParser] (by decide) (by decide)
    (by decide) (by decide) (by decide)

theorem twoPipelines_ok : WellFormed twoPipelines emptyParser ∧ Acyclic twoPipelines emptyParser :=
  acyclic_of_follows ["a","b","c","d",endOfPipeline] [endOfParser] (by decide) (by decide)
    (by decide) (by decide) (by decide)

theorem one_branch_analysed : ∃ depth,∀ stack ≥ depth,∃ graph,create stack oneBranch = .ok graph ∧
    (Analysed oneBranch emptyParser graph ↔ ∀ direction,ContractsEverywhere oneBranch emptyParser direction) :=
  control_flow_analysed_iff rfl oneBranch_ok.1 oneBranch_ok.2

/-- The last of three tables that end a pipeline takes the place of what no two of them share. -/
theorem merged_pipelines_share_no_table : WellFormed twoPipelines emptyParser ∧ Acyclic twoPipelines emptyParser ∧
    ∃ graph,create 10 twoPipelines = .ok graph ∧ ¬ Analysed twoPipelines emptyParser graph := by
  refine ⟨twoPipelines_ok.1,twoPipelines_ok.2,?_⟩
  have hpath : ((create 10 twoPipelines).toOption.bind fun graph => (graph.lookup endOfPipeline).map CfgNode.contractedPathFromRoot) =
      some ["b","d",endOfPipeline] := by decide
  obtain ⟨graph,hgraph,hnode⟩ := Option.bind_eq_some_iff.mp hpath
  obtain ⟨node,hlookup,hnode⟩ := Option.map_eq_some_iff.mp hnode
  refine ⟨graph,toOption_eq_some.mp hgraph,fun hanalysed => ?_⟩
  have ha : IsControl twoPipelines "a" := .initial ⟨("ingress",⟨"a"⟩),by decide,rfl⟩
  have hedge : IsEdge twoPipelines emptyParser "a" endOfPipeline := .inl ⟨ha,[endOfPipeline],by decide,by decide⟩
  obtain ⟨node',hnode',hchains⟩ := hanalysed endOfPipeline hedge.nodes.2
  cases hlookup.symm.trans hnode'
  have hdominators := hchains.dominators
  rw [hnode] at hdominators
  have hb := (hdominators.mem "b").mp (by decide) endOfPipeline (by simp)
  -- the ingress pipeline does not go through the branch of the egress pipeline
  have hpath := hb _ (.step (.entry (.inl ⟨("ingress",⟨"a"⟩),by decide,rfl⟩)) hedge)
  revert hpath
  decide

end SonicPins.P4Symbolic.Cfg
