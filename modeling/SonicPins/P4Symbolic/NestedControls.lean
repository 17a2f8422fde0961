import SonicPins.Lib.WellNested
import SonicPins.P4Symbolic.ControlFlowAnalysis
import SonicPins.P4Symbolic.ControlMeaning

/-! Programs that are annotated by the control flow analysis: where their branches are nested, the evaluation of each pipeline stops at
the merge points that it should, and at its end. -/
namespace SonicPins.P4Symbolic.Evaluation
open Lib Pdpi Cfg Relation SymbolicPerPacketState

/-- What the control flow graph of a program is built from. -/
def controlsOf (program : Ir.Program) (parserName : String) (parser : Parser) : ProgramControls where
  parsers := [(parserName,parser)]
  pipeline := program.pipeline.map fun x => (x.1,⟨x.2⟩)
  conditionals := program.conditionals.map fun x => (x.1,⟨x.2.ifBranch,x.2.elseBranch⟩)
  tables := program.tables.map fun x => (x.1,⟨x.2.actionToNextControl⟩)

def getOptimizedSymbolicExecutionInfo (graph : ControlFlowGraph) (nodeName : String) : StatusOr Ir.OptimizedSymbolicExecutionInfo := do
  let node ← getMutableNode graph nodeName
  match node.mergePoint with
  | none => .error (invalidArgument ("Control node '" ++ node.nodeName ++ "' does not have a merge point"))
  | some mergePoint => .ok ⟨mergePoint,node.continueToMergePoint⟩

/-- A program whose tables and conditionals have what the graph says of them. -/
structure Annotated (graph : ControlFlowGraph) (program : Ir.Program) : Prop where
  tables : ∀ name table,program.tables.lookup name = some table → getOptimizedSymbolicExecutionInfo graph name = .ok table.info
  conditionals : ∀ name conditional,program.conditionals.lookup name = some conditional →
    getOptimizedSymbolicExecutionInfo graph name = .ok conditional.info

/-- The controls of a pipeline before its end are entered through the initial one. -/
def SeparatePipelines (controls : ProgramControls) (parser : Parser) : Prop :=
  ∀ i x,IsInitialControl controls i → ReflTransGen (IsEdge controls parser) i x → TransGen (IsEdge controls parser) x endOfPipeline →
    Dominates (IsEdge controls parser) (IsInitial controls parser) i x

/-- A program with known controls, each a table or a conditional, without cycles, whose pipelines are separate and whose branches are
nested. -/
structure WellStructured (program : Ir.Program) (controls : ProgramControls) (parser : Parser) : Prop where
  controls_eq : ∃ parserName,controls = controlsOf program parserName parser
  wellFormed : WellFormed controls parser
  acyclic : Acyclic controls parser
  distinct : ∀ name,program.tables.lookup name = none ∨ program.conditionals.lookup name = none
  next : ∀ name table,program.tables.lookup name = some table → NextControls table
  separate : SeparatePipelines controls parser
  nested : WellNested (IsEdge controls parser) (IsInitial controls parser) (entryIn controls parser .fromLeaf) (IsControl controls)

section Stack
variable {α β : Type}

/-- A result of the one is a result of the other. -/
def Implies (x x' : Fallible α) : Prop := ∀ a,x = .ok a → x' = .ok a

theorem Implies.refl (x : Fallible α) : Implies x x := fun _ h => h

theorem Implies.bind {x x' : Fallible α} {f f' : α → Fallible β} (hx : Implies x x') (hf : ∀ a,Implies (f a) (f' a)) :
    Implies (x >>= f) (x' >>= f') := by
  intro b h
  obtain ⟨a,ha,hb⟩ := bind_eq_ok.mp h
  exact bind_eq_ok.mpr ⟨a,hx a ha,hf a b hb⟩

theorem Implies.foldlM {f f' : β → α → Fallible β} (hf : ∀ b a,Implies (f b a) (f' b a)) (l : List α) (b : β) :
    Implies (l.foldlM f b) (l.foldlM f' b) := by
  induction l generalizing b with
  | nil => exact .refl _
  | cons a l ih =>
    rw [List.foldlM_cons,List.foldlM_cons]
    exact (hf b a).bind ih

variable {stack stack' : Nat}

theorem constructSubgraph_stack {children : String → StatusOr (List String)} {nodeType : CfgNodeType} (hle : stack ≤ stack')
    (graph : ControlFlowGraph) (nodeName : String) :
    Implies (constructSubgraph children nodeType stack graph nodeName) (constructSubgraph children nodeType stack' graph nodeName) := by
  induction stack generalizing stack' graph nodeName with
  | zero => exact fun _ h => by cases h
  | succ stack ih =>
    obtain ⟨k,rfl⟩ : ∃ k,stack' = k + 1 := ⟨stack' - 1,by omega⟩
    refine .bind (.refl _) fun graph => .bind (.refl _) fun names => .foldlM (fun graph child => ?_) names graph
    refine .bind (.refl _) fun graph => .bind (.refl _) fun node => ?_
    dsimp only
    split
    · exact ih (by omega) _ _
    · exact .refl _

theorem getPath_mono {setPath setPath' : ControlFlowGraph → String → Fallible ControlFlowGraph} {direction : Direction}
    (h : ∀ graph name,Implies (setPath graph name) (setPath' graph name)) (graph : ControlFlowGraph) (name : String) :
    Implies (getPath setPath direction graph name) (getPath setPath' direction graph name) := by
  refine .bind (.refl _) fun node => ?_
  split
  · exact .refl _
  · exact (h _ _).bind fun _ => .refl _

theorem setContractedPath_stack {direction : Direction} (hle : stack ≤ stack') (graph : ControlFlowGraph) (nodeName : String) :
    Implies (setContractedPath direction stack graph nodeName) (setContractedPath direction stack' graph nodeName) := by
  induction stack generalizing stack' graph nodeName with
  | zero => exact fun _ h => by cases h
  | succ stack ih =>
    obtain ⟨k,rfl⟩ : ∃ k,stack' = k + 1 := ⟨stack' - 1,by omega⟩
    refine .bind (.refl _) fun node => .bind (.foldlM (fun graph neighbour => ?_) _ _) fun _ => .refl _
    exact .bind (getPath_mono (fun graph name => ih (by omega) graph name) graph neighbour) fun _ => .refl _

theorem create_stack {controls : ProgramControls} (hle : stack ≤ stack') : Implies (create stack controls) (create stack' controls) := by
  unfold create
  split
  · refine .bind (.bind (constructSubgraph_stack hle _ _) fun graph => .foldlM (fun graph pipeline => constructSubgraph_stack hle _ _) _ _)
      fun graph => .bind (.foldlM (fun graph name => ?_) _ _) fun _ => .refl _
    exact .bind (getPath_mono (setContractedPath_stack hle) _ _) fun _ =>
      .bind (getPath_mono (setContractedPath_stack hle) _ _) fun _ => .refl _
  · exact .refl _

end Stack

section Controls
variable {program : Ir.Program} {controls : ProgramControls} {parser : Parser} {n c : String} (h : WellStructured program controls parser)
include h

theorem WellStructured.isEdge_iff {cs : List String} (hn : IsControl controls n) (hcs : controlChildren controls n = .ok cs) :
    IsEdge controls parser n c ↔ c ∈ cs := by
  constructor
  · rintro (⟨-,cs',hcs',hc⟩ | ⟨hstate,-⟩)
    · cases hcs.symm.trans hcs'
      exact hc
    · exact absurd ⟨hn,hstate⟩ (h.wellFormed.disjoint n)
  · exact fun hc => .inl ⟨hn,cs,hcs,hc⟩

theorem WellStructured.closed (hn : IsControl controls n) (hedge : IsEdge controls parser n c) : IsControl controls c := by
  rcases hedge with ⟨-,cs,hcs,hc⟩ | ⟨hstate,-⟩
  · exact .child hn hcs hc
  · exact absurd ⟨hn,hstate⟩ (h.wellFormed.disjoint n)

theorem WellStructured.cases (hn : IsControl controls n) (hne : n ≠ endOfPipeline) :
    (∃ table,program.tables.lookup n = some table ∧ ∀ c,IsEdge controls parser n c ↔ c ∈ table.actionToNextControl.map Prod.snd) ∨
    ∃ conditional,program.tables.lookup n = none ∧ program.conditionals.lookup n = some conditional ∧
      ∀ c,IsEdge controls parser n c ↔ c ∈ [conditional.ifBranch,conditional.elseBranch] := by
  obtain ⟨cs,hcs⟩ := h.wellFormed.controls n hn
  have hedges := fun c => h.isEdge_iff (c := c) hn hcs
  obtain ⟨parserName,hcontrols⟩ := h.controls_eq
  have hconditionals : controls.conditionals.lookup n = (program.conditionals.lookup n).map fun c => ⟨c.ifBranch,c.elseBranch⟩ := by
    rw [hcontrols]
    exact lookup_mapValues (fun c : Ir.Conditional => (⟨c.ifBranch,c.elseBranch⟩ : Cfg.Conditional)) _ n
  have htables : controls.tables.lookup n = (program.tables.lookup n).map fun t => ⟨t.actionToNextControl⟩ := by
    rw [hcontrols]
    exact lookup_mapValues (fun t : Ir.ProgramTable => (⟨t.actionToNextControl⟩ : TableImplementation)) _ n
  rw [controlChildren,if_neg hne,hconditionals,htables] at hcs
  cases hconditional : program.conditionals.lookup n with
  | some conditional =>
    rw [hconditional] at hcs
    cases hcs
    refine .inr ⟨conditional,(h.distinct n).resolve_right (by simp [hconditional]),rfl,fun c => ?_⟩
    rw [hedges,mem_nameSet]
  | none =>
    rw [hconditional] at hcs
    cases htable : program.tables.lookup n with
    | none =>
      rw [htable] at hcs
      cases hcs
    | some table =>
      rw [htable] at hcs
      cases hcs
      refine .inl ⟨table,rfl,fun c => ?_⟩
      rw [hedges,mem_nameSet]

theorem WellStructured.not_isEdge_end (hn : IsControl controls endOfPipeline) : ¬ IsEdge controls parser endOfPipeline c :=
  fun hedge => List.not_mem_nil ((h.isEdge_iff hn (if_pos rfl)).mp hedge)

theorem WellStructured.exists_edge (hn : IsControl controls n) (hne : n ≠ endOfPipeline) : ∃ c,IsEdge controls parser n c := by
  rcases h.cases hn hne with ⟨table,htable,hedges⟩ | ⟨conditional,-,-,hedges⟩
  · obtain ⟨x,hx⟩ := List.exists_mem_of_ne_nil _ (h.next n table htable).nonempty
    exact ⟨x.2,(hedges _).mpr (List.mem_map_of_mem hx)⟩
  · exact ⟨_,(hedges _).mpr List.mem_cons_self⟩

theorem WellStructured.flowGraph :
    FlowGraph (IsEdge controls parser) (IsInitial controls parser) (entryIn controls parser .fromLeaf) (IsControl controls) where
  wellFounded := h.acyclic.wellFounded_edgeIn .fromLeaf
  closed _ _ hn hedge := h.closed hn hedge
  reached _ hn := exists_pathIn .fromRoot h.acyclic (.inl hn)
  leads _ hn := exists_pathIn .fromLeaf h.acyclic (.inl hn)

theorem WellStructured.end_dominates (hn : IsControl controls n) :
    Dominates (edgeIn controls parser .fromLeaf) (entryIn controls parser .fromLeaf) endOfPipeline n := by
  induction n using (h.acyclic.wellFounded_edgeIn .fromLeaf).induction with
  | h n ih =>
    by_cases hne : n = endOfPipeline
    · rw [hne]
      exact dominates_self _
    · obtain ⟨c,hc⟩ := h.exists_edge hn hne
      exact dominates_iff.mpr (.inr ⟨fun hsink => hsink.2 c hc,fun m hm => ih m hm (h.closed hn hm)⟩)

theorem WellStructured.exists_initial (hn : IsControl controls n) : ∃ i,IsInitialControl controls i ∧
    ReflTransGen (IsEdge controls parser) i n ∧ ∀ m,ReflTransGen (IsEdge controls parser) n m → m ≠ endOfPipeline →
      Dominates (IsEdge controls parser) (IsInitial controls parser) i m := by
  suffices ∃ i,IsInitialControl controls i ∧ ReflTransGen (IsEdge controls parser) i n by
    obtain ⟨i,hi,hpath⟩ := this
    refine ⟨i,hi,hpath,fun m hm hne => h.separate i m hi (hpath.trans hm) ?_⟩
    have hend := h.flowGraph.leadsTo (h.flowGraph.closed_path hn hm) (h.end_dominates (h.flowGraph.closed_path hn hm))
    exact (reflTransGen_iff_eq_or_transGen.mp hend).resolve_left (Ne.symm hne)
  induction hn with
  | initial hi => exact ⟨_,hi,.refl⟩
  | child hn hcs hc ih =>
    obtain ⟨i,hi,hpath⟩ := ih
    exact ⟨i,hi,hpath.tail (.inl ⟨hn,_,hcs,hc⟩)⟩

end Controls

section Chains
variable {program : Ir.Program} {controls : ProgramControls} {parser : Parser} {n : String} {base graph : ControlFlowGraph}
  (h : WellStructured program controls parser) (hbase : GraphOf controls parser base)
include h

theorem WellStructured.leaf_chain (hn : IsControl controls n) : IsDominatorChain (edgeIn controls parser .fromLeaf)
    (entryIn controls parser .fromLeaf) n (pathOf h.acyclic hbase .fromLeaf n) := by
  refine (contractedPaths_iff (h.acyclic.wellFounded_edgeIn .fromLeaf) hbase.mem_neighboursIn.mp
    (fun m n (hn : IsControl controls n) hm => ⟨hbase.mem_neighboursIn.mpr hm,h.closed hn hm⟩) (fun n hn => ?_)).mpr (fun n hn => ?_) n hn
  · exact (entryIn_or_edgeIn (.inl hn)).imp id fun ⟨m,hm⟩ => List.ne_nil_of_mem (hbase.mem_neighboursIn.mpr hm)
  · by_cases hne : n = endOfPipeline
    · subst hne
      have hnil : neighboursIn base .fromLeaf endOfPipeline = [] := List.eq_nil_iff_forall_not_mem.mpr fun m hm =>
        h.not_isEdge_end hn (show IsEdge controls parser endOfPipeline m from hbase.mem_neighboursIn.mp hm)
      rw [hnil]
      exact .inl .nil
    · obtain ⟨c,hc⟩ := h.exists_edge hn hne
      have hend := fun p (hp : p ∈ neighboursIn base .fromLeaf n) => h.end_dominates (h.closed hn (hbase.mem_neighboursIn.mp hp))
      exact .inr ⟨fun hsink => hsink.2 c hc,fun p hp q hq => ⟨_,hend p hp,hend q hq⟩⟩

theorem WellStructured.root_chain (hn : IsControl controls n) (hne : n ≠ endOfPipeline) : IsDominatorChain
    (edgeIn controls parser .fromRoot)
    (entryIn controls parser .fromRoot) n (pathOf h.acyclic hbase .fromRoot n) := by
  have hbefore : ∀ m n,(IsControl controls n ∧ n ≠ endOfPipeline) → IsEdge controls parser m n →
      IsControl controls m ∧ m ≠ endOfPipeline := by
    rintro m n ⟨hn,-⟩ hedge
    have hm : IsControl controls m := by
      rcases hedge with ⟨hm,-⟩ | ⟨hm,cs,hcs,hc⟩
      · exact hm
      · exact absurd ⟨hn,.child hm hcs hc⟩ (h.wellFormed.disjoint n)
    exact ⟨hm,fun heq => h.not_isEdge_end (heq ▸ hm) (heq ▸ hedge)⟩
  refine (contractedPaths_iff (h.acyclic.wellFounded_edgeIn .fromRoot) hbase.mem_neighboursIn.mp
    (fun m n (hn : IsControl controls n ∧ n ≠ endOfPipeline) hm => ⟨hbase.mem_neighboursIn.mpr hm,hbefore m n hn hm⟩)
    (fun n hn => ?_)).mpr (fun n hn => ?_) n ⟨hn,hne⟩
  · exact (entryIn_or_edgeIn (.inl hn.1)).imp id fun ⟨m,hm⟩ => List.ne_nil_of_mem (hbase.mem_neighboursIn.mpr hm)
  · have hdom : ∀ m ∈ neighboursIn base .fromRoot n,∃ i,IsInitialControl controls i ∧ ReflTransGen (IsEdge controls parser) i m ∧
        Dominates (IsEdge controls parser) (IsInitial controls parser) i m ∧
        Dominates (IsEdge controls parser) (IsInitial controls parser) i n := by
      intro m hm
      have hedge : IsEdge controls parser m n := hbase.mem_neighboursIn.mp hm
      obtain ⟨hmc,hmne⟩ := hbefore m n hn hedge
      obtain ⟨i,hi,hpath,hall⟩ := h.exists_initial hmc
      exact ⟨i,hi,hpath,hall m .refl hmne,hall n (.single hedge) hn.2⟩
    by_cases hentry : IsInitial controls parser n
    · have hnil : neighboursIn base .fromRoot n = [] := by
        refine List.eq_nil_iff_forall_not_mem.mpr fun m hm => ?_
        obtain ⟨i,-,hpath,-,hin⟩ := hdom m hm
        rw [List.mem_singleton.mp (hin _ (.entry hentry))] at hpath
        exact h.acyclic n (TransGen.tail' hpath (hbase.mem_neighboursIn.mp hm))
      rw [hnil]
      exact .inl .nil
    · refine .inr ⟨hentry,fun p hp q hq => ?_⟩
      obtain ⟨i,hi,-,hip,hin⟩ := hdom p hp
      refine ⟨i,hip,fun l hl => ?_⟩
      have hne : i ≠ n := fun heq => hentry (heq ▸ .inl hi)
      exact (List.mem_append.mp (hin _ (.step hl (hbase.mem_neighboursIn.mp hq)))).resolve_right (by simpa using hne)

variable {hbase}

theorem WellStructured.merges (hcompleted : Completed h.acyclic hbase graph) (hn : IsControl controls n)
    {info : Ir.OptimizedSymbolicExecutionInfo} (hinfo : getOptimizedSymbolicExecutionInfo graph n = .ok info) :
    IsMergePoint controls parser info.mergePoint n ∧ (info.mergePoint ≠ endOfPipeline →
      (info.continueToMergePoint = true ↔ ImmediateDominator (IsEdge controls parser) (IsInitial controls parser) n info.mergePoint)) := by
  obtain ⟨node,hnode,hinfo⟩ := bind_eq_ok.mp hinfo
  have hcontinuation := hcompleted.continuations n (.inl hn)
  rw [continuationIn,getMutableNode_eq_ok.mp hnode,continuationOf] at hcontinuation
  have hleaf := getMergePoint_pathOf h.acyclic hbase (d := info.mergePoint) (.inl hn) (h.leaf_chain hbase hn)
  cases hpoint : getMergePoint (pathOf h.acyclic hbase .fromLeaf n) with
  | none =>
    rw [hpoint] at hcontinuation
    obtain ⟨hmerge,-⟩ := Prod.mk.inj (Option.some.inj hcontinuation)
    rw [hmerge] at hinfo
    cases hinfo
  | some mergePoint =>
    rw [hpoint] at hcontinuation
    obtain ⟨hmerge,hcontinues⟩ := Prod.mk.inj (Option.some.inj hcontinuation)
    rw [hmerge] at hinfo
    cases hinfo
    have himmediate := hleaf.mp hpoint
    refine ⟨himmediate,fun hne => ?_⟩
    have hm := h.flowGraph.closed_path hn (h.flowGraph.leadsTo hn himmediate.dominates)
    rw [hcontinues,decide_eq_true_iff]
    exact getMergePoint_pathOf h.acyclic hbase (.inl hm) (h.root_chain hbase hm hne)

/-- The annotation of a control decides how its evaluation goes on. -/
theorem WellStructured.goesOn (hcompleted : Completed h.acyclic hbase graph) {m stop : String} (hn : IsControl controls n)
    {info : Ir.OptimizedSymbolicExecutionInfo} (hinfo : getOptimizedSymbolicExecutionInfo graph n = .ok info)
    (hm : IsMergePoint controls parser m n)
    (hcontinues : ImmediateDominator (IsEdge controls parser) (IsInitial controls parser) n m → StopsAt program m stop)
    (hstops : ¬ ImmediateDominator (IsEdge controls parser) (IsInitial controls parser) n m → stop = m) :
    info.mergePoint = m ∧ (info.continueToMergePoint = true → StopsAt program m stop) ∧
      (info.continueToMergePoint = false → stop = m) := by
  obtain ⟨hmerge,hflag⟩ := h.merges hcompleted hn hinfo
  obtain ⟨path,hpath⟩ := h.flowGraph.leads n hn
  have heq : info.mergePoint = m := (hm.last _ hmerge.dominates hmerge.ne).antisymm (h.acyclic.wellFounded_edgeIn .fromLeaf)
    (hpath.upTo (hmerge.dominates path hpath)).choose_spec.1 (hmerge.last _ hm.dominates hm.ne)
  refine ⟨heq,?_⟩
  rw [heq] at hflag
  by_cases hend : m = endOfPipeline
  · have hstop : stop = m := by
      by_cases himmediate : ImmediateDominator (IsEdge controls parser) (IsInitial controls parser) n m
      · have hfinish := hcontinues himmediate
        rw [hend] at hfinish ⊢
        cases hfinish with
        | finish => rfl
        | table hne => exact absurd rfl hne
        | conditional hne => exact absurd rfl hne
      · exact hstops himmediate
    rw [hstop,hend]
    exact ⟨fun _ => .finish,fun _ => rfl⟩
  · refine ⟨fun htrue => hcontinues ((hflag hend).mp htrue),fun hfalse => hstops fun himmediate => ?_⟩
    rw [(hflag hend).mpr himmediate] at hfalse
    cases hfalse

end Chains

section Pipelines
variable {program : Ir.Program} {controls : ProgramControls} {parser : Parser} {stack : Nat} {graph : ControlFlowGraph}

private theorem stopsAt_of_create (h : WellStructured program controls parser) (hgraph : create stack controls = .ok graph)
    (hannotated : Annotated graph program) {pipeline : String × String} (hpipeline : pipeline ∈ program.pipeline) :
    StopsAt program pipeline.2 endOfPipeline := by
  obtain ⟨parserName,hcontrols⟩ := h.controls_eq
  have hparser : controls.parsers = [(parserName,parser)] := by
    rw [hcontrols]
    rfl
  obtain ⟨base,hbase,depth,hdepth⟩ := create_ok hparser h.wellFormed h.acyclic
  have hcompleted : Completed h.acyclic hbase graph := by
    obtain ⟨graph',hgraph',hcompleted⟩ := hdepth (max depth stack) (le_max_left _ _)
    rw [create_stack (le_max_right _ _) graph hgraph] at hgraph'
    cases hgraph'
    exact hcompleted
  have hinitial : IsInitialControl controls pipeline.2 := by
    rw [hcontrols]
    exact ⟨_,List.mem_map_of_mem hpipeline,rfl⟩
  have hnotEnd : ∀ {n c},IsControl controls n → IsEdge controls parser n c → n ≠ endOfPipeline :=
    fun hn hedge heq => h.not_isEdge_end (heq ▸ hn) (heq ▸ hedge)
  refine h.flowGraph.stops (S := StopsAt program) (fun n m stop hn hm hbranches hcontinues hstops => ?_) (fun n c hn hedge => ?_) h.nested
    (.initial hinitial) (h.end_dominates (.initial hinitial)) (h.separate _ · hinitial) .finish
  · obtain ⟨c,hc⟩ : ∃ c,IsEdge controls parser n c := by
      by_contra hnone
      exact hm.ne (List.mem_singleton.mp (hm.dominates _ (.entry ⟨.inl hn,not_exists.mp hnone⟩)))
    rcases h.cases hn (hnotEnd hn hc) with ⟨table,htable,hedges⟩ | ⟨conditional,htable,hconditional,hedges⟩
    · obtain ⟨rfl,hcontinue,hstop⟩ := h.goesOn hcompleted hn (hannotated.tables n table htable) hm hcontinues hstops
      exact .table (hnotEnd hn hc) htable (h.next n table htable)
        (fun x hx hxm => hbranches x.2 ((hedges _).mpr (List.mem_map_of_mem hx)) hxm) hcontinue hstop
    · obtain ⟨rfl,hcontinue,hstop⟩ := h.goesOn hcompleted hn (hannotated.conditionals n conditional hconditional) hm hcontinues hstops
      exact .conditional (hnotEnd hn hc) htable hconditional (fun next hnext hxm =>
        hbranches next ((hedges _).mpr hnext) hxm) hcontinue hstop
  · rcases h.cases hn (hnotEnd hn hedge) with ⟨table,htable,-⟩ | ⟨conditional,-,hconditional,-⟩
    · exact ⟨_,(h.merges hcompleted hn (hannotated.tables n table htable)).1⟩
    · exact ⟨_,(h.merges hcompleted hn (hannotated.conditionals n conditional hconditional)).1⟩

/-- The evaluation of a well-structured program that is annotated with the results of the analysis follows the runs of its controls. -/
theorem annotated_evaluation_follows [InetText] {entries : Ir.TableEntries} {simplify : Term → Term} {depth : Nat} {pipelineName : String}
    {state : EvaluationState} {headers : SymbolicPerPacketState} {guard : Term} {r : Evaluated}
    (h : WellStructured program controls parser) (hgraph : create stack controls = .ok graph) (hannotated : Annotated graph program)
    (hsimplify : Simplifies simplify) (hindexed : Indexed entries) (hs : SoundPacket headers) (hguard : Boolean guard)
    (hr : evaluatePipeline simplify program entries depth pipelineName state headers guard = .ok r) :
    ∃ initialControl,program.pipeline.lookup pipelineName = some initialControl ∧
      Evaluates program entries initialControl endOfPipeline guard state headers r := by
  rw [evaluatePipeline] at hr
  cases hlookup : program.pipeline.lookup pipelineName with
  | none =>
    rw [hlookup] at hr
    cases hr
  | some initialControl =>
    rw [hlookup] at hr
    have hstops := stopsAt_of_create h hgraph hannotated (mem_of_lookup_eq_some hlookup)
    exact ⟨initialControl,rfl,evaluateControl_correct hsimplify hindexed depth hstops hs hguard hr⟩

end Pipelines

def cloneControls : ProgramControls := controlsOf cloneProgram "parser" emptyParser

theorem isEdge_clone {a b : String} (h : IsEdge cloneControls emptyParser a b) :
    a = "c" ∧ b ∈ ["t",endOfPipeline] ∨ a = "t" ∧ b = endOfPipeline := by
  rcases h with ⟨ha,cs,hcs,hb⟩ | ⟨ha,cs,hcs,hb⟩
  · have hlisted : Cfg.Follows (controlChildren cloneControls) ["c","t",endOfPipeline] := by decide
    have hmem := hlisted.reachable (by rintro n ⟨pipeline,hpipeline,rfl⟩; fin_cases hpipeline; exact List.mem_cons_self) ha
    fin_cases hmem
    · cases hcs
      exact .inl ⟨rfl,(show List.Perm [endOfPipeline,"t"] ["t",endOfPipeline] from .swap ..).mem_iff.mp hb⟩
    · cases hcs
      exact .inr ⟨rfl,List.mem_singleton.mp hb⟩
    · cases hcs
      cases hb
  · have hlisted : Cfg.Follows (parseStateChildren emptyParser) [endOfParser] := by decide
    have hmem := hlisted.reachable (by rintro n rfl; exact List.mem_cons_self) ha
    rw [List.mem_singleton.mp hmem] at hcs
    cases hcs
    cases hb

theorem eq_table_clone {a x m : String} (ha : a ≠ "c") (hx : ReflTransGen (IsEdge cloneControls emptyParser) a x)
    (hm : TransGen (IsEdge cloneControls emptyParser) x m) : x = "t" := by
  obtain ⟨d,hd,-⟩ := TransGen.head'_iff.mp hm
  rcases isEdge_clone hd with ⟨rfl,-⟩ | ⟨rfl,-⟩
  · rcases ReflTransGen.cases_tail hx with heq | ⟨p,-,hp⟩
    · exact absurd heq.symm ha
    · rcases isEdge_clone hp with ⟨-,hmem⟩ | ⟨-,heq⟩
      · exact absurd hmem (by decide)
      · exact absurd heq (by decide)
  · rfl

private theorem cloneControls_wellStructured : WellStructured cloneProgram cloneControls emptyParser := by
  obtain ⟨hwf,hacyclic⟩ : WellFormed cloneControls emptyParser ∧ Acyclic cloneControls emptyParser :=
    acyclic_of_follows ["c","t",endOfPipeline] [endOfParser] (by decide) (by decide) (by decide) (by decide) (by decide)
  have hdom : Dominates (IsEdge cloneControls emptyParser) (IsInitial cloneControls emptyParser) "c" "t" := by
    refine dominates_iff.mpr (.inr ⟨?_,fun m hm => ?_⟩)
    · rintro (⟨pipeline,hpipeline,heq⟩ | heq)
      · fin_cases hpipeline
        exact absurd heq (by decide)
      · exact absurd heq (by decide)
    · rcases isEdge_clone hm with ⟨rfl,-⟩ | ⟨-,heq⟩
      · exact dominates_self _
      · exact absurd heq (by decide)
  refine ⟨⟨"parser",rfl⟩,hwf,hacyclic,fun name => ?_,fun name table htable => ?_,?_,?_⟩
  · by_cases hname : name = "t"
    · exact .inr (by rw [hname]; rfl)
    · refine .inl ?_
      rw [cloneProgram,lookup_cons_ite,if_neg hname]
      rfl
  · have hmem := mem_of_lookup_eq_some htable
    fin_cases hmem
    exact ⟨by decide,by decide,by decide⟩
  · rintro i x ⟨pipeline,hpipeline,rfl⟩ hx hm
    fin_cases hpipeline
    rcases ReflTransGen.cases_head hx with rfl | ⟨d,hd,hx⟩
    · exact dominates_self _
    · have hne : d ≠ "c" := by
        rcases isEdge_clone hd with ⟨-,hmem⟩ | ⟨-,rfl⟩
        · rintro rfl
          exact absurd hmem (by decide)
        · decide
      rw [eq_table_clone hne hx hm]
      exact hdom
  · intro n m c x _ _ hc hx hm
    rcases isEdge_clone hc with ⟨-,hmem⟩ | ⟨-,rfl⟩
    · have hne : c ≠ "c" := by
        rintro rfl
        exact absurd hmem (by decide)
      rw [eq_table_clone hne hx hm]
      rcases ReflTransGen.cases_head hx with rfl | ⟨d,hd,-⟩
      · rw [eq_table_clone hne .refl hm]
        exact dominates_self _
      · rcases isEdge_clone hd with ⟨rfl,-⟩ | ⟨rfl,-⟩
        · exact absurd rfl hne
        · exact dominates_self _
    · have ht := eq_table_clone (by decide) hx hm
      rcases ReflTransGen.cases_head hx with rfl | ⟨d,hd,-⟩
      · exact absurd ht (by decide)
      · rcases isEdge_clone hd with ⟨heq,-⟩ | ⟨heq,-⟩
        · exact absurd heq (by decide)
        · exact absurd heq (by decide)

theorem annotated_evaluation_follows_clone :
    ∃ r,@evaluatePipeline id uncompressedInet cloneProgram cloneEntries 3 "ingress" {} clonePacket (.boolVal true) = .ok r ∧
      ∃ initialControl,cloneProgram.pipeline.lookup "ingress" = some initialControl ∧
        @Evaluates uncompressedInet cloneProgram cloneEntries initialControl endOfPipeline (.boolVal true) {} clonePacket r := by
  have hannotated : ∃ graph,create 9 cloneControls = .ok graph ∧ Annotated graph cloneProgram := by
    refine ⟨_,rfl,fun name table htable => ?_,fun name conditional hconditional => ?_⟩
    · have hmem := mem_of_lookup_eq_some htable
      fin_cases hmem
      rfl
    · have hmem := mem_of_lookup_eq_some hconditional
      fin_cases hmem
      rfl
  let _ := uncompressedInet
  have hok : (evaluatePipeline id cloneProgram cloneEntries 3 "ingress" {} clonePacket (.boolVal true)).isOk = true := by
    change (evaluateConditional (evaluateControl id cloneProgram cloneEntries 2) _ {} clonePacket (.boolVal true)).isOk = true
    rw [evaluateControl_clone rfl rfl]
    rfl
  obtain ⟨graph,hgraph,hannotated⟩ := hannotated
  obtain ⟨r,hr⟩ := exists_ok_of_isOk hok
  exact ⟨r,hr,annotated_evaluation_follows cloneControls_wellStructured hgraph hannotated (fun t ht => ⟨ht,fun _ => rfl⟩)
    cloneEntries_indexed clonePacket_sound (boolean_boolVal true) hr⟩

end SonicPins.P4Symbolic.Evaluation
