import SonicPins.Lib.DoubleIndex
import SonicPins.P4Symbolic.Cfg

/-! The graph that the construction makes of a program: its nodes are the reachable controls and
parse states, and the two ends of every edge know of each other. -/
namespace SonicPins.P4Symbolic.Cfg
open Lib Pdpi

variable {names : List String} {construct : ControlFlowGraph → String → Fallible ControlFlowGraph}

theorem mem_insertName {name x : String} : x ∈ insertName name names ↔ x = name ∨ x ∈ names := by
  unfold insertName
  split_ifs with h
  · refine ⟨.inr,?_⟩
    rintro (rfl | hx)
    · exact h
    · exact hx
  · rw [List.mem_orderedInsert]

theorem insertName_sorted {name : String} (h : names.Pairwise (· < ·)) : (insertName name names).Pairwise (· < ·) := by
  unfold insertName
  split_ifs with hmem
  · exact h
  · have hle : (names.orderedInsert (· ≤ ·) name).Pairwise (· ≤ ·) :=
      List.Pairwise.orderedInsert name names (h.imp le_of_lt)
    have hnodup : (names.orderedInsert (· ≤ ·) name).Nodup :=
      (List.perm_orderedInsert (· ≤ ·) name names).nodup_iff.mpr (List.nodup_cons.mpr ⟨hmem,h.imp ne_of_lt⟩)
    exact (hle.and hnodup).imp fun h => lt_of_le_of_ne h.1 h.2

theorem mem_nameSet {x : String} : x ∈ nameSet names ↔ x ∈ names := by
  induction names with
  | nil => rfl
  | cons name names ih =>
    change x ∈ insertName name (nameSet names) ↔ _
    rw [mem_insertName,ih,List.mem_cons]

theorem sorted_names_unique {ns ns' : List String} (h : ns.Pairwise (· < ·)) (h' : ns'.Pairwise (· < ·))
    (hmem : ∀ x,x ∈ ns ↔ x ∈ ns') : ns = ns' := by
  have hperm : ns.Perm ns' := (List.perm_ext_iff_of_nodup (h.imp ne_of_lt) (h'.imp ne_of_lt)).mpr hmem
  exact hperm.eq_of_pairwise (fun a b _ _ hab hba => absurd hba (lt_asymm hab)) h h'

section Lookups
variable {graph : ControlFlowGraph} {nodeName m : String} {change : CfgNode → CfgNode}

theorem lookup_modify (graph : ControlFlowGraph) (nodeName m : String) (change : CfgNode → CfgNode) :
    (modify graph nodeName change).lookup m = if m = nodeName then (graph.lookup nodeName).map change else graph.lookup m := by
  unfold modify
  cases hnode : graph.lookup nodeName with
  | none =>
    split_ifs with hm
    · rw [hm,hnode]
      rfl
    · rfl
  | some node =>
    split_ifs with hm
    · rw [hm]
      exact AList.lookup_insert graph
    · exact AList.lookup_insert_ne hm

theorem getMutableNode_eq_ok {node : CfgNode} : getMutableNode graph nodeName = .ok node ↔ graph.lookup nodeName = some node := by
  unfold getMutableNode
  cases graph.lookup nodeName <;> simp

def childrenOf (graph : ControlFlowGraph) (nodeName : String) : List String :=
  ((graph.lookup nodeName).map CfgNode.children).getD []

def parentsOf (graph : ControlFlowGraph) (nodeName : String) : List String :=
  ((graph.lookup nodeName).map CfgNode.parents).getD []

def Present (graph : ControlFlowGraph) (nodeName : String) : Prop := (graph.lookup nodeName).isSome = true

end Lookups

section Building
variable (edge : String → String → Prop) (typeOf : String → CfgNodeType → Prop)

structure Blank (node : CfgNode) : Prop where
  fromRoot : node.contractedPathFromRoot = []
  fromLeaf : node.contractedReversePathFromLeaf = []

/-- What holds of the graph at any time of its construction. -/
structure Linked (graph : ControlFlowGraph) : Prop where
  typed : ∀ n node,graph.lookup n = some node → typeOf n node.nodeType
  blank : ∀ n node,graph.lookup n = some node → Blank node
  present : ∀ n c,c ∈ childrenOf graph n → Present graph c
  mirrored : ∀ n c,c ∈ childrenOf graph n ↔ n ∈ parentsOf graph c
  edges : ∀ n c,c ∈ childrenOf graph n → edge n c
  childrenSorted : ∀ n,(childrenOf graph n).Pairwise (· < ·)
  parentsSorted : ∀ n,(parentsOf graph n).Pairwise (· < ·)

def Expanded (graph : ControlFlowGraph) (n : String) : Prop := ∀ c,edge n c → c ∈ childrenOf graph n

structure Grows (graph graph' : ControlFlowGraph) : Prop where
  present : ∀ n,Present graph n → Present graph' n
  children : ∀ n c,c ∈ childrenOf graph n → c ∈ childrenOf graph' n

/-- What a part of the construction leaves behind: new nodes have parents, apart from those that
are excepted, and nodes that got their first parent have all their edges. -/
structure Completes (graph graph' : ControlFlowGraph) (except : String → Prop) : Prop where
  linked : Linked edge typeOf graph'
  grows : Grows graph graph'
  new : ∀ n,Present graph' n → Present graph n ∨ except n ∨ parentsOf graph' n ≠ []
  expanded : ∀ n,parentsOf graph' n ≠ [] → parentsOf graph n ≠ [] ∨ Expanded edge graph' n

variable {edge typeOf} {graph graph' graph'' : ControlFlowGraph}

theorem Grows.refl (graph : ControlFlowGraph) : Grows graph graph := ⟨fun _ h => h,fun _ _ h => h⟩

theorem Grows.trans (h : Grows graph graph') (h' : Grows graph' graph'') : Grows graph graph'' :=
  ⟨fun n hn => h'.present n (h.present n hn),fun n c hc => h'.children n c (h.children n c hc)⟩

theorem Expanded.grows {n : String} (h : Expanded edge graph n) (hgrows : Grows graph graph') : Expanded edge graph' n :=
  fun c hc => hgrows.children n c (h c hc)

theorem Grows.parents (h : Grows graph graph') (hlinked : Linked edge typeOf graph) (hlinked' : Linked edge typeOf graph')
    {n : String} (hn : parentsOf graph n ≠ []) : parentsOf graph' n ≠ [] := by
  obtain ⟨m,hm⟩ := List.exists_mem_of_ne_nil _ hn
  have hc := h.children m n ((hlinked.mirrored m n).mpr hm)
  exact List.ne_nil_of_mem ((hlinked'.mirrored m n).mp hc)

theorem Completes.refl (h : Linked edge typeOf graph) (except : String → Prop) : Completes edge typeOf graph graph except :=
  ⟨h,.refl graph,fun _ hn => .inl hn,fun _ hn => .inl hn⟩

theorem Completes.trans {except except' : String → Prop} (h : Completes edge typeOf graph graph' except)
    (h' : Completes edge typeOf graph' graph'' except') :
    Completes edge typeOf graph graph'' fun n => except n ∨ except' n where
  linked := h'.linked
  grows := h.grows.trans h'.grows
  new n hn := by
    rcases h'.new n hn with hn | hn | hn
    · rcases h.new n hn with hn | hn | hn
      · exact .inl hn
      · exact .inr (.inl (.inl hn))
      · exact .inr (.inr (h'.grows.parents h.linked h'.linked hn))
    · exact .inr (.inl (.inr hn))
    · exact .inr (.inr hn)
  expanded n hn := by
    rcases h'.expanded n hn with hn | hn
    · exact (h.expanded n hn).imp id fun h => h.grows h'.grows
    · exact .inr hn

theorem Completes.mono {except except' : String → Prop} (h : Completes edge typeOf graph graph' except)
    (hexcept : ∀ n,Present graph' n → except n → Present graph n ∨ except' n ∨ parentsOf graph' n ≠ []) :
    Completes edge typeOf graph graph' except' where
  linked := h.linked
  grows := h.grows
  new n hn := by
    rcases h.new n hn with h | h | h
    · exact .inl h
    · exact hexcept n hn h
    · exact .inr (.inr h)
  expanded := h.expanded

end Building

section Steps
variable {edge : String → String → Prop} {typeOf : String → CfgNodeType → Prop} {graph graph' : ControlFlowGraph}
  {n c : String} {nodeType : CfgNodeType}

theorem getOrAddNode_ok (h : Linked edge typeOf graph) (hunique : ∀ n t t',typeOf n t → typeOf n t' → t = t')
    (hn : typeOf n nodeType) : ∃ graph',getOrAddNode graph n nodeType = .ok graph' ∧ Linked edge typeOf graph' ∧
      Present graph' n ∧ (∀ m,childrenOf graph' m = childrenOf graph m ∧ parentsOf graph' m = parentsOf graph m) ∧
      ∀ m,Present graph' m ↔ Present graph m ∨ m = n := by
  unfold getOrAddNode
  cases hnode : graph.lookup n with
  | some node =>
    have hpresent : Present graph n := by rw [Present,hnode]; rfl
    simp only
    rw [if_neg (not_not.mpr (hunique n _ _ (h.typed n node hnode) hn))]
    refine ⟨graph,rfl,h,hpresent,fun m => ⟨rfl,rfl⟩,fun m => ⟨.inl,?_⟩⟩
    rintro (hm | rfl)
    · exact hm
    · exact hpresent
  | none =>
    have hlookup : ∀ m,(graph.insert n { nodeName := n,nodeType := nodeType }).lookup m =
        if m = n then some { nodeName := n,nodeType := nodeType } else graph.lookup m := by
      intro m
      split_ifs with hm
      · rw [hm]
        exact AList.lookup_insert graph
      · exact AList.lookup_insert_ne hm
    have hsame : ∀ m,childrenOf (graph.insert n { nodeName := n,nodeType := nodeType }) m = childrenOf graph m ∧
        parentsOf (graph.insert n { nodeName := n,nodeType := nodeType }) m = parentsOf graph m := by
      intro m
      unfold childrenOf parentsOf
      rw [hlookup]
      split_ifs with hm
      · rw [hm,hnode]
        exact ⟨rfl,rfl⟩
      · exact ⟨rfl,rfl⟩
    have hpresent : ∀ m,Present (graph.insert n { nodeName := n,nodeType := nodeType }) m ↔ Present graph m ∨ m = n := by
      intro m
      unfold Present
      rw [hlookup]
      split_ifs with hm
      · simp [hm]
      · simp [hm]
    refine ⟨_,rfl,?_,(hpresent n).mpr (.inr rfl),hsame,hpresent⟩
    constructor
    · intro m node hm
      rw [hlookup] at hm
      split_ifs at hm with hmn
      · cases hm
        exact hmn ▸ hn
      · exact h.typed m node hm
    · intro m node hm
      rw [hlookup] at hm
      split_ifs at hm with hmn
      · cases hm
        exact ⟨rfl,rfl⟩
      · exact h.blank m node hm
    · intro m c hc
      rw [(hsame m).1] at hc
      exact (hpresent c).mpr (.inl (h.present m c hc))
    · intro m c
      rw [(hsame m).1,(hsame c).2]
      exact h.mirrored m c
    · intro m c hc
      rw [(hsame m).1] at hc
      exact h.edges m c hc
    · intro m
      rw [(hsame m).1]
      exact h.childrenSorted m
    · intro m
      rw [(hsame m).2]
      exact h.parentsSorted m

def link (graph : ControlFlowGraph) (n c : String) : ControlFlowGraph :=
  modify (modify graph n fun node => { node with children := insertName c node.children }) c
    fun node => { node with parents := insertName n node.parents }

theorem lookup_link (graph : ControlFlowGraph) (n c m : String) : (link graph n c).lookup m =
    (graph.lookup m).map fun node =>
      { node with
        children := if m = n then insertName c node.children else node.children
        parents := if m = c then insertName n node.parents else node.parents } := by
  rw [link,lookup_modify,lookup_modify,lookup_modify]
  by_cases hmc : m = c
  · subst hmc
    by_cases hmn : m = n
    · subst hmn
      cases graph.lookup m <;> simp
    · cases graph.lookup m <;> simp [hmn]
  · by_cases hmn : m = n
    · subst hmn
      cases graph.lookup m <;> simp [hmc]
    · cases graph.lookup m <;> simp [hmc,hmn]

theorem present_link (m : String) : Present (link graph n c) m ↔ Present graph m := by
  rw [Present,Present,lookup_link,Option.isSome_map]

theorem childrenOf_link (hn : Present graph n) (m : String) :
    childrenOf (link graph n c) m = if m = n then insertName c (childrenOf graph n) else childrenOf graph m := by
  unfold childrenOf
  rw [lookup_link]
  by_cases hm : m = n
  · subst hm
    obtain ⟨node,hnode⟩ := Option.isSome_iff_exists.mp hn
    simp [hnode]
  · rw [if_neg hm]
    cases graph.lookup m <;> simp [hm]

theorem parentsOf_link (hc : Present graph c) (m : String) :
    parentsOf (link graph n c) m = if m = c then insertName n (parentsOf graph c) else parentsOf graph m := by
  unfold parentsOf
  rw [lookup_link]
  by_cases hm : m = c
  · subst hm
    obtain ⟨node,hnode⟩ := Option.isSome_iff_exists.mp hc
    simp [hnode]
  · rw [if_neg hm]
    cases graph.lookup m <;> simp [hm]

theorem Linked.link (h : Linked edge typeOf graph) (hn : Present graph n) (hc : Present graph c) (hedge : edge n c) :
    Linked edge typeOf (link graph n c) where
  typed m node hm := by
    rw [lookup_link] at hm
    obtain ⟨node',hnode',rfl⟩ := Option.map_eq_some_iff.mp hm
    exact h.typed m node' hnode'
  blank m node hm := by
    rw [lookup_link] at hm
    obtain ⟨node',hnode',rfl⟩ := Option.map_eq_some_iff.mp hm
    obtain ⟨hroot,hleaf⟩ := h.blank m node' hnode'
    exact ⟨hroot,hleaf⟩
  present m x hx := by
    rw [childrenOf_link hn] at hx
    rw [present_link]
    split_ifs at hx
    · rcases mem_insertName.mp hx with rfl | hx
      · exact hc
      · exact h.present n x hx
    · exact h.present m x hx
  mirrored m x := by
    rw [childrenOf_link hn,parentsOf_link hc]
    have hmx := h.mirrored m x
    by_cases hm : m = n
    · subst hm
      by_cases hx : x = c
      · subst hx
        simp [mem_insertName]
      · simp [mem_insertName,hx,hmx]
    · by_cases hx : x = c
      · subst hx
        simp [mem_insertName,hm,hmx]
      · simp [hm,hx,hmx]
  edges m x hx := by
    rw [childrenOf_link hn] at hx
    split_ifs at hx with hm
    · subst hm
      rcases mem_insertName.mp hx with rfl | hx
      · exact hedge
      · exact h.edges m x hx
    · exact h.edges m x hx
  childrenSorted m := by
    rw [childrenOf_link hn]
    split_ifs
    · exact insertName_sorted (h.childrenSorted n)
    · exact h.childrenSorted m
  parentsSorted m := by
    rw [parentsOf_link hc]
    split_ifs
    · exact insertName_sorted (h.parentsSorted c)
    · exact h.parentsSorted m

/-- What the construction of a subgraph does. -/
def Constructs (edge : String → String → Prop) (typeOf : String → CfgNodeType → Prop)
    (construct : ControlFlowGraph → String → Fallible ControlFlowGraph) (n : String) : Prop :=
  ∀ graph,Linked edge typeOf graph → ∃ graph',construct graph n = .ok graph' ∧
    Completes edge typeOf graph graph' (· = n) ∧ Present graph' n ∧ Expanded edge graph' n

private theorem addChild_ok (h : Linked edge typeOf graph)
    (hunique : ∀ n t t',typeOf n t → typeOf n t' → t = t') (hn : Present graph n) (hedge : edge n c) (hc : typeOf c nodeType)
    (hconstruct : Constructs edge typeOf construct c) : ∃ graph',addChild nodeType construct n graph c = .ok graph' ∧
      Completes edge typeOf graph graph' (fun _ => False) ∧ c ∈ childrenOf graph' n := by
  obtain ⟨added,hadded,hlinked,hpresent,hsame,hnodes⟩ := getOrAddNode_ok h hunique hc
  obtain ⟨node,hnode⟩ := Option.isSome_iff_exists.mp hpresent
  have hnAdded : Present added n := (hnodes n).mpr (.inl hn)
  have hparents : node.parents = parentsOf graph c := by
    rw [← (hsame c).2,parentsOf,hnode]
    rfl
  have hrun : addChild nodeType construct n graph c =
      if node.parents.isEmpty then construct (link added n c) c else .ok (link added n c) := by
    unfold addChild
    rw [hadded]
    change (orFail (getMutableNode added c) >>= _) = _
    rw [getMutableNode_eq_ok.mpr hnode]
    rfl
  have hlinked' := hlinked.link hnAdded hpresent hedge
  have hchild : c ∈ childrenOf (link added n c) n := by
    rw [childrenOf_link hnAdded,if_pos rfl]
    exact mem_insertName.mpr (.inl rfl)
  have hparent : parentsOf (link added n c) c ≠ [] := List.ne_nil_of_mem ((hlinked'.mirrored n c).mp hchild)
  have hgrows : Grows graph (link added n c) := by
    refine ⟨fun m hm => (present_link m).mpr ((hnodes m).mpr (.inl hm)),fun m x hx => ?_⟩
    rw [childrenOf_link hnAdded,(hsame n).1,(hsame m).1]
    split_ifs with hmn
    · subst hmn
      exact mem_insertName.mpr (.inr hx)
    · exact hx
  have hnew : ∀ m,Present (link added n c) m → Present graph m ∨ False ∨ parentsOf (link added n c) m ≠ [] := by
    intro m hm
    rcases (hnodes m).mp ((present_link m).mp hm) with hm | rfl
    · exact .inl hm
    · exact .inr (.inr hparent)
  have hold : ∀ m,m ≠ c → parentsOf (link added n c) m ≠ [] → parentsOf graph m ≠ [] := by
    intro m hmc hm
    rwa [parentsOf_link hpresent,if_neg hmc,(hsame m).2] at hm
  rw [hrun]
  by_cases hempty : node.parents.isEmpty
  · rw [if_pos hempty]
    obtain ⟨graph',hgraph',hcompletes,-,hexpanded⟩ := hconstruct _ hlinked'
    refine ⟨graph',hgraph',⟨hcompletes.linked,hgrows.trans hcompletes.grows,fun m hm => ?_,fun m hm => ?_⟩,
      hcompletes.grows.children n c hchild⟩
    · rcases hcompletes.new m hm with hm | rfl | hm
      · exact (hnew m hm).imp id (.imp id (hcompletes.grows.parents hlinked' hcompletes.linked))
      · exact .inr (.inr (hcompletes.grows.parents hlinked' hcompletes.linked hparent))
      · exact .inr (.inr hm)
    · by_cases hmc : m = c
      · exact .inr (hmc ▸ hexpanded)
      · exact (hcompletes.expanded m hm).imp (hold m hmc) id
  · rw [if_neg hempty]
    refine ⟨_,rfl,⟨hlinked',hgrows,hnew,fun m hm => ?_⟩,hchild⟩
    by_cases hmc : m = c
    · subst hmc
      rw [hparents] at hempty
      exact .inl (by simpa using hempty)
    · exact .inl (hold m hmc hm)

private theorem addChildren_ok
    (h : Linked edge typeOf graph) (hunique : ∀ n t t',typeOf n t → typeOf n t' → t = t') (hn : Present graph n)
    (hnames : ∀ c ∈ names,edge n c ∧ typeOf c nodeType ∧ Constructs edge typeOf construct c) :
    ∃ graph',names.foldlM (addChild nodeType construct n) graph = .ok graph' ∧
      Completes edge typeOf graph graph' (fun _ => False) ∧ ∀ c ∈ names,c ∈ childrenOf graph' n := by
  induction names generalizing graph with
  | nil => exact ⟨graph,rfl,.refl h _,by simp⟩
  | cons c names ih =>
    obtain ⟨⟨hedge,hc,hconstruct⟩,hrest⟩ := List.forall_mem_cons.mp hnames
    obtain ⟨mid,hmid,hcompletes,hchild⟩ := addChild_ok h hunique hn hedge hc hconstruct
    obtain ⟨graph',hgraph',hcompletes',hchildren⟩ := ih hcompletes.linked (hcompletes.grows.present n hn) hrest
    refine ⟨graph',?_,?_,?_⟩
    · rw [List.foldlM_cons]
      exact bind_eq_ok.mpr ⟨mid,hmid,hgraph'⟩
    · exact (hcompletes.trans hcompletes').mono fun _ _ h => h.elim False.elim False.elim
    · exact List.forall_mem_cons.mpr ⟨hcompletes'.grows.children n c hchild,hchildren⟩

theorem exists_depth {α : Type} {P : α → Nat → Prop} {l : List α} (h : ∀ a ∈ l,∃ depth,∀ stack ≥ depth,P a stack) :
    ∃ depth,∀ stack ≥ depth,∀ a ∈ l,P a stack := by
  induction l with
  | nil => exact ⟨0,by simp⟩
  | cons a l ih =>
    obtain ⟨⟨depth,hdepth⟩,hrest⟩ := List.forall_mem_cons.mp h
    obtain ⟨depth',hdepth'⟩ := ih hrest
    refine ⟨max depth depth',fun stack hstack => List.forall_mem_cons.mpr ⟨hdepth stack ?_,hdepth' stack ?_⟩⟩
    · exact le_trans (le_max_left _ _) hstack
    · exact le_trans (le_max_right _ _) hstack

theorem constructSubgraph_ok (nodeType : CfgNodeType) {children : String → StatusOr (List String)} (hwf : WellFounded (flip edge))
    (hunique : ∀ n t t',typeOf n t → typeOf n t' → t = t')
    (hchildren : ∀ n,typeOf n nodeType → ∃ cs,children n = .ok cs ∧ ∀ c,c ∈ cs ↔ edge n c)
    (hclosed : ∀ n c,typeOf n nodeType → edge n c → typeOf c nodeType) (n : String) (hn : typeOf n nodeType) :
    ∃ depth,∀ stack ≥ depth,Constructs edge typeOf (constructSubgraph children nodeType stack) n := by
  induction n using hwf.induction with
  | h n ih =>
    obtain ⟨cs,hcs,hmem⟩ := hchildren n hn
    obtain ⟨depth,hdepth⟩ := exists_depth fun c hc => ih c ((hmem c).mp hc) (hclosed n c hn ((hmem c).mp hc))
    refine ⟨depth + 1,fun stack hstack graph h => ?_⟩
    obtain ⟨stack,rfl⟩ : ∃ k,stack = k + 1 := ⟨stack - 1,by omega⟩
    obtain ⟨added,hadded,hlinked,hpresent,hsame,hnodes⟩ := getOrAddNode_ok h hunique hn
    obtain ⟨graph',hgraph',hcompletes,hall⟩ := addChildren_ok hlinked hunique hpresent fun c hc =>
      ⟨(hmem c).mp hc,hclosed n c hn ((hmem c).mp hc),hdepth stack (by omega) c hc⟩
    refine ⟨graph',?_,⟨hcompletes.linked,?_,fun m hm => ?_,fun m hm => ?_⟩,hcompletes.grows.present n hpresent,
      fun c hc => hall c ((hmem c).mpr hc)⟩
    · rw [constructSubgraph,hadded,hcs]
      exact hgraph'
    · refine Grows.trans ⟨fun m hm => (hnodes m).mpr (.inl hm),fun m c hc => ?_⟩ hcompletes.grows
      rwa [(hsame m).1]
    · rcases hcompletes.new m hm with hm | hm | hm
      · exact ((hnodes m).mp hm).imp id .inl
      · exact hm.elim
      · exact .inr (.inr hm)
    · have hexpanded := hcompletes.expanded m hm
      rwa [(hsame m).2] at hexpanded

end Steps

/-! ### The graph of a program -/

/-- What a start leads to. -/
inductive Reachable (children : String → StatusOr (List String)) (initial : String → Prop) : String → Prop
  | initial {n : String} (h : initial n) : Reachable children initial n
  | child {n c : String} {cs : List String} (hn : Reachable children initial n) (hcs : children n = .ok cs) (hc : c ∈ cs) :
      Reachable children initial c

variable (program : ProgramControls) (parser : Parser)

def IsInitialControl (n : String) : Prop := ∃ pipeline ∈ program.pipeline,pipeline.2.initialControl = n

def IsControl : String → Prop := Reachable (controlChildren program) (IsInitialControl program)

def IsParseState : String → Prop := Reachable (parseStateChildren parser) (· = parser.initialState)

def IsNode (n : String) : Prop := IsControl program n ∨ IsParseState parser n

/-- Where an execution starts: the implicit source leads there. -/
def IsInitial (n : String) : Prop := IsInitialControl program n ∨ n = parser.initialState

def IsEdge (n c : String) : Prop :=
  (IsControl program n ∧ ∃ cs,controlChildren program n = .ok cs ∧ c ∈ cs) ∨
    (IsParseState parser n ∧ ∃ cs,parseStateChildren parser n = .ok cs ∧ c ∈ cs)

def HasType (n : String) : CfgNodeType → Prop
  | .pipelineControl => IsControl program n
  | .parseState => IsParseState parser n

/-- All names are known, and none is a control and a parse state. -/
structure WellFormed : Prop where
  controls : ∀ n,IsControl program n → ∃ cs,controlChildren program n = .ok cs
  parseStates : ∀ n,IsParseState parser n → ∃ cs,parseStateChildren parser n = .ok cs
  disjoint : ∀ n,¬ (IsControl program n ∧ IsParseState parser n)

def Acyclic : Prop := ∀ n,¬ Relation.TransGen (IsEdge program parser) n n

variable {program parser}

def mentionedNames (program : ProgramControls) (parser : Parser) : List String :=
  parser.initialState :: (parser.parseStates.flatMap fun s => s.2.transitions.filterMap fun t => (nextState t).toOption) ++
    (program.pipeline.map fun p => p.2.initialControl) ++
    (program.conditionals.flatMap fun c => [c.2.ifBranch,c.2.elseBranch]) ++
    program.tables.flatMap fun t => t.2.actionToNextControl.map Prod.snd

private theorem mem_of_mapM_nextState {transitions : List ParserTransition} {n : String}
    (h : transitions.mapM nextState = .ok names) (hn : n ∈ names) : ∃ t ∈ transitions,nextState t = .ok n := by
  induction transitions generalizing names with
  | nil =>
    cases h
    cases hn
  | cons t transitions ih =>
    rw [List.mapM_cons] at h
    obtain ⟨x,hx,h⟩ := bind_eq_ok.mp h
    obtain ⟨rest,hrest,h⟩ := bind_eq_ok.mp h
    cases h
    rcases List.mem_cons.mp hn with rfl | hn
    · exact ⟨t,List.mem_cons_self,hx⟩
    · obtain ⟨t',ht',hnext⟩ := ih hrest hn
      exact ⟨t',List.mem_cons_of_mem t ht',hnext⟩

theorem mentioned_of_node {n : String} (h : IsNode program parser n) : n ∈ mentionedNames program parser := by
  unfold mentionedNames
  simp only [List.cons_append,List.mem_cons,List.mem_append]
  rcases h with h | h
  · cases h with
    | initial h =>
      obtain ⟨pipeline,hpipeline,rfl⟩ := h
      exact .inr (.inl (.inl (.inr (List.mem_map.mpr ⟨pipeline,hpipeline,rfl⟩))))
    | @child m _ cs _ hcs hc =>
      unfold controlChildren at hcs
      split_ifs at hcs
      · cases hcs
        cases hc
      · split at hcs
        · rename_i conditional hconditional
          cases hcs
          rw [mem_nameSet] at hc
          exact .inr (.inl (.inr (List.mem_flatMap.mpr ⟨_,mem_of_lookup_eq_some hconditional,hc⟩)))
        · split at hcs
          · rename_i table htable
            cases hcs
            rw [mem_nameSet] at hc
            exact .inr (.inr (List.mem_flatMap.mpr ⟨_,mem_of_lookup_eq_some htable,hc⟩))
          · cases hcs
  · cases h with
    | initial h => exact .inl h
    | @child m _ cs _ hcs hc =>
      unfold parseStateChildren at hcs
      split_ifs at hcs
      · cases hcs
        cases hc
      · split at hcs
        · rename_i state hstate
          obtain ⟨names,hnames,rfl⟩ := map_eq_ok.mp hcs
          rw [mem_nameSet] at hc
          obtain ⟨t,ht,hnext⟩ := mem_of_mapM_nextState hnames hc
          refine .inr (.inl (.inl (.inl (List.mem_flatMap.mpr ⟨_,mem_of_lookup_eq_some hstate,?_⟩))))
          exact List.mem_filterMap.mpr ⟨t,ht,by rw [hnext]; rfl⟩
        · cases hcs

theorem IsEdge.nodes {n c : String} (h : IsEdge program parser n c) : IsNode program parser n ∧ IsNode program parser c := by
  rcases h with ⟨hn,cs,hcs,hc⟩ | ⟨hn,cs,hcs,hc⟩
  · exact ⟨.inl hn,.inl (.child hn hcs hc)⟩
  · exact ⟨.inr hn,.inr (.child hn hcs hc)⟩

theorem Acyclic.wellFounded (h : Acyclic program parser) :
    WellFounded (IsEdge program parser) ∧ WellFounded (flip (IsEdge program parser)) := by
  have hfinite : {n | n ∈ mentionedNames program parser}.Finite := List.finite_toSet _
  constructor
  · exact wellFounded_of_acyclic hfinite (fun a b hab => ⟨mentioned_of_node hab.nodes.1,mentioned_of_node hab.nodes.2⟩) h
  · refine wellFounded_of_acyclic hfinite (fun a b hab => ⟨mentioned_of_node hab.nodes.2,mentioned_of_node hab.nodes.1⟩) fun n hn => ?_
    exact h n (Relation.transGen_swap.mp hn)

theorem WellFormed.hasType_unique (h : WellFormed program parser) (n : String) (t t' : CfgNodeType) (ht : HasType program parser n t)
    (ht' : HasType program parser n t') : t = t' := by
  cases t <;> cases t'
  · rfl
  · exact absurd ⟨ht,ht'⟩ (h.disjoint n)
  · exact absurd ⟨ht',ht⟩ (h.disjoint n)
  · rfl

theorem WellFormed.controlChildren_ok (h : WellFormed program parser) {n : String} (hn : IsControl program n) :
    ∃ cs,controlChildren program n = .ok cs ∧ ∀ c,c ∈ cs ↔ IsEdge program parser n c := by
  obtain ⟨cs,hcs⟩ := h.controls n hn
  refine ⟨cs,hcs,fun c => ⟨fun hc => .inl ⟨hn,cs,hcs,hc⟩,?_⟩⟩
  rintro (⟨-,cs',hcs',hc⟩ | ⟨hn',-⟩)
  · cases hcs.symm.trans hcs'
    exact hc
  · exact absurd ⟨hn,hn'⟩ (h.disjoint n)

theorem WellFormed.parseStateChildren_ok (h : WellFormed program parser) {n : String} (hn : IsParseState parser n) :
    ∃ cs,parseStateChildren parser n = .ok cs ∧ ∀ c,c ∈ cs ↔ IsEdge program parser n c := by
  obtain ⟨cs,hcs⟩ := h.parseStates n hn
  refine ⟨cs,hcs,fun c => ⟨fun hc => .inr ⟨hn,cs,hcs,hc⟩,?_⟩⟩
  rintro (⟨hn',-⟩ | ⟨-,cs',hcs',hc⟩)
  · exact absurd ⟨hn',hn⟩ (h.disjoint n)
  · cases hcs.symm.trans hcs'
    exact hc

structure GraphOf (program : ProgramControls) (parser : Parser) (graph : ControlFlowGraph) : Prop where
  linked : Linked (IsEdge program parser) (HasType program parser) graph
  present : ∀ n,Present graph n ↔ IsNode program parser n
  expanded : ∀ n,IsNode program parser n → Expanded (IsEdge program parser) graph n

theorem GraphOf.mem_childrenOf {graph : ControlFlowGraph} (h : GraphOf program parser graph) {n c : String} :
    c ∈ childrenOf graph n ↔ IsEdge program parser n c :=
  ⟨h.linked.edges n c,fun hc => h.expanded n hc.nodes.1 c hc⟩

theorem GraphOf.mem_parentsOf {graph : ControlFlowGraph} (h : GraphOf program parser graph) {n p : String} :
    p ∈ parentsOf graph n ↔ IsEdge program parser p n := by
  rw [← h.linked.mirrored,h.mem_childrenOf]

private theorem linked_empty : Linked (IsEdge program parser) (HasType program parser) ∅ := by
  constructor <;> intro n <;> simp [childrenOf,parentsOf]

private theorem graphOf_of_completes {graph : ControlFlowGraph}
    (h : Completes (IsEdge program parser) (HasType program parser) ∅ graph (IsInitial program parser))
    (hinitial : ∀ n,IsInitial program parser n → Present graph n ∧ Expanded (IsEdge program parser) graph n) :
    GraphOf program parser graph := by
  have hchild : ∀ n c,Expanded (IsEdge program parser) graph n → IsEdge program parser n c →
      Present graph c ∧ Expanded (IsEdge program parser) graph c := by
    intro n c hn hc
    have hmem := hn c hc
    refine ⟨h.linked.present n c hmem,(h.expanded c ?_).resolve_left (by simp [parentsOf])⟩
    exact List.ne_nil_of_mem ((h.linked.mirrored n c).mp hmem)
  have hall : ∀ n,IsNode program parser n → Present graph n ∧ Expanded (IsEdge program parser) graph n := by
    rintro n (hn | hn)
    · induction hn with
      | initial hn => exact hinitial _ (.inl hn)
      | child hn hcs hc ih => exact hchild _ _ ih.2 (.inl ⟨hn,_,hcs,hc⟩)
    · induction hn with
      | initial hn => exact hinitial _ (.inr hn)
      | child hn hcs hc ih => exact hchild _ _ ih.2 (.inr ⟨hn,_,hcs,hc⟩)
  refine ⟨h.linked,fun n => ⟨fun hn => ?_,fun hn => (hall n hn).1⟩,fun n hn => (hall n hn).2⟩
  obtain ⟨node,hnode⟩ := Option.isSome_iff_exists.mp hn
  have htype := h.linked.typed n node hnode
  cases ht : node.nodeType with
  | pipelineControl =>
    rw [ht] at htype
    exact .inl htype
  | parseState =>
    rw [ht] at htype
    exact .inr htype

section Phases
variable {edge : String → String → Prop} {typeOf : String → CfgNodeType → Prop}

private theorem constructAll_ok {α : Type} {start : α → String}
    {starts : List α} {graph : ControlFlowGraph} (h : Linked edge typeOf graph)
    (hstarts : ∀ a ∈ starts,Constructs edge typeOf construct (start a)) :
    ∃ graph',starts.foldlM (fun graph a => construct graph (start a)) graph = .ok graph' ∧
      Completes edge typeOf graph graph' (fun n => ∃ a ∈ starts,start a = n) ∧
      ∀ a ∈ starts,Present graph' (start a) ∧ Expanded edge graph' (start a) := by
  induction starts generalizing graph with
  | nil => exact ⟨graph,rfl,.refl h _,by simp⟩
  | cons a starts ih =>
    obtain ⟨ha,hrest⟩ := List.forall_mem_cons.mp hstarts
    obtain ⟨mid,hmid,hcompletes,hpresent,hexpanded⟩ := ha graph h
    obtain ⟨graph',hgraph',hcompletes',hall⟩ := ih hcompletes.linked hrest
    refine ⟨graph',?_,?_,?_⟩
    · rw [List.foldlM_cons]
      exact bind_eq_ok.mpr ⟨mid,hmid,hgraph'⟩
    · refine (hcompletes.trans hcompletes').mono fun n _ hn => .inr (.inl ?_)
      rcases hn with rfl | ⟨b,hb,rfl⟩
      · exact ⟨a,List.mem_cons_self,rfl⟩
      · exact ⟨b,List.mem_cons_of_mem a hb,rfl⟩
    · exact List.forall_mem_cons.mpr ⟨⟨hcompletes'.grows.present _ hpresent,hexpanded.grows hcompletes'.grows⟩,hall⟩

end Phases

theorem constructGraph_ok (h : WellFormed program parser) (hacyclic : Acyclic program parser) :
    ∃ depth,∀ stack ≥ depth,∃ graph,constructGraph stack program parser = .ok graph ∧ GraphOf program parser graph := by
  obtain ⟨-,hwf⟩ := hacyclic.wellFounded
  have hstates := constructSubgraph_ok .parseState hwf h.hasType_unique (fun n hn => h.parseStateChildren_ok hn)
    (fun n c hn hc => by
      rcases hc with ⟨hn',-⟩ | ⟨-,cs,hcs,hc⟩
      · exact absurd ⟨hn',hn⟩ (h.disjoint n)
      · exact .child hn hcs hc)
  have hcontrols := constructSubgraph_ok .pipelineControl hwf h.hasType_unique (fun n hn => h.controlChildren_ok hn)
    (fun n c hn hc => by
      rcases hc with ⟨-,cs,hcs,hc⟩ | ⟨hn',-⟩
      · exact .child hn hcs hc
      · exact absurd ⟨hn,hn'⟩ (h.disjoint n))
  obtain ⟨depth,hdepth⟩ := hstates parser.initialState (.initial rfl)
  obtain ⟨depth',hdepth'⟩ := exists_depth (l := program.pipeline) fun pipeline hpipeline =>
    hcontrols pipeline.2.initialControl (.initial ⟨pipeline,hpipeline,rfl⟩)
  refine ⟨max depth depth',fun stack hstack => ?_⟩
  obtain ⟨parsed,hparsed,hcompletes,hpresent,hexpanded⟩ := hdepth stack (le_trans (le_max_left _ _) hstack) ∅ linked_empty
  obtain ⟨graph,hgraph,hcompletes',hall⟩ := constructAll_ok hcompletes.linked (hdepth' stack (le_trans (le_max_right _ _) hstack))
  refine ⟨graph,bind_eq_ok.mpr ⟨parsed,hparsed,hgraph⟩,graphOf_of_completes ?_ ?_⟩
  · refine (hcompletes.trans hcompletes').mono fun n _ hn => .inr (.inl ?_)
    exact hn.elim .inr .inl
  · rintro n (⟨pipeline,hpipeline,rfl⟩ | rfl)
    · exact hall pipeline hpipeline
    · exact ⟨hcompletes'.grows.present _ hpresent,hexpanded.grows hcompletes'.grows⟩

end SonicPins.P4Symbolic.Cfg
