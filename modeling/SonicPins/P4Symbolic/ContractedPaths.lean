import SonicPins.P4Symbolic.CfgConstruction

/-! The recursion over the graph sets the contracted path of every node, in both directions. -/
namespace SonicPins.P4Symbolic.Cfg
open Lib Pdpi

section Observations

/-- The path of a node, which is empty until it is set. -/
def pathIn (direction : Direction) (graph : ControlFlowGraph) (n : String) : List String :=
  ((graph.lookup n).map fun node => node.path direction).getD []

def neighboursIn (graph : ControlFlowGraph) (direction : Direction) (n : String) : List String :=
  ((graph.lookup n).map fun node => node.neighbours direction).getD []

/-- The same nodes with the same neighbours. -/
def SameEdges (graph graph' : ControlFlowGraph) : Prop :=
  ∀ n direction,(graph'.lookup n).map (fun node => node.neighbours direction) =
    (graph.lookup n).map fun node => node.neighbours direction

variable {graph graph' graph'' : ControlFlowGraph} {direction other : Direction} {n m : String}

theorem SameEdges.refl (graph : ControlFlowGraph) : SameEdges graph graph := fun _ _ => rfl

theorem SameEdges.trans (h : SameEdges graph graph') (h' : SameEdges graph' graph'') : SameEdges graph graph'' :=
  fun n direction => (h' n direction).trans (h n direction)

theorem SameEdges.present (h : SameEdges graph graph') : Present graph' n ↔ Present graph n := by
  have hsome := congrArg Option.isSome (h n .fromRoot)
  rwa [Option.isSome_map,Option.isSome_map,Bool.eq_iff_iff] at hsome

theorem CfgNode.path_withPath (node : CfgNode) (path : List String) (direction other : Direction) :
    (node.withPath path direction).path other = if other = direction then path else node.path other := by
  cases direction <;> cases other <;> rfl

theorem CfgNode.neighbours_withPath (node : CfgNode) (path : List String) (direction other : Direction) :
    (node.withPath path direction).neighbours other = node.neighbours other := by
  cases direction <;> cases other <;> rfl

def changePath (direction : Direction) (graph : ControlFlowGraph) (n : String) (change : List String → List String) :
    ControlFlowGraph :=
  modify graph n fun node => node.withPath (change (node.path direction)) direction

variable {change : List String → List String}

theorem sameEdges_changePath : SameEdges graph (changePath direction graph n change) := by
  intro m other
  rw [changePath,lookup_modify]
  split_ifs with hm
  · subst hm
    cases graph.lookup m with
    | none => rfl
    | some node => exact congrArg some (node.neighbours_withPath _ direction other)
  · rfl

theorem pathIn_changePath (hn : Present graph n) : pathIn other (changePath direction graph n change) m =
    if m = n ∧ other = direction then change (pathIn direction graph n) else pathIn other graph m := by
  obtain ⟨node,hnode⟩ := Option.isSome_iff_exists.mp hn
  unfold pathIn
  rw [changePath,lookup_modify]
  by_cases hm : m = n
  · subst hm
    rw [if_pos rfl,hnode]
    change (node.withPath _ direction).path other = _
    rw [node.path_withPath]
    by_cases hother : other = direction
    · rw [if_pos hother,if_pos ⟨rfl,hother⟩]
      rfl
    · rw [if_neg hother,if_neg fun h => hother h.2]
      rfl
  · rw [if_neg hm,if_neg fun h => hm h.1]

end Observations

section Setting
variable (edge : String → String → Prop) (path : String → List String) (direction : Direction)

/-- What the setting of a path may change: nodes that lead to the node get their paths. -/
structure SetsBelow (below : String → Prop) (graph graph' : ControlFlowGraph) : Prop where
  same : SameEdges graph graph'
  other : ∀ m other,other ≠ direction → pathIn other graph' m = pathIn other graph m
  set : ∀ m,pathIn direction graph' m = pathIn direction graph m ∨ (below m ∧ pathIn direction graph' m = path m)

/-- The paths are not set yet, or set to what they should be. -/
def SetOrEmpty (graph : ControlFlowGraph) (m : String) : Prop := pathIn direction graph m = [] ∨ pathIn direction graph m = path m

variable (base : ControlFlowGraph)

def SetsPath (setPath : ControlFlowGraph → String → Fallible ControlFlowGraph) (n : String) : Prop :=
  ∀ graph,SameEdges base graph → (∀ m,Relation.ReflTransGen edge m n → SetOrEmpty path direction graph m) →
    pathIn direction graph n = [] → ∃ graph',setPath graph n = .ok graph' ∧
      SetsBelow path direction (fun m => Relation.ReflTransGen edge m n) graph graph' ∧ pathIn direction graph' n = path n

variable {edge path direction base} {setPath : ControlFlowGraph → String → Fallible ControlFlowGraph}
  {graph graph' graph'' : ControlFlowGraph} {n m : String} {below below' : String → Prop}

theorem SetsBelow.refl (graph : ControlFlowGraph) : SetsBelow path direction below graph graph :=
  ⟨.refl graph,fun _ _ _ => rfl,fun _ => .inl rfl⟩

theorem SetsBelow.setOrEmpty (h : SetsBelow path direction below graph graph') (hm : SetOrEmpty path direction graph m) :
    SetOrEmpty path direction graph' m := by
  rcases h.set m with heq | hset
  · rwa [SetOrEmpty,heq]
  · exact .inr hset.2

theorem SetsBelow.keeps (h : SetsBelow path direction below graph graph') (hm : pathIn direction graph m = path m) :
    pathIn direction graph' m = path m := by
  rcases h.set m with heq | hset
  · rw [heq,hm]
  · exact hset.2

theorem pathIn_of_lookup {node : CfgNode} (h : graph.lookup n = some node) : pathIn direction graph n = node.path direction := by
  rw [pathIn,h]
  rfl

theorem getPath_ok (hsets : SetsPath edge path direction base setPath n) (hpath : path n ≠ []) (hn : Present base n)
    (hsame : SameEdges base graph) (hbelow : ∀ m,Relation.ReflTransGen edge m n → SetOrEmpty path direction graph m) :
    ∃ graph',getPath setPath direction graph n = .ok (graph',path n) ∧
      SetsBelow path direction (fun m => Relation.ReflTransGen edge m n) graph graph' ∧ pathIn direction graph' n = path n := by
  obtain ⟨node,hnode⟩ := Option.isSome_iff_exists.mp (hsame.present.mpr hn)
  have hnodePath : pathIn direction graph n = node.path direction := pathIn_of_lookup hnode
  unfold getPath
  rw [getMutableNode_eq_ok.mpr hnode]
  by_cases hempty : node.path direction = []
  · obtain ⟨graph',hgraph',hset,hpath'⟩ := hsets graph hsame hbelow (hnodePath.trans hempty)
    obtain ⟨node',hnode'⟩ := Option.isSome_iff_exists.mp ((hsame.trans hset.same).present.mpr hn)
    have hnodePath' := (pathIn_of_lookup hnode').symm.trans hpath'
    refine ⟨graph',?_,hset,hpath'⟩
    change (if !(node.path direction).isEmpty then _ else setPath graph n >>= _) = _
    rw [hempty,hgraph']
    change (orFail (getMutableNode graph' n) >>= _) = _
    rw [getMutableNode_eq_ok.mpr hnode']
    change (if (node'.path direction).isEmpty then _ else _) = _
    rw [hnodePath',if_neg (by simpa using hpath)]
  · have heq := (hbelow n .refl).resolve_left fun h => hempty (hnodePath.symm.trans h)
    refine ⟨graph,?_,.refl graph,heq⟩
    change (if !(node.path direction).isEmpty then _ else _) = _
    rw [if_pos (by simpa using hempty),← hnodePath,heq]

end Setting
/-! ### The loop over the neighbours of a node -/

section Recursion
variable {edge : String → String → Prop} {path : String → List String} {direction : Direction} {base : ControlFlowGraph}
  {setPath : ControlFlowGraph → String → Fallible ControlFlowGraph} {graph graph' graph'' : ControlFlowGraph} {n m : String}
  {soFar : List String}

/-- The graph while the path of a node is made: its path so far, and those of nodes that lead to it. -/
structure Contracting (edge : String → String → Prop) (path : String → List String) (direction : Direction) (n : String)
    (graph graph' : ControlFlowGraph) (soFar : List String) : Prop where
  same : SameEdges graph graph'
  other : ∀ m other,other ≠ direction → pathIn other graph' m = pathIn other graph m
  set : ∀ m,m ≠ n → pathIn direction graph' m = pathIn direction graph m ∨
    (Relation.TransGen edge m n ∧ pathIn direction graph' m = path m)
  soFar : pathIn direction graph' n = soFar

theorem Contracting.trans {soFar' : List String} (h : Contracting edge path direction n graph graph' soFar)
    (h' : Contracting edge path direction n graph' graph'' soFar') : Contracting edge path direction n graph graph'' soFar' where
  same := h.same.trans h'.same
  other m other hother := (h'.other m other hother).trans (h.other m other hother)
  set m hm := by
    rcases h'.set m hm with heq | hset
    · rw [heq]
      exact h.set m hm
    · exact .inr hset
  soFar := h'.soFar

theorem Contracting.setOrEmpty (h : Contracting edge path direction n graph graph' soFar) (hne : m ≠ n)
    (hm : SetOrEmpty path direction graph m) : SetOrEmpty path direction graph' m := by
  rcases h.set m hne with heq | hset
  · rwa [SetOrEmpty,heq]
  · exact .inr hset.2

variable (hwf : WellFounded edge)
include hwf

private theorem contractNeighbour_ok (hm : edge m n) (hsets : SetsPath edge path direction base setPath m) (hpath : path m ≠ [])
    (hmbase : Present base m) (hnbase : Present base n) (hsame : SameEdges base graph)
    (hbelow : ∀ x,Relation.TransGen edge x n → SetOrEmpty path direction graph x) :
    ∃ graph',contractNeighbour setPath direction n graph m = .ok graph' ∧
      Contracting edge path direction n graph graph' (contract (pathIn direction graph n) (path m)) := by
  have hm' : ∀ x,Relation.ReflTransGen edge x m → Relation.TransGen edge x n := fun x hx => Relation.TransGen.tail' hx hm
  obtain ⟨mid,hmid,hset,-⟩ := getPath_ok hsets hpath hmbase hsame fun x hx => hbelow x (hm' x hx)
  have hnmid := (hsame.trans hset.same).present.mpr hnbase
  -- the node in progress does not lead to its neighbour
  have hn : pathIn direction mid n = pathIn direction graph n :=
    (hset.set n).resolve_right fun h => not_cyclic hwf n (hm' n h.1)
  refine ⟨changePath direction mid n fun soFar => contract soFar (path m),bind_eq_ok.mpr ⟨_,hmid,rfl⟩,?_⟩
  constructor
  · exact hset.same.trans sameEdges_changePath
  · intro x other hother
    rw [pathIn_changePath hnmid,if_neg fun h => hother h.2]
    exact hset.other x other hother
  · intro x hx
    rw [pathIn_changePath hnmid,if_neg fun h => hx h.1]
    exact (hset.set x).imp id fun h => ⟨hm' x h.1,h.2⟩
  · rw [pathIn_changePath hnmid,if_pos ⟨rfl,rfl⟩,hn]

private theorem contractNeighbours_ok {ms : List String} (hnbase : Present base n) (hsame : SameEdges base graph)
    (hms : ∀ m ∈ ms,edge m n ∧ Present base m ∧ path m ≠ [] ∧ SetsPath edge path direction base setPath m)
    (hbelow : ∀ x,Relation.TransGen edge x n → SetOrEmpty path direction graph x) :
    ∃ graph',ms.foldlM (contractNeighbour setPath direction n) graph = .ok graph' ∧
      Contracting edge path direction n graph graph' ((ms.map path).foldl contract (pathIn direction graph n)) := by
  induction ms generalizing graph with
  | nil => exact ⟨graph,rfl,.refl graph,fun _ _ _ => rfl,fun _ _ => .inl rfl,rfl⟩
  | cons m ms ih =>
    obtain ⟨⟨hm,hmbase,hpath,hsets⟩,hrest⟩ := List.forall_mem_cons.mp hms
    obtain ⟨mid,hmid,hcontracting⟩ := contractNeighbour_ok hwf hm hsets hpath hmbase hnbase hsame hbelow
    have hne : ∀ x,Relation.TransGen edge x n → x ≠ n := by
      rintro x hx rfl
      exact not_cyclic hwf x hx
    obtain ⟨graph',hgraph',hcontracting'⟩ := ih (hsame.trans hcontracting.same) hrest
      fun x hx => hcontracting.setOrEmpty (hne x hx) (hbelow x hx)
    refine ⟨graph',?_,?_⟩
    · rw [List.foldlM_cons]
      exact bind_eq_ok.mpr ⟨mid,hmid,hgraph'⟩
    · rw [hcontracting.soFar] at hcontracting'
      exact hcontracting.trans hcontracting'

theorem setContractedPath_ok {node : String → Prop} {before : String → List String}
    (hbefore : ∀ n m,m ∈ before n → edge m n ∧ node m)
    (hpath : ∀ n,path n = ((before n).map path).foldl contract [] ++ [n]) (n : String) (hn : node n) :
    ∃ depth,∀ stack ≥ depth,∀ base,(∀ n,Present base n ↔ node n) → (∀ n,neighboursIn base direction n = before n) →
      SetsPath edge path direction base (setContractedPath direction stack) n := by
  induction n using hwf.induction with
  | h n ih =>
    obtain ⟨depth,hdepth⟩ := exists_depth fun m hm => ih m (hbefore n m hm).1 (hbefore n m hm).2
    refine ⟨depth + 1,fun stack hstack base hnodes hneighbours graph hsame hbelow hempty => ?_⟩
    obtain ⟨stack,rfl⟩ : ∃ k,stack = k + 1 := ⟨stack - 1,by omega⟩
    replace hn := (hnodes n).mpr hn
    obtain ⟨node',hnode⟩ := Option.isSome_iff_exists.mp (hsame.present.mpr hn)
    have hbeforeNode : node'.neighbours direction = before n := by
      rw [← hneighbours,neighboursIn,← hsame n direction,hnode]
      rfl
    have hms : ∀ m ∈ node'.neighbours direction,edge m n ∧ Present base m ∧ path m ≠ [] ∧
        SetsPath edge path direction base (setContractedPath direction stack) m := by
      intro m hm
      rw [hbeforeNode] at hm
      refine ⟨(hbefore n m hm).1,(hnodes m).mpr (hbefore n m hm).2,?_,hdepth stack (by omega) m hm base hnodes hneighbours⟩
      rw [hpath m]
      simp
    obtain ⟨mid,hmid,hcontracting⟩ := contractNeighbours_ok hwf hn hsame hms fun x hx => hbelow x hx.to_reflTransGen
    have hnmid := (hsame.trans hcontracting.same).present.mpr hn
    have hset : pathIn direction (changePath direction mid n (· ++ [n])) n = path n := by
      rw [pathIn_changePath hnmid,if_pos ⟨rfl,rfl⟩,hcontracting.soFar,hempty,hbeforeNode,hpath n]
    refine ⟨changePath direction mid n (· ++ [n]),?_,?_,hset⟩
    · rw [setContractedPath,getMutableNode_eq_ok.mpr hnode]
      exact bind_eq_ok.mpr ⟨node',rfl,bind_eq_ok.mpr ⟨mid,hmid,rfl⟩⟩
    · refine ⟨hcontracting.same.trans sameEdges_changePath,fun x other hother => ?_,fun x => ?_⟩
      · rw [pathIn_changePath hnmid,if_neg fun h => hother h.2]
        exact hcontracting.other x other hother
      · by_cases hx : x = n
        · subst hx
          exact .inr ⟨.refl,hset⟩
        · rw [pathIn_changePath hnmid,if_neg fun h => hx h.1]
          exact (hcontracting.set x hx).imp id fun h => ⟨h.1.to_reflTransGen,h.2⟩

end Recursion
/-! ### All nodes, in both directions -/

section AllNodes
variable {edge : Direction → String → String → Prop} {path : Direction → String → List String} {base graph graph' : ControlFlowGraph}
  {stack : Nat} {n : String}

/-- What the setting of a node's two paths does. -/
structure SetsBoth (path : Direction → String → List String) (graph graph' : ControlFlowGraph) : Prop where
  same : SameEdges graph graph'
  setOrEmpty : ∀ d m,SetOrEmpty (path d) d graph' m
  keeps : ∀ d m,pathIn d graph m = path d m → pathIn d graph' m = path d m

private theorem setContractedPaths_ok (hsets : ∀ d,SetsPath (edge d) (path d) d base (setContractedPath d stack) n)
    (hpath : ∀ d,path d n ≠ []) (hn : Present base n) (hsame : SameEdges base graph) (hset : ∀ d m,SetOrEmpty (path d) d graph m) :
    ∃ graph',setContractedPaths stack graph n = .ok graph' ∧ SetsBoth path graph graph' ∧ ∀ d,pathIn d graph' n = path d n := by
  obtain ⟨mid,hmid,hleaf,hleafPath⟩ := getPath_ok (hsets .fromLeaf) (hpath .fromLeaf) hn hsame fun m _ => hset .fromLeaf m
  have hmidSet : ∀ d m,SetOrEmpty (path d) d mid m := by
    rintro (_ | _) m
    · rw [SetOrEmpty,hleaf.other m .fromRoot (by simp)]
      exact hset .fromRoot m
    · exact hleaf.setOrEmpty (hset .fromLeaf m)
  obtain ⟨graph',hgraph',hroot,hrootPath⟩ := getPath_ok (hsets .fromRoot) (hpath .fromRoot) hn (hsame.trans hleaf.same)
    fun m _ => hmidSet .fromRoot m
  refine ⟨graph',bind_eq_ok.mpr ⟨_,hmid,bind_eq_ok.mpr ⟨_,hgraph',rfl⟩⟩,⟨hleaf.same.trans hroot.same,?_,?_⟩,?_⟩
  · rintro (_ | _) m
    · exact hroot.setOrEmpty (hmidSet .fromRoot m)
    · rw [SetOrEmpty,hroot.other m .fromLeaf (by simp)]
      exact hmidSet .fromLeaf m
  · rintro (_ | _) m hm
    · refine hroot.keeps ?_
      rwa [hleaf.other m .fromRoot (by simp)]
    · rw [hroot.other m .fromLeaf (by simp)]
      exact hleaf.keeps hm
  · rintro (_ | _)
    · exact hrootPath
    · rw [hroot.other n .fromLeaf (by simp)]
      exact hleafPath

theorem setAllPaths_ok {ns : List String} (hsame : SameEdges base graph) (hset : ∀ d m,SetOrEmpty (path d) d graph m)
    (hns : ∀ n ∈ ns,Present base n ∧ ∀ d,path d n ≠ [] ∧ SetsPath (edge d) (path d) d base (setContractedPath d stack) n) :
    ∃ graph',ns.foldlM (setContractedPaths stack) graph = .ok graph' ∧ SetsBoth path graph graph' ∧
      ∀ n ∈ ns,∀ d,pathIn d graph' n = path d n := by
  induction ns generalizing graph with
  | nil => exact ⟨graph,rfl,⟨.refl graph,hset,fun _ _ h => h⟩,by simp⟩
  | cons n ns ih =>
    obtain ⟨⟨hn,hboth⟩,hrest⟩ := List.forall_mem_cons.mp hns
    obtain ⟨mid,hmid,hsets,hnPath⟩ := setContractedPaths_ok (fun d => (hboth d).2) (fun d => (hboth d).1) hn hsame hset
    obtain ⟨graph',hgraph',hsets',hall⟩ := ih (hsame.trans hsets.same) hsets.setOrEmpty hrest
    refine ⟨graph',?_,?_,?_⟩
    · rw [List.foldlM_cons]
      exact bind_eq_ok.mpr ⟨mid,hmid,hgraph'⟩
    · exact ⟨hsets.same.trans hsets'.same,hsets'.setOrEmpty,fun d m hm => hsets'.keeps d m (hsets.keeps d m hm)⟩
    · exact List.forall_mem_cons.mpr ⟨fun d => hsets'.keeps d n (hnPath d),hall⟩

end AllNodes

/-! ### Merge points -/

variable {graph graph' graph'' : ControlFlowGraph} {n : String}

def continuationIn (graph : ControlFlowGraph) (n : String) : Option (Option String × Bool) :=
  (graph.lookup n).map fun node => (node.mergePoint,node.continueToMergePoint)

/-- What the paths say of how to go on from a node. -/
def continuationOf (path : Direction → String → List String) (n : String) : Option String × Bool :=
  match getMergePoint (path .fromLeaf n) with
  | none => (none,false)
  | some mergePoint => (some mergePoint,decide (getMergePoint (path .fromRoot mergePoint) = some n))

/-- The same nodes with the same neighbours and paths. -/
structure SamePaths (graph graph' : ControlFlowGraph) : Prop where
  edges : SameEdges graph graph'
  paths : ∀ d m,pathIn d graph' m = pathIn d graph m

theorem setContinuation_changes {node : CfgNode} (hnode : graph.lookup n = some node) (mergePoint : Option String) (continues : Bool) :
    ∀ changed,changed = modify graph n (fun node => { node with mergePoint := mergePoint,continueToMergePoint := continues }) →
      SamePaths graph changed ∧ continuationIn changed n = some (mergePoint,continues) ∧
        ∀ m,m ≠ n → continuationIn changed m = continuationIn graph m := by
  rintro changed rfl
  refine ⟨⟨fun m d => ?_,fun d m => ?_⟩,?_,fun m hm => ?_⟩
  · rw [lookup_modify]
    split_ifs with hm
    · rw [hm,hnode]
      cases d <;> rfl
    · rfl
  · unfold pathIn
    rw [lookup_modify]
    split_ifs with hm
    · rw [hm,hnode]
      cases d <;> rfl
    · rfl
  · rw [continuationIn,lookup_modify,if_pos rfl,hnode]
    rfl
  · rw [continuationIn,lookup_modify,if_neg hm]
    rfl

variable {path : Direction → String → List String}

private theorem setContinuation_ok (hn : Present graph n) (hpaths : ∀ m,Present graph m → ∀ d,pathIn d graph m = path d m)
    (hmerge : ∀ m ∈ path .fromLeaf n,Present graph m) : ∃ graph',setContinuation graph n = .ok graph' ∧ SamePaths graph graph' ∧
      continuationIn graph' n = some (continuationOf path n) ∧ ∀ m,m ≠ n → continuationIn graph' m = continuationIn graph m := by
  obtain ⟨node,hnode⟩ := Option.isSome_iff_exists.mp hn
  have hleaf : node.path .fromLeaf = path .fromLeaf n := by
    rw [← hpaths n hn,pathIn_of_lookup hnode]
  unfold setContinuation continuationOf
  rw [getMutableNode_eq_ok.mpr hnode]
  cases hpoint : getMergePoint (path .fromLeaf n) with
  | none =>
    refine ⟨_,?_,setContinuation_changes hnode none false _ rfl⟩
    change (match getMergePoint (node.path .fromLeaf) with | none => _ | some _ => _) = _
    rw [hleaf,hpoint]
  | some mergePoint =>
    have hmem : mergePoint ∈ path .fromLeaf n := (List.dropLast_sublist _).subset (List.mem_of_getLast? hpoint)
    obtain ⟨mergeNode,hmergeNode⟩ := Option.isSome_iff_exists.mp (hmerge mergePoint hmem)
    have hroot : mergeNode.path .fromRoot = path .fromRoot mergePoint := by
      rw [← hpaths mergePoint (hmerge mergePoint hmem),pathIn_of_lookup hmergeNode]
    refine ⟨_,?_,setContinuation_changes hnode (some mergePoint) (decide (getMergePoint (path .fromRoot mergePoint) = some n)) _ rfl⟩
    change (match getMergePoint (node.path .fromLeaf) with | none => _ | some _ => _) = _
    rw [hleaf,hpoint]
    change (orFail (getMutableNode graph mergePoint) >>= _) = _
    rw [getMutableNode_eq_ok.mpr hmergeNode]
    change Except.ok (modify graph n fun node => { node with
      mergePoint := some mergePoint
      continueToMergePoint := decide (getMergePoint (mergeNode.path .fromRoot) = some n) }) = _
    rw [hroot]

theorem setAllContinuations_ok {ns : List String} (hns : ∀ n ∈ ns,Present graph n)
    (hpaths : ∀ m,Present graph m → ∀ d,pathIn d graph m = path d m)
    (hmerge : ∀ n,Present graph n → ∀ m ∈ path .fromLeaf n,Present graph m) :
    ∃ graph',ns.foldlM setContinuation graph = .ok graph' ∧ SamePaths graph graph' ∧
      (∀ n,continuationIn graph n = some (continuationOf path n) → continuationIn graph' n = some (continuationOf path n)) ∧
      ∀ n ∈ ns,continuationIn graph' n = some (continuationOf path n) := by
  induction ns generalizing graph with
  | nil => exact ⟨graph,rfl,⟨.refl graph,fun _ _ => rfl⟩,fun _ h => h,by simp⟩
  | cons n ns ih =>
    obtain ⟨hn,hrest⟩ := List.forall_mem_cons.mp hns
    obtain ⟨mid,hmid,hsame,hset,hother⟩ := setContinuation_ok hn hpaths (hmerge n hn)
    have hpresent : ∀ m,Present mid m ↔ Present graph m := fun m => hsame.edges.present
    obtain ⟨graph',hgraph',hsame',hkeeps,hall⟩ := ih (fun m hm => (hpresent m).mpr (hrest m hm))
      (fun m hm d => by rw [hsame.paths,hpaths m ((hpresent m).mp hm)])
      (fun m hm x hx => (hpresent x).mpr (hmerge m ((hpresent m).mp hm) x hx))
    have hkept : ∀ m,continuationIn graph m = some (continuationOf path m) → continuationIn mid m = some (continuationOf path m) := by
      intro m hm
      by_cases hmn : m = n
      · rw [hmn]
        exact hset
      · rw [hother m hmn]
        exact hm
    refine ⟨graph',?_,?_,fun m hm => hkeeps m (hkept m hm),List.forall_mem_cons.mpr ⟨hkeeps n hset,hall⟩⟩
    · rw [List.foldlM_cons]
      exact bind_eq_ok.mpr ⟨mid,hmid,hgraph'⟩
    · exact ⟨hsame.edges.trans hsame'.edges,fun d m => (hsame'.paths d m).trans (hsame.paths d m)⟩

end SonicPins.P4Symbolic.Cfg
