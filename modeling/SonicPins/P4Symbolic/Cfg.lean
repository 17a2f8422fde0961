import Mathlib.Data.List.AList
import Mathlib.Data.List.Sort
import Mathlib.Data.String.Basic
import SonicPins.Lib.Dominators
import SonicPins.Pdpi.Values

/-! The control flow graph of a program, its contracted paths and its merge points. Sets of names
are lists in their order; a recursion that is deeper than the stack ends the process. -/
namespace SonicPins.P4Symbolic.Cfg
open Lib Pdpi

def endOfPipeline : String := "__END_OF_PIPELINE__"

def endOfParser : String := "__END_OF_PARSER__"

structure Conditional where
  ifBranch : String
  elseBranch : String
  deriving DecidableEq

structure TableImplementation where
  actionToNextControl : List (String × String) := []
  deriving DecidableEq

inductive ParserTransition where
  | notSet
  | defaultTransition (nextState : String)
  | hexStringTransition (nextState : String)
  deriving DecidableEq

structure ParseState where
  transitions : List ParserTransition := []
  deriving DecidableEq

structure Parser where
  initialState : String
  parseStates : List (String × ParseState) := []
  deriving DecidableEq

structure Pipeline where
  initialControl : String
  deriving DecidableEq

/-- The parts of a program that its control flow graph is built from. -/
structure ProgramControls where
  parsers : List (String × Parser) := []
  pipeline : List (String × Pipeline) := []
  conditionals : List (String × Conditional) := []
  tables : List (String × TableImplementation) := []
  deriving DecidableEq

def insertName (name : String) (names : List String) : List String :=
  if name ∈ names then names else names.orderedInsert (· ≤ ·) name

def nameSet (names : List String) : List String := names.foldr insertName []

def controlChildren (program : ProgramControls) (controlName : String) : StatusOr (List String) :=
  if controlName = endOfPipeline then .ok []
  else match program.conditionals.lookup controlName with
    | some conditional => .ok (nameSet [conditional.ifBranch,conditional.elseBranch])
    | none => match program.tables.lookup controlName with
      | some table => .ok (nameSet (table.actionToNextControl.map Prod.snd))
      | none => .error (invalidArgument ("Unknown control '" ++ controlName ++ "'"))

def nextState : ParserTransition → StatusOr String
  | .defaultTransition next => .ok next
  | .hexStringTransition next => .ok next
  | .notSet => .error (invalidArgument "Unknown transition: ")

def parseStateChildren (parser : Parser) (stateName : String) : StatusOr (List String) :=
  if stateName = endOfParser then .ok []
  else match parser.parseStates.lookup stateName with
    | some state => (state.transitions.mapM nextState).map nameSet
    | none => .error (invalidArgument ("Unknown parse state: '" ++ stateName ++ "'"))

inductive CfgNodeType where
  | pipelineControl | parseState
  deriving DecidableEq

structure CfgNode where
  nodeName : String
  nodeType : CfgNodeType
  children : List String := []
  parents : List String := []
  contractedPathFromRoot : List String := []
  contractedReversePathFromLeaf : List String := []
  mergePoint : Option String := none
  continueToMergePoint : Bool := false
  deriving DecidableEq

/-- `node_by_name_`. -/
abbrev ControlFlowGraph := AList fun _ : String => CfgNode

def getMutableNode (graph : ControlFlowGraph) (nodeName : String) : StatusOr CfgNode :=
  match graph.lookup nodeName with
  | some node => .ok node
  | none => .error ⟨.notFound,"Node name '" ++ nodeName ++ "' does not correspond to any node in the CFG"⟩

def getOrAddNode (graph : ControlFlowGraph) (nodeName : String) (nodeType : CfgNodeType) : StatusOr ControlFlowGraph :=
  match graph.lookup nodeName with
  | none => .ok (graph.insert nodeName { nodeName := nodeName,nodeType := nodeType })
  | some node =>
    if node.nodeType ≠ nodeType then .error (invalidArgument ("Nodes of different types have the same name: " ++ nodeName))
    else .ok graph

def modify (graph : ControlFlowGraph) (nodeName : String) (change : CfgNode → CfgNode) : ControlFlowGraph :=
  match graph.lookup nodeName with
  | some node => graph.insert nodeName (change node)
  | none => graph

def stackOverflow : Failure := .thrown "stack overflow"

section Construction
variable (children : String → StatusOr (List String)) (nodeType : CfgNodeType)

/-- The edge to a child, and the subgraph of a child that was not there before. -/
def addChild (construct : ControlFlowGraph → String → Fallible ControlFlowGraph) (nodeName : String) (graph : ControlFlowGraph)
    (child : String) : Fallible ControlFlowGraph := do
  let graph ← orFail (getOrAddNode graph child nodeType)
  let node ← orFail (getMutableNode graph child)
  let graph := modify graph nodeName fun node => { node with children := insertName child node.children }
  let graph := modify graph child fun node => { node with parents := insertName nodeName node.parents }
  if node.parents.isEmpty then construct graph child else .ok graph

def constructSubgraph : Nat → ControlFlowGraph → String → Fallible ControlFlowGraph
  | 0,_,_ => .error stackOverflow
  | stack + 1,graph,nodeName => do
    let graph ← orFail (getOrAddNode graph nodeName nodeType)
    let names ← orFail (children nodeName)
    names.foldlM (addChild nodeType (constructSubgraph stack) nodeName) graph

end Construction

inductive Direction where
  | fromRoot | fromLeaf
  deriving DecidableEq

def CfgNode.neighbours (node : CfgNode) : Direction → List String
  | .fromRoot => node.parents
  | .fromLeaf => node.children

def CfgNode.path (node : CfgNode) : Direction → List String
  | .fromRoot => node.contractedPathFromRoot
  | .fromLeaf => node.contractedReversePathFromLeaf

def CfgNode.withPath (node : CfgNode) (path : List String) : Direction → CfgNode
  | .fromRoot => { node with contractedPathFromRoot := path }
  | .fromLeaf => { node with contractedReversePathFromLeaf := path }

def emptyPath (direction : Direction) (nodeName : String) : Status :=
  let path := match direction with
    | .fromRoot => "Contracted path from root of '"
    | .fromLeaf => "Contracted reverse path from leaf of '"
  ⟨.internal,path ++ nodeName ++ "' is empty"⟩

def getPath (setPath : ControlFlowGraph → String → Fallible ControlFlowGraph) (direction : Direction)
    (graph : ControlFlowGraph) (nodeName : String) : Fallible (ControlFlowGraph × List String) := do
  let node ← orFail (getMutableNode graph nodeName)
  if !(node.path direction).isEmpty then .ok (graph,node.path direction)
  else do
    let graph ← setPath graph nodeName
    let node ← orFail (getMutableNode graph nodeName)
    if (node.path direction).isEmpty then .error (.status (emptyPath direction nodeName))
    else .ok (graph,node.path direction)

/-- The path of a node so far, contracted with that of a neighbour. -/
def contractNeighbour (setPath : ControlFlowGraph → String → Fallible ControlFlowGraph) (direction : Direction)
    (nodeName : String) (graph : ControlFlowGraph) (neighbour : String) : Fallible ControlFlowGraph := do
  let (graph,path) ← getPath setPath direction graph neighbour
  .ok (modify graph nodeName fun node => node.withPath (contract (node.path direction) path) direction)

/-- `SetContractedPathFromRoot` and `SetContractedReversePathFromLeaf`. -/
def setContractedPath (direction : Direction) : Nat → ControlFlowGraph → String → Fallible ControlFlowGraph
  | 0,_,_ => .error stackOverflow
  | stack + 1,graph,nodeName => do
    let node ← orFail (getMutableNode graph nodeName)
    let graph ← (node.neighbours direction).foldlM
      (contractNeighbour (setContractedPath direction stack) direction nodeName) graph
    .ok (modify graph nodeName fun node => node.withPath (node.path direction ++ [nodeName]) direction)

def setContractedPaths (stack : Nat) (graph : ControlFlowGraph) (nodeName : String) : Fallible ControlFlowGraph := do
  let (graph,_) ← getPath (setContractedPath .fromLeaf stack) .fromLeaf graph nodeName
  let (graph,_) ← getPath (setContractedPath .fromRoot stack) .fromRoot graph nodeName
  .ok graph

/-- `get_merge_point`: the last node but one. -/
def getMergePoint (contractedPath : List String) : Option String := contractedPath.dropLast.getLast?

def setContinuation (graph : ControlFlowGraph) (nodeName : String) : Fallible ControlFlowGraph := do
  let node ← orFail (getMutableNode graph nodeName)
  match getMergePoint node.contractedReversePathFromLeaf with
  | none => .ok (modify graph nodeName fun node => { node with mergePoint := none,continueToMergePoint := false })
  | some mergePoint => do
    let mergePointNode ← orFail (getMutableNode graph mergePoint)
    .ok (modify graph nodeName fun node => { node with
      mergePoint := some mergePoint
      continueToMergePoint := decide (getMergePoint mergePointNode.contractedPathFromRoot = some nodeName) })

/-- The basic graph: that of the parser, and those of the pipelines. -/
def constructGraph (stack : Nat) (program : ProgramControls) (parser : Parser) : Fallible ControlFlowGraph := do
  let graph ← constructSubgraph (parseStateChildren parser) .parseState stack ∅ parser.initialState
  program.pipeline.foldlM (fun graph pipeline =>
    constructSubgraph (controlChildren program) .pipelineControl stack graph pipeline.2.initialControl) graph

def create (stack : Nat) (program : ProgramControls) : Fallible ControlFlowGraph :=
  match program.parsers with
  | [(_,parser)] => do
    let graph ← constructGraph stack program parser
    let graph ← graph.keys.foldlM (setContractedPaths stack) graph
    graph.keys.foldlM setContinuation graph
  | parsers => .error (.status (invalidArgument ("Invalid number of parsers: " ++ natText parsers.length)))

end SonicPins.P4Symbolic.Cfg
