import SonicPins.Lib.AssertionStack
import SonicPins.Pdpi.Messages
import SonicPins.Pdpi.Values

/-! Packet synthesis requests and the incremental solver stack they are asked on. -/
namespace SonicPins.P4Symbolic.PacketSynthesis
open Lib Pdpi

/-! ### Criteria -/

structure OutputCriteria where
  dropExpected : Bool := false
  deriving DecidableEq,Repr

structure FieldCriterion where
  fieldMatch : IrMatch
  negated : Bool := false
  deriving DecidableEq

structure HeaderCriteria where
  fieldCriteria : List FieldCriterion := []
  deriving DecidableEq

structure TableReachabilityCriteria where
  tableName : String := ""
  deriving DecidableEq,Repr

structure TableEntryReachabilityCriteria where
  tableName : String := ""
  matchIndex : Int32 := 0
  deriving DecidableEq,Repr

structure PayloadCriteria where
  payload : String := ""
  deriving DecidableEq,Repr

structure PortCriteria where
  v1modelPort : Int32 := 0
  deriving DecidableEq,Repr

structure PacketSynthesisCriteria where
  outputCriteria : Option OutputCriteria := none
  inputPacketHeaderCriteria : Option HeaderCriteria := none
  tableReachabilityCriteria : Option TableReachabilityCriteria := none
  tableEntryReachabilityCriteria : Option TableEntryReachabilityCriteria := none
  payloadCriteria : Option PayloadCriteria := none
  ingressPortCriteria : Option PortCriteria := none
  deriving DecidableEq

inductive CriteriaCase where
  | notSet | outputCriteria | inputPacketHeaderCriteria | tableReachabilityCriteria
  | tableEntryReachabilityCriteria | payloadCriteria | ingressPortCriteria
  deriving DecidableEq,Repr

inductive CriteriaVariant where
  | notSet
  | outputCriteria (c : OutputCriteria)
  | inputPacketHeaderCriteria (c : HeaderCriteria)
  | tableReachabilityCriteria (c : TableReachabilityCriteria)
  | tableEntryReachabilityCriteria (c : TableEntryReachabilityCriteria)
  | payloadCriteria (c : PayloadCriteria)
  | ingressPortCriteria (c : PortCriteria)
  deriving DecidableEq

def CriteriaVariant.ofOption {α : Type} (wrap : α → CriteriaVariant) : Option α → CriteriaVariant
  | none => .notSet
  | some c => wrap c

def getCriteriaVariant (criteria : PacketSynthesisCriteria) : CriteriaCase → StatusOr CriteriaVariant
  | .outputCriteria => .ok (.ofOption .outputCriteria criteria.outputCriteria)
  | .inputPacketHeaderCriteria => .ok (.ofOption .inputPacketHeaderCriteria criteria.inputPacketHeaderCriteria)
  | .tableReachabilityCriteria => .ok (.ofOption .tableReachabilityCriteria criteria.tableReachabilityCriteria)
  | .tableEntryReachabilityCriteria =>
    .ok (.ofOption .tableEntryReachabilityCriteria criteria.tableEntryReachabilityCriteria)
  | .payloadCriteria => .ok (.ofOption .payloadCriteria criteria.payloadCriteria)
  | .ingressPortCriteria => .ok (.ofOption .ingressPortCriteria criteria.ingressPortCriteria)
  | .notSet => .error ⟨.invalidArgument,"Unexpected criteria case 0"⟩

def haveEqualCriteriaVariants (lhs rhs : PacketSynthesisCriteria) (criteriaCase : CriteriaCase) : StatusOr Bool := do
  let lhsVariant ← getCriteriaVariant lhs criteriaCase
  let rhsVariant ← getCriteriaVariant rhs criteriaCase
  .ok (lhsVariant = rhsVariant)

/-! ### Constraints of a criteria variant -/

/-- The solver's expressions, as far as the constraints use them. -/
structure Expressions (E : Type) where
  negation : E → E
  equalsInt : E → Int32 → E
  bitvectorValue (value bitwidth : Nat) : E
  eq : E → E → StatusOr E
  prefixEq (a b : E) (prefixSize : UInt32) : StatusOr E
  bitAnd : E → E → StatusOr E

structure SymbolicTableMatch (E : Type) where
  isMatched : E
  entryIndex : E

/-- What the evaluation of the program left in the solver state beside the solver: the
symbolic ingress headers, the trace and the program's field widths. -/
structure SymbolicContext (E : Type) where
  ingressPort : E
  ingressHeaders : List (String × E)
  fieldBitwidth : String → StatusOr Nat
  dropped : E
  matchedEntries : List (String × SymbolicTableMatch E)

section Constraints
variable [InetText] {E : Type} (ops : Expressions E) (ctx : SymbolicContext E)

def SymbolicContext.getIngressHeader (name : String) : StatusOr E :=
  match ctx.ingressHeaders.lookup name with
  | some value => .ok value
  | none => .error ⟨.invalidArgument,"Cannot find key \"" ++ name ++ "\" in SymbolicGuardedMap!"⟩

def irValueToZ3Bitvector (value : IrValue) (bitwidth : Nat) : StatusOr E :=
  (irValueToNormalizedByteString value bitwidth).map fun bytes => ops.bitvectorValue (bytesToNat bytes) bitwidth

def getFieldMatchConstraints (field : E) (bitwidth : Nat) (fieldMatch : IrMatch) : StatusOr E :=
  match fieldMatch.value with
  | .exact v => do
    let value ← irValueToZ3Bitvector ops v bitwidth
    ops.eq field value
  | .lpm v prefixLength => do
    let value ← irValueToZ3Bitvector ops v bitwidth
    ops.prefixEq field value prefixLength.toUInt32
  | .ternary v m => do
    let value ← irValueToZ3Bitvector ops v bitwidth
    let mask ← irValueToZ3Bitvector ops m bitwidth
    let maskedField ← ops.bitAnd field mask
    ops.eq maskedField value
  | _ => .error ⟨.invalidArgument,"Unsupported IR match type in name: \"" ++ fieldMatch.name ++ "\""⟩

/-- The assertion one field criterion stands for. -/
def fieldCriterionConstraint (c : FieldCriterion) : StatusOr E := do
  let field ← ctx.getIngressHeader c.fieldMatch.name
  let bitwidth ← ctx.fieldBitwidth c.fieldMatch.name
  let constraint ← getFieldMatchConstraints ops field bitwidth c.fieldMatch
  .ok (if c.negated then ops.negation constraint else constraint)

/-- A call on the solver's stack: the stack it leaves, and how it ended. -/
abbrev OnStack (E : Type) := AssertionStack E → AssertionStack E × Fallible Unit

/-- The field criteria are asserted one at a time, so that an error keeps the earlier ones. -/
def addConstraintsForInputPacketHeader : List FieldCriterion → OnStack E
  | [],solver => (solver,.ok ())
  | c :: rest,solver =>
    match fieldCriterionConstraint ops ctx c with
    | .error e => (solver,.error (.status e))
    | .ok constraint => addConstraintsForInputPacketHeader rest (solver.add constraint)

def addConstraintsForIngressPort (criteria : PortCriteria) : OnStack E := fun solver =>
  (solver.add (ops.equalsInt ctx.ingressPort criteria.v1modelPort),.ok ())

def addOutputConstraints (criteria : OutputCriteria) : OnStack E := fun solver =>
  (solver.add (if criteria.dropExpected then ctx.dropped else ops.negation ctx.dropped),.ok ())

/-- `matched_entries.at(table_name)`. -/
def SymbolicContext.matchedEntryAt (tableName : String) : Fallible (SymbolicTableMatch E) :=
  match ctx.matchedEntries.lookup tableName with
  | some tableMatch => .ok tableMatch
  | none => .error (.thrown "std::out_of_range")

def addTableConstraints (criteria : TableReachabilityCriteria) : OnStack E := fun solver =>
  match ctx.matchedEntryAt criteria.tableName with
  | .error e => (solver,.error e)
  | .ok tableMatch => (solver.add tableMatch.isMatched,.ok ())

def addTableEntryConstraints (criteria : TableEntryReachabilityCriteria) : OnStack E := fun solver =>
  match ctx.matchedEntryAt criteria.tableName with
  | .error e => (solver,.error e)
  | .ok tableMatch => (solver.add (ops.equalsInt tableMatch.entryIndex criteria.matchIndex),.ok ())

end Constraints

/-! ### The synthesizer -/

def kSolverFrameStackOrder : List CriteriaCase :=
  [.outputCriteria,.inputPacketHeaderCriteria,.tableReachabilityCriteria,.tableEntryReachabilityCriteria,
    .ingressPortCriteria]

structure PacketSynthesizer (E : Type) where
  solver : AssertionStack E
  solverFrameStackSize : Nat
  currentCriteria : PacketSynthesisCriteria

variable [InetText] {E : Type} (ops : Expressions E) (ctx : SymbolicContext E)

/-- The constructor: an empty frame for every kind of criteria, over the program's assertions. -/
def PacketSynthesizer.create (base : List E) : PacketSynthesizer E where
  solver := kSolverFrameStackOrder.foldl (fun solver _ => solver.push) { base }
  solverFrameStackSize := kSolverFrameStackOrder.length
  currentCriteria := {}

def pushSolverFrame (s : PacketSynthesizer E) : PacketSynthesizer E × Fallible Unit :=
  if s.solverFrameStackSize ≥ kSolverFrameStackOrder.length then
    (s,.error (.status ⟨.internal,"Cannot push a new frame to full solver stack"⟩))
  else ({ s with solver := s.solver.push,solverFrameStackSize := s.solverFrameStackSize + 1 },.ok ())

def popSolverFramesLoop : Nat → PacketSynthesizer E → PacketSynthesizer E × Fallible Unit
  | 0,s => (s,.ok ())
  | n + 1,s =>
    if s.solverFrameStackSize = 0 then (s,.error (.status ⟨.internal,"Cannot pop from empty solver stack"⟩))
    else popSolverFramesLoop n { s with solver := s.solver.pop,solverFrameStackSize := s.solverFrameStackSize - 1 }

def popSolverFrames (n : Int) (s : PacketSynthesizer E) : PacketSynthesizer E × Fallible Unit :=
  if n < 0 then
    (s,.error (.status ⟨.invalidArgument,"Expected non-negative number of frames to pop, got " ++ toString n⟩))
  else popSolverFramesLoop n.toNat s

/-- Asserts a criteria variant in the newest frame, if the request has it. -/
def addCriteria {α : Type} (add : α → OnStack E) (criteria : Option α) : OnStack E := fun solver =>
  match criteria with
  | none => (solver,.ok ())
  | some c => add c solver

def addConstraintsForCase (criteriaCase : CriteriaCase) (criteria : PacketSynthesisCriteria) : OnStack E :=
  match criteriaCase with
  | .outputCriteria => addCriteria (addOutputConstraints ops ctx) criteria.outputCriteria
  | .inputPacketHeaderCriteria =>
    addCriteria (fun c => addConstraintsForInputPacketHeader ops ctx c.fieldCriteria) criteria.inputPacketHeaderCriteria
  | .tableReachabilityCriteria => addCriteria (addTableConstraints ctx) criteria.tableReachabilityCriteria
  | .tableEntryReachabilityCriteria =>
    -- the presence test of the source is on the table criteria
    if criteria.tableReachabilityCriteria.isSome then
      addTableEntryConstraints ops ctx (criteria.tableEntryReachabilityCriteria.getD {})
    else fun solver => (solver,.ok ())
  | .ingressPortCriteria => addCriteria (addConstraintsForIngressPort ops ctx) criteria.ingressPortCriteria
  | .notSet | .payloadCriteria => fun solver => (solver,.error (.status ⟨.invalidArgument,"Unsupported criteria case"⟩))

def addFrameForCriteria (criteriaCase : CriteriaCase) (criteria : PacketSynthesisCriteria) (s : PacketSynthesizer E) :
    PacketSynthesizer E × Fallible Unit :=
  match pushSolverFrame s with
  | (s,.error e) => (s,.error e)
  | (s,.ok ()) =>
    let added := addConstraintsForCase ops ctx criteriaCase criteria s.solver
    ({ s with solver := added.1 },added.2)

/-- The first place of the order, from `popIndex` on, where two criteria differ. -/
def findPopIndex (criteria current : PacketSynthesisCriteria) : List CriteriaCase → Nat → StatusOr Nat
  | [],popIndex => .ok popIndex
  | criteriaCase :: rest,popIndex => do
    let equalVariants ← haveEqualCriteriaVariants criteria current criteriaCase
    if equalVariants then findPopIndex criteria current rest (popIndex + 1) else .ok popIndex

/-- The loop that fills the stack up again; each round adds the frame of the next kind of
criteria, so as many rounds as there are kinds are enough. -/
def pushNewFrames (criteria : PacketSynthesisCriteria) : Nat → PacketSynthesizer E → PacketSynthesizer E × Fallible Unit
  | 0,s => (s,.ok ())
  | rounds + 1,s =>
    match kSolverFrameStackOrder[s.solverFrameStackSize]? with
    | none => (s,.ok ())
    | some criteriaCase =>
      match addFrameForCriteria ops ctx criteriaCase criteria s with
      | (s,.error e) => (s,.error e)
      | (s,.ok ()) => pushNewFrames criteria rounds s

def prepareZ3SolverStack (criteria : PacketSynthesisCriteria) (s : PacketSynthesizer E) :
    PacketSynthesizer E × Fallible Nat :=
  match findPopIndex criteria s.currentCriteria kSolverFrameStackOrder 0 with
  | .error e => (s,.error (.status e))
  | .ok popIndex =>
    match popSolverFrames (kSolverFrameStackOrder.length - popIndex : Int) s with
    | (s,.error e) => (s,.error e)
    | (s,.ok ()) =>
      match pushNewFrames ops ctx criteria kSolverFrameStackOrder.length s with
      | (s,.error e) => (s,.error e)
      | (s,.ok ()) =>
        if s.solverFrameStackSize ≠ kSolverFrameStackOrder.length then
          (s,.error (.status ⟨.internal,"Expected frame size of " ++ toString kSolverFrameStackOrder.length ++ ", got " ++
            toString s.solverFrameStackSize⟩))
        else ({ s with currentCriteria := criteria },.ok (kSolverFrameStackOrder.length - popIndex))

inductive CheckResult where
  | unsat | sat | unknown
  deriving DecidableEq,Repr

/-- The solver, a function of the assertions on its stack, and the packet read from its model. -/
structure Solver (E Packet : Type) where
  check : List E → CheckResult
  synthesizePacketFromZ3Model (assertions : List E) (payload : String) (dropExpected : Option Bool) : StatusOr Packet

structure PacketSynthesisResult (Packet : Type) where
  synthesizedPacket : Option Packet
  z3SolverStackPoppedFrameCount : Nat
  deriving DecidableEq

/-- How a request ended, with the assertions the solver was asked about on its behalf. -/
structure Synthesis (E Packet : Type) where
  asked : Option (List E)
  result : Fallible (PacketSynthesisResult Packet)

variable {Packet : Type} (z3 : Solver E Packet)

def synthesizedPacket (criteria : PacketSynthesisCriteria) (assertions : List E) : StatusOr (Option Packet) :=
  if z3.check assertions = .sat then
    (z3.synthesizePacketFromZ3Model assertions ((criteria.payloadCriteria.getD {}).payload)
      (criteria.outputCriteria.map (·.dropExpected))).map some
  else .ok none

def synthesizePacket (criteria : PacketSynthesisCriteria) (s : PacketSynthesizer E) :
    PacketSynthesizer E × Synthesis E Packet :=
  match prepareZ3SolverStack ops ctx criteria s with
  | (s,.error e) => (s,⟨none,.error e⟩)
  | (s,.ok poppedFrameCount) =>
    (s,⟨some s.solver.assertions,
      orFail ((synthesizedPacket z3 criteria s.solver.assertions).map fun packet => ⟨packet,poppedFrameCount⟩)⟩)

def afterRequests (s : PacketSynthesizer E) (requests : List PacketSynthesisCriteria) : PacketSynthesizer E :=
  requests.foldl (fun s criteria => (synthesizePacket ops ctx z3 criteria s).1) s

end SonicPins.P4Symbolic.PacketSynthesis
