import SonicPins.P4Symbolic.PacketSynthesis

/-! When the reused solver frames are those a fresh solver would hold: after a sequence of
requests the stack stands for the current criteria exactly while every request names what
the program has and asks for a table entry together with its table. -/
namespace SonicPins.P4Symbolic.PacketSynthesis
open Lib Pdpi

variable {criteriaCase : CriteriaCase} {criteria : PacketSynthesisCriteria}

section Meaning
variable [InetText] {E : Type} (ops : Expressions E) (ctx : SymbolicContext E)

/-! ### What a request stands for -/

def tableEntryConstraints (criteria : TableEntryReachabilityCriteria) : Fallible (List E) :=
  (ctx.matchedEntryAt criteria.tableName).map fun tableMatch => [ops.equalsInt tableMatch.entryIndex criteria.matchIndex]

/-- The constraints of one criteria variant of a request, none if it does not have the variant. -/
def variantConstraints (criteria : PacketSynthesisCriteria) : CriteriaCase → Fallible (List E)
  | .outputCriteria =>
    .ok ((criteria.outputCriteria.map fun c => if c.dropExpected then ctx.dropped else ops.negation ctx.dropped).toList)
  | .inputPacketHeaderCriteria =>
    match criteria.inputPacketHeaderCriteria with
    | none => .ok []
    | some c => orFail (c.fieldCriteria.mapM (fieldCriterionConstraint ops ctx))
  | .tableReachabilityCriteria =>
    match criteria.tableReachabilityCriteria with
    | none => .ok []
    | some c => (ctx.matchedEntryAt c.tableName).map fun tableMatch => [tableMatch.isMatched]
  | .tableEntryReachabilityCriteria =>
    match criteria.tableEntryReachabilityCriteria with
    | none => .ok []
    | some c => tableEntryConstraints ops ctx c
  | .ingressPortCriteria =>
    .ok ((criteria.ingressPortCriteria.map fun c => ops.equalsInt ctx.ingressPort c.v1modelPort).toList)
  | .notSet | .payloadCriteria => .error (.status ⟨.invalidArgument,"Unsupported criteria case"⟩)

/-- The frames that stand for a request, oldest first. -/
def criteriaToZ3Stack (criteria : PacketSynthesisCriteria) : Fallible (List (List E)) :=
  kSolverFrameStackOrder.mapM (variantConstraints ops ctx criteria)

/-- The solver holds one frame for every kind of criteria, and they encode the current criteria. -/
structure EncodesCurrent (base : List E) (s : PacketSynthesizer E) : Prop where
  size : s.solverFrameStackSize = kSolverFrameStackOrder.length
  baseAssertions : s.solver.base = base
  frames : criteriaToZ3Stack ops ctx s.currentCriteria = .ok s.solver.frames

variable {Packet : Type} (z3 : Solver E Packet)

/-- A request is asked about the program's assertions and its own constraints, and finds
the packet that a fresh synthesizer finds. -/
structure AnsweredAfresh (base : List E) (criteria : PacketSynthesisCriteria) (answer : Synthesis E Packet) : Prop where
  asked : ∀ assertions,answer.asked = some assertions →
    ∃ frames,criteriaToZ3Stack ops ctx criteria = .ok frames ∧ assertions = base ++ frames.flatten
  found : answer.result.map (·.synthesizedPacket) =
    (synthesizePacket ops ctx z3 criteria (.create base)).2.result.map (·.synthesizedPacket)

/-- Between the requests the solver encodes the current criteria, and every request is
answered as by a fresh synthesizer. -/
structure IncrementalAsFresh (base : List E) (requests : List PacketSynthesisCriteria) : Prop where
  between : ∀ earlier,earlier <+: requests →
    EncodesCurrent ops ctx base (afterRequests ops ctx z3 (.create base) earlier)
  answered : ∀ earlier criteria,earlier ++ [criteria] <+: requests →
    AnsweredAfresh ops ctx z3 base criteria
      (synthesizePacket ops ctx z3 criteria (afterRequests ops ctx z3 (.create base) earlier)).2

/-- The request's header fields and tables are the program's, and it has entry criteria
exactly if it has table criteria. -/
structure Encodable (criteria : PacketSynthesisCriteria) : Prop where
  paired : criteria.tableEntryReachabilityCriteria.isSome = criteria.tableReachabilityCriteria.isSome
  headerFields : ∀ c,criteria.inputPacketHeaderCriteria = some c →
    ∀ f ∈ c.fieldCriteria,∃ constraint,fieldCriterionConstraint ops ctx f = .ok constraint
  table : ∀ c,criteria.tableReachabilityCriteria = some c → (ctx.matchedEntries.lookup c.tableName).isSome
  tableEntry : ∀ c,criteria.tableEntryReachabilityCriteria = some c → (ctx.matchedEntries.lookup c.tableName).isSome

end Meaning

/-! ### The frames that are kept -/

section Popping
variable {E : Type}

private theorem drop_order {k : Nat} (h : kSolverFrameStackOrder[k]? = some criteriaCase) :
    kSolverFrameStackOrder.drop k = criteriaCase :: kSolverFrameStackOrder.drop (k + 1) := by
  obtain ⟨hlt,rfl⟩ := List.getElem?_eq_some_iff.mp h
  exact List.drop_eq_getElem_cons hlt

private theorem popSolverFramesLoop_of_le {n : Nat} {s : PacketSynthesizer E} (h : n ≤ s.solverFrameStackSize) :
    popSolverFramesLoop n s =
      ({ s with solver := s.solver.popFrames n,solverFrameStackSize := s.solverFrameStackSize - n },.ok ()) := by
  induction n generalizing s with
  | zero => simp [popSolverFramesLoop]
  | succ n ih =>
    rw [popSolverFramesLoop,if_neg (by omega),ih (by simp only; omega),AssertionStack.popFrames_succ]
    simp only [Nat.sub_sub,Nat.add_comm n 1]

private theorem findPopIndex_spec (criteria current : PacketSynthesisCriteria) {order : List CriteriaCase}
    (horder : .notSet ∉ order) (start : Nat) :
    ∃ k,k ≤ order.length ∧ findPopIndex criteria current order start = .ok (start + k) ∧
      ∀ criteriaCase ∈ order.take k,getCriteriaVariant criteria criteriaCase = getCriteriaVariant current criteriaCase := by
  induction order generalizing start with
  | nil => exact ⟨0,le_refl _,rfl,by simp⟩
  | cons criteriaCase rest ih =>
    obtain ⟨k,hk,hfind,hequal⟩ := ih (fun h => horder (List.mem_cons_of_mem _ h)) (start + 1)
    have hvariant : ∀ c,∃ v,getCriteriaVariant c criteriaCase = .ok v := by
      intro c
      cases criteriaCase with
      | notSet => simp at horder
      | _ => exact ⟨_,rfl⟩
    obtain ⟨v,hv⟩ := hvariant criteria
    obtain ⟨w,hw⟩ := hvariant current
    by_cases heq : v = w
    · refine ⟨k + 1,by simpa using hk,?_,?_⟩
      · simp only [findPopIndex,haveEqualCriteriaVariants,hv,hw,heq,bind,Except.bind]
        simpa [Nat.add_assoc,Nat.add_comm 1 k] using hfind
      · intro c hc
        rcases List.mem_cons.mp hc with rfl | hc
        · rw [hv,hw,heq]
        · exact hequal c hc
    · exact ⟨0,by simp,by simp [findPopIndex,haveEqualCriteriaVariants,hv,hw,heq,bind,Except.bind],by simp⟩

theorem ofOption_inj {α : Type} {wrap : α → CriteriaVariant} (hinj : Function.Injective wrap)
    (hset : ∀ a,wrap a ≠ .notSet) {x y : Option α} (h : CriteriaVariant.ofOption wrap x = .ofOption wrap y) : x = y := by
  cases x with
  | none => cases y with
    | none => rfl
    | some b => exact absurd h.symm (hset b)
  | some a => cases y with
    | none => exact absurd h (hset a)
    | some b => rw [hinj h]

private theorem table_of_entry {k : Nat} (hk : k ≤ kSolverFrameStackOrder.length)
    (h : .tableEntryReachabilityCriteria ∈ kSolverFrameStackOrder.take k) :
    .tableReachabilityCriteria ∈ kSolverFrameStackOrder.take k := by
  revert k
  decide

end Popping

/-! ### What one frame holds -/

section Frames
variable {E : Type} {ops : Expressions E} {ctx : SymbolicContext E}

/-- A call that adds the given assertions to the newest frame; an error keeps a part of them. -/
def Adds (add : OnStack E) (constraints : Fallible (List E)) : Prop :=
  ∀ (solver : AssertionStack E) frame,∃ added,add (solver.pushFrame frame) =
    (solver.pushFrame (frame ++ added),constraints.map fun _ => ()) ∧
    ∀ all,constraints = .ok all → added = all

theorem adds_nothing : Adds (fun solver : AssertionStack E => (solver,.ok ())) (.ok []) := by
  intro solver frame
  exact ⟨[],by simp [Except.map],by simp⟩

theorem adds_one (e : E) : Adds (fun solver => (solver.add e,.ok ())) (.ok [e]) := by
  intro solver frame
  exact ⟨[e],by simp [Except.map],by simp⟩

theorem adds_failure (e : Failure) : Adds (fun solver : AssertionStack E => (solver,.error e)) (.error e) := by
  intro solver frame
  exact ⟨[],by simp [Except.map],by simp⟩

private theorem adds_addTableConstraints (criteria : TableReachabilityCriteria) :
    Adds (addTableConstraints ctx criteria)
      ((ctx.matchedEntryAt criteria.tableName).map fun tableMatch => [tableMatch.isMatched]) := by
  unfold addTableConstraints
  cases ctx.matchedEntryAt criteria.tableName with
  | error e => exact adds_failure e
  | ok tableMatch => exact adds_one _

private theorem adds_addTableEntryConstraints (criteria : TableEntryReachabilityCriteria) :
    Adds (addTableEntryConstraints ops ctx criteria) (tableEntryConstraints ops ctx criteria) := by
  unfold addTableEntryConstraints tableEntryConstraints
  cases ctx.matchedEntryAt criteria.tableName with
  | error e => exact adds_failure e
  | ok tableMatch => exact adds_one _

variable [InetText]

private theorem adds_fieldCriteria (criteria : List FieldCriterion) :
    Adds (addConstraintsForInputPacketHeader ops ctx criteria)
      (orFail (criteria.mapM (fieldCriterionConstraint ops ctx))) := by
  induction criteria with
  | nil => exact adds_nothing
  | cons c rest ih =>
    intro solver frame
    rw [List.mapM_cons]
    cases hc : fieldCriterionConstraint ops ctx c with
    | error e =>
      refine ⟨[],?_,by simp [orFail,Except.mapError,bind,Except.bind]⟩
      simp [addConstraintsForInputPacketHeader,hc,orFail,Except.mapError,bind,Except.bind,Except.map]
    | ok constraint =>
      obtain ⟨added,hadd,hall⟩ := ih solver (frame ++ [constraint])
      refine ⟨constraint :: added,?_,?_⟩
      · simp only [addConstraintsForInputPacketHeader,hc,AssertionStack.add_pushFrame,hadd]
        cases rest.mapM (fieldCriterionConstraint ops ctx) <;>
          simp [orFail,Except.mapError,bind,Except.bind,Except.map,pure,Except.pure]
      · intro all h
        rw [orFail_eq_ok,bind_eq_ok] at h
        obtain ⟨_,hfirst,h⟩ := h
        cases hfirst
        obtain ⟨others,hothers,h⟩ := bind_eq_ok.mp h
        cases h
        rw [hall others (orFail_eq_ok.mpr hothers)]

/-- What the frame of a kind of criteria gets: the entry criteria are read only if the
request has table criteria. -/
def frameConstraints (ops : Expressions E) (ctx : SymbolicContext E) (criteria : PacketSynthesisCriteria)
    (criteriaCase : CriteriaCase) : Fallible (List E) :=
  if criteriaCase = .tableEntryReachabilityCriteria then
    if criteria.tableReachabilityCriteria.isSome then
      tableEntryConstraints ops ctx (criteria.tableEntryReachabilityCriteria.getD {})
    else .ok []
  else variantConstraints ops ctx criteria criteriaCase

variable (ops ctx) in
private theorem adds_addConstraintsForCase (criteriaCase : CriteriaCase) (criteria : PacketSynthesisCriteria) :
    Adds (addConstraintsForCase ops ctx criteriaCase criteria) (frameConstraints ops ctx criteria criteriaCase) := by
  cases criteriaCase with
  | notSet => exact adds_failure _
  | payloadCriteria => exact adds_failure _
  | outputCriteria =>
    unfold addConstraintsForCase frameConstraints variantConstraints
    cases criteria.outputCriteria with
    | none => exact adds_nothing
    | some c => exact adds_one _
  | inputPacketHeaderCriteria =>
    unfold addConstraintsForCase frameConstraints variantConstraints
    cases criteria.inputPacketHeaderCriteria with
    | none => exact adds_nothing
    | some c => exact adds_fieldCriteria c.fieldCriteria
  | tableReachabilityCriteria =>
    unfold addConstraintsForCase frameConstraints variantConstraints
    cases criteria.tableReachabilityCriteria with
    | none => exact adds_nothing
    | some c => exact adds_addTableConstraints c
  | tableEntryReachabilityCriteria =>
    unfold addConstraintsForCase frameConstraints
    cases criteria.tableReachabilityCriteria with
    | none => exact adds_nothing
    | some _ => exact adds_addTableEntryConstraints _
  | ingressPortCriteria =>
    unfold addConstraintsForCase frameConstraints variantConstraints
    cases criteria.ingressPortCriteria with
    | none => exact adds_nothing
    | some c => exact adds_one _

variable (ops ctx) in
private theorem addFrameForCriteria_of_lt {s : PacketSynthesizer E} (hsize : s.solverFrameStackSize < kSolverFrameStackOrder.length)
    (criteriaCase : CriteriaCase) (criteria : PacketSynthesisCriteria) :
    ∃ frame,addFrameForCriteria ops ctx criteriaCase criteria s =
        ({ s with solver := s.solver.pushFrame frame,solverFrameStackSize := s.solverFrameStackSize + 1 },
          (frameConstraints ops ctx criteria criteriaCase).map fun _ => ()) ∧
      ∀ all,frameConstraints ops ctx criteria criteriaCase = .ok all → frame = all := by
  obtain ⟨frame,hadd,hall⟩ := adds_addConstraintsForCase ops ctx criteriaCase criteria s.solver []
  refine ⟨frame,?_,hall⟩
  simp only [addFrameForCriteria,pushSolverFrame,if_neg (not_le.mpr hsize),AssertionStack.push_eq_pushFrame,hadd]
  rfl

/-! ### The stack after a request -/

private theorem lt_of_frame_error {k : Nat} {e : Failure} (hcase : kSolverFrameStackOrder[k]? = some criteriaCase)
    (herror : frameConstraints ops ctx criteria criteriaCase = .error e) : k + 1 < kSolverFrameStackOrder.length := by
  obtain ⟨hlt,rfl⟩ := List.getElem?_eq_some_iff.mp hcase
  by_contra hlast
  obtain rfl : k = 4 := by simp [kSolverFrameStackOrder] at hlt hlast; omega
  simp [kSolverFrameStackOrder,frameConstraints,variantConstraints] at herror

variable (ops ctx) in
private theorem pushNewFrames_spec (criteria : PacketSynthesisCriteria) {rounds : Nat} {s : PacketSynthesizer E}
    (hsize : s.solverFrameStackSize ≤ kSolverFrameStackOrder.length)
    (hrounds : kSolverFrameStackOrder.length ≤ s.solverFrameStackSize + rounds) :
    match (kSolverFrameStackOrder.drop s.solverFrameStackSize).mapM (frameConstraints ops ctx criteria) with
    | .ok frames => pushNewFrames ops ctx criteria rounds s =
        ({ s with solver := { s.solver with frames := s.solver.frames ++ frames },
                  solverFrameStackSize := kSolverFrameStackOrder.length },.ok ())
    | .error e => ∃ t,pushNewFrames ops ctx criteria rounds s = (t,.error e) ∧
        t.solverFrameStackSize < kSolverFrameStackOrder.length := by
  induction rounds generalizing s with
  | zero =>
    have heq : s.solverFrameStackSize = kSolverFrameStackOrder.length := by omega
    rw [heq,List.drop_length]
    simp [pushNewFrames,pure,Except.pure,← heq]
  | succ rounds ih =>
    unfold pushNewFrames
    cases hcase : kSolverFrameStackOrder[s.solverFrameStackSize]? with
    | none =>
      have heq : s.solverFrameStackSize = kSolverFrameStackOrder.length :=
        le_antisymm hsize (List.getElem?_eq_none_iff.mp hcase)
      rw [heq,List.drop_length]
      simp [pure,Except.pure,← heq]
    | some criteriaCase =>
      have hlt := (List.getElem?_eq_some_iff.mp hcase).1
      obtain ⟨frame,hadd,hall⟩ := addFrameForCriteria_of_lt ops ctx hlt criteriaCase criteria
      rw [drop_order hcase,List.mapM_cons]
      cases hframe : frameConstraints ops ctx criteria criteriaCase with
      | error e =>
        rw [hframe] at hadd
        simp only [hadd,Except.map,bind,Except.bind]
        exact ⟨_,rfl,lt_of_frame_error hcase hframe⟩
      | ok all =>
        cases hall all hframe
        rw [hframe] at hadd
        have hnext := ih (s := { s with solver := s.solver.pushFrame frame,solverFrameStackSize := s.solverFrameStackSize + 1 })
          hlt (by simp only; omega)
        simp only [hadd,Except.map,bind,Except.bind]
        revert hnext
        cases (kSolverFrameStackOrder.drop (s.solverFrameStackSize + 1)).mapM (frameConstraints ops ctx criteria) with
        | error e => exact fun hnext => hnext
        | ok frames =>
          intro hnext
          simpa [pure,Except.pure] using hnext

/-- A state whose frames are those the current criteria get. -/
structure Reusable (ops : Expressions E) (ctx : SymbolicContext E) (base : List E) (s : PacketSynthesizer E) : Prop
    extends EncodesCurrent ops ctx base s where
  added : kSolverFrameStackOrder.mapM (frameConstraints ops ctx s.currentCriteria) = .ok s.solver.frames

private theorem variantConstraints_congr {current : PacketSynthesisCriteria}
    (h : getCriteriaVariant criteria criteriaCase = getCriteriaVariant current criteriaCase) :
    variantConstraints ops ctx criteria criteriaCase = variantConstraints ops ctx current criteriaCase := by
  cases criteriaCase with
  | notSet => rfl
  | payloadCriteria => rfl
  | outputCriteria | inputPacketHeaderCriteria | tableReachabilityCriteria | tableEntryReachabilityCriteria
  | ingressPortCriteria =>
    have heq := ofOption_inj (fun _ _ h => by simpa using h) (by simp) (Except.ok.inj h)
    simp only [variantConstraints,heq]

private theorem frameConstraints_congr {current : PacketSynthesisCriteria} {k : Nat} (hk : k ≤ kSolverFrameStackOrder.length)
    (hequal : ∀ c ∈ kSolverFrameStackOrder.take k,getCriteriaVariant criteria c = getCriteriaVariant current c)
    (hmem : criteriaCase ∈ kSolverFrameStackOrder.take k) :
    frameConstraints ops ctx criteria criteriaCase = frameConstraints ops ctx current criteriaCase := by
  unfold frameConstraints
  by_cases hentry : criteriaCase = .tableEntryReachabilityCriteria
  · subst hentry
    have htable := ofOption_inj (fun _ _ h => by simpa using h) (by simp) (Except.ok.inj (hequal _ (table_of_entry hk hmem)))
    have heq := ofOption_inj (fun _ _ h => by simpa using h) (by simp) (Except.ok.inj (hequal _ hmem))
    rw [if_pos rfl,if_pos rfl,htable,heq]
  · rw [if_neg hentry,if_neg hentry]
    exact variantConstraints_congr (hequal _ hmem)

theorem Reusable.kept {base : List E} {s : PacketSynthesizer E} (hs : Reusable ops ctx base s)
    {k : Nat} (hk : k ≤ kSolverFrameStackOrder.length)
    (hequal : ∀ c ∈ kSolverFrameStackOrder.take k,getCriteriaVariant criteria c = getCriteriaVariant s.currentCriteria c) :
    (kSolverFrameStackOrder.take k).mapM (frameConstraints ops ctx criteria) = .ok (s.solver.frames.take k) := by
  have htake := List.forall₂_take k (mapM_eq_ok.mp hs.added)
  refine mapM_eq_ok.mpr ((List.forall₂_iff_get.mp htake).elim fun hlen hget => List.forall₂_iff_get.mpr ⟨hlen,?_⟩)
  intro i hi hi'
  rw [frameConstraints_congr hk hequal (List.get_mem _ _)]
  exact hget i hi hi'

theorem Reusable.prepare {base : List E} {s : PacketSynthesizer E} (hs : Reusable ops ctx base s)
    (criteria : PacketSynthesisCriteria) :
    match kSolverFrameStackOrder.mapM (frameConstraints ops ctx criteria) with
    | .ok frames => ∃ popped,prepareZ3SolverStack ops ctx criteria s =
        ({ solver := { base,frames },solverFrameStackSize := kSolverFrameStackOrder.length,currentCriteria := criteria },
          .ok popped)
    | .error e => ∃ t,prepareZ3SolverStack ops ctx criteria s = (t,.error e) ∧
        t.solverFrameStackSize < kSolverFrameStackOrder.length := by
  obtain ⟨k,hk,hfind,hequal⟩ := findPopIndex_spec criteria s.currentCriteria
    (by decide : CriteriaCase.notSet ∉ kSolverFrameStackOrder) 0
  have hkept := hs.kept hk hequal
  have hlen : s.solver.frames.length = kSolverFrameStackOrder.length := (mapM_eq_ok.mp hs.added).length_eq.symm
  -- what is left after the pop
  let t : PacketSynthesizer E :=
    { s with solver := { s.solver with frames := s.solver.frames.take k },solverFrameStackSize := k }
  have hpop : popSolverFrames (kSolverFrameStackOrder.length - k : Int) s = (t,.ok ()) := by
    have htoNat : ((kSolverFrameStackOrder.length : Int) - k).toNat = kSolverFrameStackOrder.length - k := by omega
    rw [popSolverFrames,if_neg (by omega),htoNat,popSolverFramesLoop_of_le (by rw [hs.size]; omega),hs.size,
      Nat.sub_sub_self hk,AssertionStack.popFrames,hlen,Nat.sub_sub_self hk]
  have hpush := pushNewFrames_spec ops ctx criteria (s := t) hk (Nat.le_add_left _ _)
  rw [← List.take_append_drop k kSolverFrameStackOrder,List.mapM_append,hkept]
  simp only [prepareZ3SolverStack,hfind,Nat.zero_add,hpop]
  revert hpush
  cases (kSolverFrameStackOrder.drop k).mapM (frameConstraints ops ctx criteria) with
  | error e =>
    rintro ⟨u,hu,hlt⟩
    exact ⟨u,by simp only [hu],by simpa using hlt⟩
  | ok frames =>
    intro hpush
    refine ⟨kSolverFrameStackOrder.length - k,?_⟩
    simp only [List.take_append_drop]
    rw [hpush]
    simp [t,hs.baseAssertions]

/-! ### Requests whose frames are exact -/

private theorem header_constraints_ok : (∃ frame,variantConstraints ops ctx criteria .inputPacketHeaderCriteria = .ok frame) ↔
      ∀ c,criteria.inputPacketHeaderCriteria = some c →
        ∀ f ∈ c.fieldCriteria,∃ constraint,fieldCriterionConstraint ops ctx f = .ok constraint := by
  unfold variantConstraints
  cases criteria.inputPacketHeaderCriteria with
  | none => simp
  | some c => simp only [orFail_eq_ok,exists_mapM_eq_ok,Option.some.injEq,forall_eq']

private theorem table_constraints_ok : (∃ frame,variantConstraints ops ctx criteria .tableReachabilityCriteria = .ok frame) ↔
      ∀ c,criteria.tableReachabilityCriteria = some c → (ctx.matchedEntries.lookup c.tableName).isSome := by
  unfold variantConstraints
  cases criteria.tableReachabilityCriteria with
  | none => simp
  | some c =>
    simp only [Option.some.injEq,forall_eq',SymbolicContext.matchedEntryAt]
    cases ctx.matchedEntries.lookup c.tableName <;> simp [Except.map]

private theorem table_entry_constraints_ok :
    (∃ frame,variantConstraints ops ctx criteria .tableEntryReachabilityCriteria = .ok frame) ↔
      ∀ c,criteria.tableEntryReachabilityCriteria = some c → (ctx.matchedEntries.lookup c.tableName).isSome := by
  unfold variantConstraints
  cases criteria.tableEntryReachabilityCriteria with
  | none => simp
  | some c =>
    simp only [Option.some.injEq,forall_eq',tableEntryConstraints,SymbolicContext.matchedEntryAt]
    cases ctx.matchedEntries.lookup c.tableName <;> simp [Except.map]

theorem encodable_iff : Encodable ops ctx criteria ↔
      criteria.tableEntryReachabilityCriteria.isSome = criteria.tableReachabilityCriteria.isSome ∧
        ∃ frames,criteriaToZ3Stack ops ctx criteria = .ok frames := by
  have hframes : (∃ frames,criteriaToZ3Stack ops ctx criteria = .ok frames) ↔
      (∃ frame,variantConstraints ops ctx criteria .inputPacketHeaderCriteria = .ok frame) ∧
      (∃ frame,variantConstraints ops ctx criteria .tableReachabilityCriteria = .ok frame) ∧
      ∃ frame,variantConstraints ops ctx criteria .tableEntryReachabilityCriteria = .ok frame := by
    unfold criteriaToZ3Stack
    rw [exists_mapM_eq_ok]
    simp [kSolverFrameStackOrder,variantConstraints]
  rw [hframes,header_constraints_ok,table_constraints_ok,table_entry_constraints_ok]
  exact ⟨fun h => ⟨h.paired,h.headerFields,h.table,h.tableEntry⟩,fun ⟨hp,hh,ht,he⟩ => ⟨hp,hh,ht,he⟩⟩

theorem frameConstraints_eq_iff {frame : List E}
    (hframe : variantConstraints ops ctx criteria .tableEntryReachabilityCriteria = .ok frame) :
    frameConstraints ops ctx criteria .tableEntryReachabilityCriteria = .ok frame ↔
      criteria.tableEntryReachabilityCriteria.isSome = criteria.tableReachabilityCriteria.isSome := by
  have hone : ∀ c,tableEntryConstraints ops ctx c ≠ .ok [] := by
    intro c
    unfold tableEntryConstraints
    cases ctx.matchedEntryAt c.tableName <;> simp [Except.map]
  unfold frameConstraints
  unfold variantConstraints at hframe
  rw [if_pos rfl]
  cases hentry : criteria.tableEntryReachabilityCriteria with
  | none =>
    rw [hentry] at hframe
    cases hframe
    cases criteria.tableReachabilityCriteria with
    | none => simp
    | some _ => simpa using hone {}
  | some c =>
    rw [hentry] at hframe
    cases criteria.tableReachabilityCriteria with
    | none =>
      simp only [Option.isSome_none,Bool.false_eq_true,if_false,Except.ok.injEq,Option.isSome_some]
      refine ⟨?_,by simp⟩
      rintro rfl
      exact absurd hframe (hone c)
    | some _ => simpa using hframe

theorem Encodable.mapM_eq (h : Encodable ops ctx criteria) {frames : List (List E)}
    (hframes : criteriaToZ3Stack ops ctx criteria = .ok frames) :
    kSolverFrameStackOrder.mapM (frameConstraints ops ctx criteria) = .ok frames := by
  refine mapM_eq_ok.mpr ((mapM_eq_ok.mp hframes).imp fun criteriaCase frame hframe => ?_)
  by_cases hentry : criteriaCase = .tableEntryReachabilityCriteria
  · subst hentry
    exact (frameConstraints_eq_iff hframe).mpr h.paired
  · rw [frameConstraints,if_neg hentry]
    exact hframe

private theorem encodable_of_mapM_eq {frames : List (List E)}
    (hadded : kSolverFrameStackOrder.mapM (frameConstraints ops ctx criteria) = .ok frames)
    (hframes : criteriaToZ3Stack ops ctx criteria = .ok frames) : Encodable ops ctx criteria := by
  refine encodable_iff.mpr ⟨?_,frames,hframes⟩
  have hentry : .tableEntryReachabilityCriteria ∈ kSolverFrameStackOrder := by decide
  obtain ⟨frame,-,hframe⟩ := exists_of_forall₂_left (mapM_eq_ok.mp hframes) hentry
  exact (frameConstraints_eq_iff hframe).mp ((mapM_agree hadded hframes hentry).trans hframe)

/-! ### Runs -/

theorem reusable_create (base : List E) : Reusable ops ctx base (.create base) where
  size := rfl
  baseAssertions := rfl
  frames := rfl
  added := rfl

variable {Packet : Type} {z3 : Solver E Packet}

variable (z3) in
theorem Reusable.synthesize {base : List E} {s : PacketSynthesizer E} (hs : Reusable ops ctx base s)
    {frames : List (List E)}
    (hadded : kSolverFrameStackOrder.mapM (frameConstraints ops ctx criteria) = .ok frames) :
    (synthesizePacket ops ctx z3 criteria s).1 =
        { solver := { base,frames },solverFrameStackSize := kSolverFrameStackOrder.length,currentCriteria := criteria } ∧
      (synthesizePacket ops ctx z3 criteria s).2.asked = some (base ++ frames.flatten) ∧
      (synthesizePacket ops ctx z3 criteria s).2.result.map (·.synthesizedPacket) =
        orFail (synthesizedPacket z3 criteria (base ++ frames.flatten)) := by
  have hprepare := hs.prepare criteria
  rw [hadded] at hprepare
  obtain ⟨popped,hprepare⟩ := hprepare
  simp only [synthesizePacket,hprepare,AssertionStack.assertions,true_and]
  cases synthesizedPacket z3 criteria (base ++ frames.flatten) <;> simp [orFail,Except.map,Except.mapError]

theorem Reusable.step {base : List E} {s : PacketSynthesizer E} (hs : Reusable ops ctx base s)
    (h : Encodable ops ctx criteria) :
    Reusable ops ctx base (synthesizePacket ops ctx z3 criteria s).1 ∧
      AnsweredAfresh ops ctx z3 base criteria (synthesizePacket ops ctx z3 criteria s).2 := by
  obtain ⟨frames,hframes⟩ := (encodable_iff.mp h).2
  have hadded := h.mapM_eq hframes
  obtain ⟨hstate,hasked,hfound⟩ := hs.synthesize z3 hadded
  obtain ⟨-,-,hfresh⟩ := (reusable_create base).synthesize z3 hadded
  refine ⟨?_,?_,hfound.trans hfresh.symm⟩
  · rw [hstate]
    exact ⟨⟨rfl,rfl,hframes⟩,hadded⟩
  · intro assertions h
    rw [hasked] at h
    cases h
    exact ⟨frames,hframes,rfl⟩

theorem Reusable.encodable {base : List E} {s : PacketSynthesizer E} (hs : Reusable ops ctx base s)
    (h : EncodesCurrent ops ctx base (synthesizePacket ops ctx z3 criteria s).1) : Encodable ops ctx criteria := by
  cases hadded : kSolverFrameStackOrder.mapM (frameConstraints ops ctx criteria) with
  | ok frames =>
    obtain ⟨hstate,-,-⟩ := hs.synthesize z3 hadded
    rw [hstate] at h
    exact encodable_of_mapM_eq hadded h.frames
  | error e =>
    have hprepare := hs.prepare criteria
    rw [hadded] at hprepare
    obtain ⟨t,ht,hlt⟩ := hprepare
    have hsize := h.size
    simp only [synthesizePacket,ht] at hsize
    omega

theorem reusable_afterRequests {base : List E} {requests : List PacketSynthesisCriteria}
    (h : ∀ criteria ∈ requests,Encodable ops ctx criteria) :
    Reusable ops ctx base (afterRequests ops ctx z3 (.create base) requests) := by
  induction requests using List.reverseRecOn with
  | nil => exact reusable_create base
  | append_singleton requests criteria ih =>
    rw [afterRequests,List.foldl_append]
    exact ((ih fun c hc => h c (List.mem_append_left _ hc)).step (h criteria (by simp))).1

end Frames

section Incremental
variable [InetText] {E Packet : Type}

/-- Reusing the frames of earlier requests is exact as long as every request is encodable,
and no longer. -/
theorem incremental_iff_encodable (ops : Expressions E) (ctx : SymbolicContext E) (z3 : Solver E Packet) (base : List E)
    (requests : List PacketSynthesisCriteria) :
    IncrementalAsFresh ops ctx z3 base requests ↔ ∀ criteria ∈ requests,Encodable ops ctx criteria := by
  constructor
  · intro h
    induction requests using List.reverseRecOn with
    | nil => simp
    | append_singleton requests criteria ih =>
      have hearlier := ih ⟨fun earlier hpre => h.between earlier (hpre.trans (List.prefix_append _ _)),
        fun earlier c hpre => h.answered earlier c (hpre.trans (List.prefix_append _ _))⟩
      have hlast := h.between (requests ++ [criteria]) (List.prefix_refl _)
      rw [afterRequests,List.foldl_append] at hlast
      have hencodable := (reusable_afterRequests hearlier).encodable hlast
      intro c hc
      rcases List.mem_append.mp hc with hc | hc
      · exact hearlier c hc
      · exact List.mem_singleton.mp hc ▸ hencodable
  · intro h
    refine ⟨fun earlier hpre => ?_,fun earlier criteria hpre => ?_⟩
    · exact (reusable_afterRequests fun c hc => h c (hpre.subset hc)).toEncodesCurrent
    · have hearlier := fun c hc => h c (hpre.subset (List.mem_append_left [criteria] hc))
      exact ((reusable_afterRequests hearlier).step (h criteria (hpre.subset (by simp)))).2

end Incremental

attribute [local instance] uncompressedInet

/-- Expressions as they are written, operators of the solver included. -/
private inductive Term where
  | symbol (name : String)
  | negation (a : Term)
  | equalsInt (a : Term) (value : Int32)
  | bitvector (value bitwidth : Nat)
  | equals (a b : Term)
  | prefixEquals (a b : Term) (prefixSize : UInt32)
  | bitAnd (a b : Term)

private def expressions : Expressions Term where
  negation := .negation
  equalsInt := .equalsInt
  bitvectorValue := .bitvector
  eq a b := .ok (.equals a b)
  prefixEq a b prefixSize := .ok (.prefixEquals a b prefixSize)
  bitAnd a b := .ok (.bitAnd a b)

private def aclContext : SymbolicContext Term where
  ingressPort := .symbol "ingress_port"
  ingressHeaders := []
  fieldBitwidth _ := .error ⟨.notFound,"no header fields"⟩
  dropped := .symbol "dropped"
  matchedEntries := [("acl",⟨.symbol "acl.matched",.symbol "acl.entry_index"⟩)]

private def alwaysSat : Solver Term String where
  check _ := .sat
  synthesizePacketFromZ3Model _ _ _ := .ok "packet"

/-- Entry criteria without table criteria are not asked for at all. -/
theorem entry_criteria_dropped :
    ¬ IncrementalAsFresh expressions aclContext alwaysSat [] [{ tableEntryReachabilityCriteria := some { tableName := "acl" } }] := by
  intro h
  obtain ⟨frames,hframes,hasked⟩ := (h.answered [] _ (List.prefix_refl _)).asked [] rfl
  cases hframes
  cases hasked

end SonicPins.P4Symbolic.PacketSynthesis
