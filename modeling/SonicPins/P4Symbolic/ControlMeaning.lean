import SonicPins.P4Symbolic.TableMatches
import SonicPins.Pdpi.ValueCodec

/-! Concrete runs of a program's controls, and that symbolic evaluation with merge points follows them. -/
namespace SonicPins.P4Symbolic.Evaluation
open Lib Pdpi Operators SymbolicPerPacketState

variable {trace : List (String × Int)} {default : Ir.TableEntry}

section Runs

/-- The control after a table: that of hits or that of misses if the table has these, and otherwise that of every action. -/
def LeadsTo (table : Ir.ProgramTable) (hit : Prop) (next : String) : Prop :=
  ((table.actionToNextControl.lookup Ir.tableHitAction).isSome ∧
    (hit → table.actionToNextControl.lookup Ir.tableHitAction = some next) ∧
    (¬ hit → table.actionToNextControl.lookup Ir.tableMissAction = some next)) ∨
  table.actionToNextControl.lookup Ir.tableHitAction = none ∧ table.actionToNextControl ≠ [] ∧
    ∀ x ∈ table.actionToNextControl,x.2 = next

variable [InetText] (program : Ir.Program) (entries : Ir.TableEntries) (T : P4RuntimeTranslator) (σ : Assignment)

/-- A table acts by the first of its entries, in the order of their priority, that is matched, or by its default entry. -/
structure TableActs (table : Ir.ProgramTable) (sorted : List Ir.TableEntry) (entry : Ir.TableEntry) (c c' : Store) : Prop where
  entries : sortedTableEntries entries table = .ok sorted
  selects : ∃ default,defaultEntry table = .ok default ∧ Selects (EntryIsMatched program table T σ c) default sorted entry
  acts : EntryActs program table σ T entry c c'

/-- One control on concrete headers: where it leads, and the entry of a table with its index. -/
inductive Step : String → Store → List (String × Int) → String → Store → Prop
  | table {control next : String} {table : Ir.ProgramTable} {sorted : List Ir.TableEntry} {entry : Ir.TableEntry} {c c' : Store}
      (hcontrol : control ≠ Cfg.endOfPipeline) (htable : program.tables.lookup control = some table)
      (hacts : TableActs program entries T σ table sorted entry c c')
      (hnext : LeadsTo table (∃ e ∈ sorted,EntryIsMatched program table T σ c e) next) :
      Step control c [(table.tableDefinition.preamble.name,(Ir.getIndex entry).toInt)] next c'
  | conditional {control : String} {conditional : Ir.Conditional} {v : Value} {c : Store}
      (hcontrol : control ≠ Cfg.endOfPipeline) (htable : program.tables.lookup control = none)
      (hconditional : program.conditionals.lookup control = some conditional)
      (hv : valueOf (c,fun _ => none) conditional.condition = some v) :
      Step control c [] (if v.bits ≠ 0 then conditional.ifBranch else conditional.elseBranch) c

/-- Controls, one after the other, up to one of them; the trace has the tables with the indices of their entries. -/
inductive Run (stop : String) : String → Store → List (String × Int) → Store → Prop
  | done {c : Store} : Run stop stop c [] c
  | step {control next : String} {c d c' : Store} {item trace : List (String × Int)}
      (hstep : Step program entries T σ control c item next d) (hrun : Run stop next d trace c') :
      Run stop control c (item ++ trace) c'

variable {program entries T σ}

theorem Run.trans {control mid stop : String} {c d c' : Store} {trace' : List (String × Int)}
    (h : Run program entries T σ mid control c trace d) (h' : Run program entries T σ stop mid d trace' c') :
    Run program entries T σ stop control c (trace ++ trace') c' := by
  induction h with
  | done => exact h'
  | step hstep _ ih =>
    rw [List.append_assoc]
    exact .step hstep (ih h')

theorem Run.of_end {stop : String} {c c' : Store}
    (h : Run program entries T σ stop Cfg.endOfPipeline c trace c') : stop = Cfg.endOfPipeline ∧ trace = [] ∧ c' = c := by
  cases h with
  | done => exact ⟨rfl,rfl,rfl⟩
  | step hstep _ =>
    cases hstep with
    | table hcontrol => exact absurd rfl hcontrol
    | conditional hcontrol => exact absurd rfl hcontrol

theorem Run.widths_eq {control stop : String} {c c' : Store}
    (h : Run program entries T σ stop control c trace c') : widths c' = widths c := by
  induction h with
  | done => rfl
  | step hstep _ ih =>
    rw [ih]
    cases hstep with
    | table _ _ hacts _ => exact hacts.acts.widths_eq
    | conditional => rfl

end Runs

/-- The controls after a table: none twice, one at least, and either both of a hit and a miss or neither. -/
structure NextControls (table : Ir.ProgramTable) : Prop where
  nodup : (table.actionToNextControl.map Prod.fst).Nodup
  nonempty : table.actionToNextControl ≠ []
  both : (table.actionToNextControl.lookup Ir.tableHitAction).isSome ↔ (table.actionToNextControl.lookup Ir.tableMissAction).isSome

/-- Where the evaluation of a control stops: its branches stop at its merge point, and if it continues, it stops where its merge
point does. -/
inductive StopsAt (program : Ir.Program) : String → String → Prop
  | finish : StopsAt program Cfg.endOfPipeline Cfg.endOfPipeline
  | table {control stop : String} {table : Ir.ProgramTable} (hcontrol : control ≠ Cfg.endOfPipeline)
      (htable : program.tables.lookup control = some table) (hnext : NextControls table)
      (hbranches : ∀ x ∈ table.actionToNextControl,x.2 ≠ table.info.mergePoint → StopsAt program x.2 table.info.mergePoint)
      (hcontinues : table.info.continueToMergePoint = true → StopsAt program table.info.mergePoint stop)
      (hstops : table.info.continueToMergePoint = false → stop = table.info.mergePoint) : StopsAt program control stop
  | conditional {control stop : String} {conditional : Ir.Conditional} (hcontrol : control ≠ Cfg.endOfPipeline)
      (htable : program.tables.lookup control = none) (hconditional : program.conditionals.lookup control = some conditional)
      (hbranches : ∀ next ∈ [conditional.ifBranch,conditional.elseBranch],next ≠ conditional.info.mergePoint →
        StopsAt program next conditional.info.mergePoint)
      (hcontinues : conditional.info.continueToMergePoint = true → StopsAt program conditional.info.mergePoint stop)
      (hstops : conditional.info.continueToMergePoint = false → stop = conditional.info.mergePoint) : StopsAt program control stop

section Evaluations
variable [InetText] {program : Ir.Program} {entries : Ir.TableEntries} {control mid stop : String} {guard : Term}
  {state : EvaluationState} {headers : SymbolicPerPacketState} {r r' : Evaluated}

/-- Where the guard holds, there is a run of a control on the concrete headers with the collected trace; elsewhere the headers stay. -/
structure Evaluates (program : Ir.Program) (entries : Ir.TableEntries) (control stop : String) (guard : Term) (state : EvaluationState)
    (headers : SymbolicPerPacketState) (r : Evaluated) : Prop where
  extends_ : Extends r.state.translator state.translator
  sound : SoundPacket r.headers
  tableMatches : SoundMatches r.tableMatches
  follows : ∀ T,Extends T r.state.translator → Follows storeAt id (holds guard) (fun σ c c' =>
    ∃ trace,Run program entries T σ stop control c trace c' ∧ TraceOf σ r.tableMatches trace) headers r.headers

/-- An evaluation that does this for every control that stops somewhere. -/
def Correct (program : Ir.Program) (entries : Ir.TableEntries) (evaluate : Evaluate) : Prop :=
  ∀ {control stop : String} {state : EvaluationState} {headers : SymbolicPerPacketState} {guard : Term} {r : Evaluated},
    StopsAt program control stop → SoundPacket headers → Boolean guard → evaluate control state headers guard = .ok r →
      Evaluates program entries control stop guard state headers r

theorem Evaluates.stay (h : Evaluates program entries Cfg.endOfPipeline Cfg.endOfPipeline guard state headers r) (control : String) :
    Evaluates program entries control control guard state headers r where
  extends_ := h.extends_
  sound := h.sound
  tableMatches := h.tableMatches
  follows T hT := (h.follows T hT).imp fun σ _ ⟨trace,hrun,htrace⟩ => by
    obtain ⟨-,rfl,heq⟩ := hrun.of_end
    rw [heq]
    exact ⟨[],.done,htrace⟩

theorem Evaluates.trans {tableMatches : SymbolicTableMatches} (h : Evaluates program entries control mid guard state headers r)
    (h' : Evaluates program entries mid stop guard r.state r.headers r')
    (hmerge : mergeDisjointTableMatches r.tableMatches r'.tableMatches = .ok tableMatches) :
    Evaluates program entries control stop guard state headers { r' with tableMatches := tableMatches } where
  extends_ := h'.extends_.trans h.extends_
  sound := h'.sound
  tableMatches := soundMatches_disjoint h.tableMatches h'.tableMatches hmerge
  follows T hT := ((h.follows T (hT.trans h'.extends_)).trans (h'.follows T hT)).imp
    fun _ _ ⟨_,⟨trace,hrun,htrace⟩,trace',hrun',htrace'⟩ => ⟨trace ++ trace',hrun.trans hrun',htrace.append htrace' hmerge⟩

end Evaluations

section Conditionals
variable [InetText] {program : Ir.Program} {entries : Ir.TableEntries} {control stop : String} {guard : Term} {evaluate : Evaluate}
  {conditional : Ir.Conditional} {state : EvaluationState} {headers : SymbolicPerPacketState} {r : Evaluated}

theorem evaluatesBranch (hcorrect : Correct program entries evaluate) {branch : String}
    (hbranch : branch ≠ conditional.info.mergePoint → StopsAt program branch conditional.info.mergePoint) (hs : SoundPacket headers)
    (h : evaluate (nextControlForBranch conditional branch) state headers (.boolVal true) = .ok r) :
    Evaluates program entries branch conditional.info.mergePoint (.boolVal true) state headers r := by
  rw [nextControlForBranch] at h
  split_ifs at h with heq
  · rw [heq]
    exact (hcorrect .finish hs (boolean_boolVal true) h).stay _
  · exact hcorrect (hbranch heq) hs (boolean_boolVal true) h

/-- A conditional: one of the branches, and what follows the merge point. -/
theorem evaluateConditional_evaluates (hcorrect : Correct program entries evaluate) (hcontrol : control ≠ Cfg.endOfPipeline)
    (htable : program.tables.lookup control = none) (hconditional : program.conditionals.lookup control = some conditional)
    (hbranches : ∀ next ∈ [conditional.ifBranch,conditional.elseBranch],next ≠ conditional.info.mergePoint →
      StopsAt program next conditional.info.mergePoint)
    (hcontinues : conditional.info.continueToMergePoint = true → StopsAt program conditional.info.mergePoint stop)
    (hstops : conditional.info.continueToMergePoint = false → stop = conditional.info.mergePoint) (hs : SoundPacket headers)
    (hguard : Boolean guard) (h : evaluateConditional evaluate conditional state headers guard = .ok r) :
    Evaluates program entries control stop guard state headers r := by
  obtain ⟨condition,hcondition,h⟩ := bind_eq_ok.mp h
  obtain ⟨ifBranch,hif,h⟩ := bind_eq_ok.mp h
  obtain ⟨elseBranch,helse,h⟩ := bind_eq_ok.mp h
  obtain ⟨merged,hmerged,h⟩ := bind_eq_ok.mp h
  obtain ⟨tableMatches,hmatches,h⟩ := bind_eq_ok.mp h
  obtain ⟨hsound,hvalue⟩ := evaluateRValue_value hs (fun _ _ hk => by cases hk) hcondition
  have hifEvaluates := evaluatesBranch hcorrect (hbranches _ List.mem_cons_self) hs hif
  have helseEvaluates := evaluatesBranch hcorrect (hbranches _ (List.mem_cons_of_mem _ List.mem_cons_self)) hs helse
  -- the value of a field is that of the branch that is taken
  have hfield : ∀ key t,(do
      let ifValue ← ifBranch.headers.getKey key
      let elseValue ← elseBranch.headers.getKey key
      Operators.ite condition ifValue elseValue) = .ok t → Sound t ∧ ∀ σ x,
        (if holds condition σ then ifBranch.headers else elseBranch.headers).lookup key = some x → t.eval σ = x.eval σ := by
    intro key t ht
    obtain ⟨ifValue,hifValue,ht⟩ := bind_eq_ok.mp ht
    obtain ⟨elseValue,helseValue,ht⟩ := bind_eq_ok.mp ht
    have hifLookup := getKey_eq_ok.mp hifValue
    have helseLookup := getKey_eq_ok.mp helseValue
    obtain ⟨htSound,hite⟩ := ite_value hsound (hifEvaluates.sound _ _ hifLookup) (helseEvaluates.sound _ _ helseLookup) ht
    refine ⟨htSound,fun σ x hx => ?_⟩
    have heval : t.eval σ = (ternaryOf (valueAt σ condition) (valueAt σ ifValue) (valueAt σ elseValue)).bits :=
      congrArg Value.bits (hite σ)
    by_cases hholds : holds condition σ
    · rw [if_pos hholds,hifLookup] at hx
      rw [heval,ternaryOf_of_holds hholds,← Option.some.inj hx]
      rfl
    · rw [if_neg hholds,helseLookup] at hx
      rw [heval,ternaryOf_of_not_holds hholds,← Option.some.inj hx]
      rfl
  obtain ⟨hmergedSound,hidle,hmerges⟩ := setFields_merges hs hguard.sound (fun key t ht => (hfield key t ht).1) hmerged
  obtain ⟨hmatchesSound,hmatched⟩ := mergeMatchesOnCondition_spec hsound hifEvaluates.tableMatches helseEvaluates.tableMatches hmatches
  have hupTo : Evaluates program entries control conditional.info.mergePoint guard state headers ⟨elseBranch.state,merged,
    tableMatches⟩ := by
    refine ⟨helseEvaluates.extends_.trans hifEvaluates.extends_,hmergedSound,hmatchesSound,fun T hT => ⟨fun σ hσ => ?_,hidle⟩⟩
    have hstep : Step program entries T σ control (storeAt σ headers) [] _ (storeAt σ headers) :=
      .conditional hcontrol htable hconditional (hvalue σ)
    by_cases hholds : holds condition σ
    · obtain ⟨trace,hrun,htrace⟩ := (hifEvaluates.follows T (hT.trans helseEvaluates.extends_)).runs σ (holds_true σ)
      have hstore : storeAt σ merged = storeAt σ ifBranch.headers := by
        apply hmerges σ hσ ifBranch.headers hifEvaluates.sound hrun.widths_eq
        intro key t x ht hx
        apply (hfield key t ht).2 σ x
        rw [if_pos hholds]
        exact hx
      rw [if_pos (show (valueAt σ condition).bits ≠ 0 from hholds)] at hstep
      change ∃ trace,Run program entries T σ _ control (storeAt σ headers) trace (storeAt σ merged) ∧ TraceOf σ tableMatches trace
      rw [hstore]
      exact ⟨_,.step hstep hrun,htrace.congr fun name index => by rw [hmatched,if_pos hholds]⟩
    · obtain ⟨trace,hrun,htrace⟩ := (helseEvaluates.follows T hT).runs σ (holds_true σ)
      have hstore : storeAt σ merged = storeAt σ elseBranch.headers := by
        apply hmerges σ hσ elseBranch.headers helseEvaluates.sound hrun.widths_eq
        intro key t x ht hx
        apply (hfield key t ht).2 σ x
        rw [if_neg hholds]
        exact hx
      rw [if_neg (show ¬ (valueAt σ condition).bits ≠ 0 from hholds)] at hstep
      change ∃ trace,Run program entries T σ _ control (storeAt σ headers) trace (storeAt σ merged) ∧ TraceOf σ tableMatches trace
      rw [hstore]
      exact ⟨_,.step hstep hrun,htrace.congr fun name index => by rw [hmatched,if_neg hholds]⟩
  cases hcontinue : conditional.info.continueToMergePoint with
  | false =>
    rw [hcontinue] at h
    cases h
    rw [hstops hcontinue]
    exact hupTo
  | true =>
    rw [hcontinue] at h
    obtain ⟨result,hresult,h⟩ := bind_eq_ok.mp h
    obtain ⟨joined,hjoined,h⟩ := bind_eq_ok.mp h
    cases h
    exact hupTo.trans (hcorrect (hcontinues hcontinue) hmergedSound hguard hresult) hjoined

end Conditionals

section Branches
variable {program : Ir.Program} {entries : Ir.TableEntries} {guard : Term} {evaluate : Evaluate} {simplify : Term → Term}
  {table : Ir.ProgramTable} {matchIndex : IndexTerm} {before after : Evaluated} {next x : String × String} {σ : Assignment}

/-- A simplification of booleans changes no value. -/
def Simplifies (simplify : Term → Term) : Prop := ∀ t,Boolean t → Boolean (simplify t) ∧ ∀ σ,(simplify t).eval σ = t.eval σ

/-- The branch of a hit after a hit, and that of a miss after a miss, unless it goes to the merge point. -/
def Active (table : Ir.ProgramTable) (matchIndex : IndexTerm) (σ : Assignment) (next : String × String) : Prop :=
  next.2 ≠ table.info.mergePoint ∧ (next.1 = Ir.tableHitAction ∧ matchIndex.eval σ ≠ defaultActionEntryIndex.toInt ∨
    next.1 = Ir.tableMissAction ∧ matchIndex.eval σ = defaultActionEntryIndex.toInt)

theorem Active.name_eq (h : Active table matchIndex σ next) (h' : Active table matchIndex σ x) : next.1 = x.1 := by
  rcases h.2 with ⟨hname,hindex⟩ | ⟨hname,hindex⟩
  · rcases h'.2 with ⟨hname',-⟩ | ⟨-,hindex'⟩
    · rw [hname,hname']
    · exact absurd hindex' hindex
  · rcases h'.2 with ⟨-,hindex'⟩ | ⟨hname',-⟩
    · exact absurd hindex hindex'
    · rw [hname,hname']

private theorem branchCondition_holds (hindex : matchIndex.Sound) (hmerge : next.2 ≠ table.info.mergePoint)
    (hspecial : next.1 = Ir.tableHitAction ∨ next.1 = Ir.tableMissAction) : Boolean (branchCondition next.1 matchIndex) ∧
      ∀ σ,holds (branchCondition next.1 matchIndex) σ ↔ Active table matchIndex σ next := by
  obtain ⟨hmissed,hiff⟩ := hindex.equals defaultActionEntryIndex.toInt
  rw [branchCondition]
  split_ifs with hhit
  · refine ⟨hmissed.not,fun σ => ?_⟩
    rw [holds_not,hiff]
    refine ⟨fun hne => ⟨hmerge,.inl ⟨hhit,hne⟩⟩,fun hactive => ?_⟩
    rcases hactive.2 with ⟨-,hne⟩ | ⟨hmiss,-⟩
    · exact hne
    · rw [hhit] at hmiss
      exact absurd hmiss (by decide)
  · refine ⟨hmissed,fun σ => ?_⟩
    rw [hiff]
    refine ⟨fun heq => ⟨hmerge,.inr ⟨hspecial.resolve_left hhit,heq⟩⟩,fun hactive => ?_⟩
    rcases hactive.2 with ⟨hhit',-⟩ | ⟨-,heq⟩
    · exact absurd hhit' hhit
    · exact heq

variable [InetText]

/-- Branches, where one that is active runs up to the merge point, and others do nothing. -/
structure Branched (program : Ir.Program) (entries : Ir.TableEntries) (guard : Term) (table : Ir.ProgramTable) (matchIndex : IndexTerm)
    (branches : List (String × String)) (before after : Evaluated) : Prop where
  extends_ : Extends after.state.translator before.state.translator
  sound : SoundPacket after.headers
  tableMatches : SoundMatches after.tableMatches
  special : ∀ x ∈ branches,x.2 = table.info.mergePoint ∨ x.1 = Ir.tableHitAction ∨ x.1 = Ir.tableMissAction
  active : ∀ T,Extends T after.state.translator → ∀ σ,holds guard σ → ∀ x ∈ branches,Active table matchIndex σ x →
    ∃ trace,Run program entries T σ table.info.mergePoint x.2 (storeAt σ before.headers) trace (storeAt σ after.headers) ∧
      TraceOf σ after.tableMatches trace
  inactive : ∀ σ,(holds guard σ → ∀ x ∈ branches,¬ Active table matchIndex σ x) → storeAt σ after.headers = storeAt σ before.headers ∧
    (holds guard σ → ∀ name index,Matched σ after.tableMatches name index ↔ Matched σ before.tableMatches name index)

private theorem evaluateBranch_branched (hcorrect : Correct program entries evaluate) (hsimplify : Simplifies simplify)
    (hbranch : next.2 ≠ table.info.mergePoint → StopsAt program next.2 table.info.mergePoint) (hguard : Boolean guard)
    (hindex : matchIndex.Sound) (hs : SoundPacket before.headers) (hmatches : SoundMatches before.tableMatches)
    (h : evaluateBranch simplify evaluate table guard matchIndex before next = .ok after) :
    Branched program entries guard table matchIndex [next] before after := by
  rw [evaluateBranch] at h
  split_ifs at h with hmerge hspecial
  · cases h
    refine ⟨.refl _,hs,hmatches,fun x hx => .inl (List.mem_singleton.mp hx ▸ hmerge),fun T _ σ _ x hx hactive => ?_,
      fun σ _ => ⟨rfl,fun _ _ _ => .rfl⟩⟩
    exact absurd (List.mem_singleton.mp hx ▸ hmerge) hactive.1
  · obtain ⟨branch,hbranchOk,h⟩ := bind_eq_ok.mp h
    obtain ⟨merged,hmerged,h⟩ := bind_eq_ok.mp h
    cases h
    obtain ⟨hboolean,hiff⟩ := branchCondition_holds hindex hmerge hspecial
    obtain ⟨hsimple,heval⟩ := hsimplify _ (hguard.and hboolean)
    have hnextGuard : ∀ σ,holds (simplify (.binary .bitAnd guard (branchCondition next.1 matchIndex))) σ ↔ holds guard σ ∧
      Active table matchIndex σ next := by
      intro σ
      rw [holds,heval,← hiff]
      exact hguard.holds_and hboolean
    have hevaluates := hcorrect (hbranch hmerge) hs hsimple hbranchOk
    obtain ⟨hsound,hmatched⟩ := mergeMatchesOnCondition_spec hboolean.sound hevaluates.tableMatches hmatches hmerged
    refine ⟨hevaluates.extends_,hevaluates.sound,hsound,fun x hx => .inr (List.mem_singleton.mp hx ▸ hspecial),
      fun T hT σ hσ x hx hactive => ?_,fun σ hinactive => ?_⟩
    · rw [List.mem_singleton.mp hx] at hactive ⊢
      obtain ⟨trace,hrun,htrace⟩ := (hevaluates.follows T hT).runs σ ((hnextGuard σ).mpr ⟨hσ,hactive⟩)
      exact ⟨trace,hrun,htrace.congr fun name index => by rw [hmatched,if_pos ((hiff σ).mpr hactive)]⟩
    · have hnot : holds guard σ → ¬ Active table matchIndex σ next := fun hσ => hinactive hσ next (List.mem_singleton_self _)
      refine ⟨(hevaluates.follows _ (.refl _)).idle σ fun hσ => ?_,fun hσ name index => ?_⟩
      · obtain ⟨hg,hactive⟩ := (hnextGuard σ).mp hσ
        exact hnot hg hactive
      · rw [hmatched,if_neg fun hc => hnot hσ ((hiff σ).mp hc)]

/-- All branches: the controls after different actions. -/
theorem evaluateBranches_branched (hcorrect : Correct program entries evaluate) (hsimplify : Simplifies simplify)
    {branches : List (String × String)} (hnodup : (branches.map Prod.fst).Nodup)
    (hbranches : ∀ x ∈ branches,x.2 ≠ table.info.mergePoint → StopsAt program x.2 table.info.mergePoint) (hguard : Boolean guard)
    (hindex : matchIndex.Sound) (hs : SoundPacket before.headers) (hmatches : SoundMatches before.tableMatches)
    (h : branches.foldlM (evaluateBranch simplify evaluate table guard matchIndex) before = .ok after) :
    Branched program entries guard table matchIndex branches before after := by
  induction branches generalizing before with
  | nil =>
    cases h
    exact ⟨.refl _,hs,hmatches,fun x hx => absurd hx List.not_mem_nil,fun _ _ _ _ x hx => absurd hx List.not_mem_nil,
      fun σ _ => ⟨rfl,fun _ _ _ => .rfl⟩⟩
  | cons next rest ih =>
    rw [List.foldlM_cons] at h
    obtain ⟨mid,hmid,h⟩ := bind_eq_ok.mp h
    obtain ⟨hfirstBranch,hrestBranches⟩ := List.forall_mem_cons.mp hbranches
    obtain ⟨hnew,hnodup⟩ := List.nodup_cons.mp hnodup
    have hfirst := evaluateBranch_branched hcorrect hsimplify hfirstBranch hguard hindex hs hmatches hmid
    have hrest := ih hnodup hrestBranches hfirst.sound hfirst.tableMatches h
    have hothers : ∀ σ,Active table matchIndex σ next → ∀ x ∈ rest,¬ Active table matchIndex σ x := fun σ hactive x hx hactive' =>
      hnew (List.mem_map.mpr ⟨x,hx,hactive'.name_eq hactive⟩)
    refine ⟨hrest.extends_.trans hfirst.extends_,hrest.sound,hrest.tableMatches,
      List.forall_mem_cons.mpr ⟨hfirst.special next (List.mem_singleton_self _),hrest.special⟩,fun T hT σ hσ x hx hactive => ?_,
      fun σ hinactive => ?_⟩
    · rcases List.mem_cons.mp hx with rfl | hx
      · obtain ⟨trace,hrun,htrace⟩ := hfirst.active T (hT.trans hrest.extends_) σ hσ x (List.mem_singleton_self _) hactive
        obtain ⟨hstore,hmatched⟩ := hrest.inactive σ fun _ => hothers σ hactive
        rw [hstore]
        exact ⟨trace,hrun,htrace.congr (hmatched hσ)⟩
      · have hnot : ¬ Active table matchIndex σ next := fun hactive' => hothers σ hactive' x hx hactive
        obtain ⟨hstore,-⟩ := hfirst.inactive σ fun _ y hy => List.mem_singleton.mp hy ▸ hnot
        rw [← hstore]
        exact hrest.active T hT σ hσ x hx hactive
    · obtain ⟨hstore,hmatched⟩ := hfirst.inactive σ fun hσ y hy =>
        List.mem_singleton.mp hy ▸ hinactive hσ next List.mem_cons_self
      obtain ⟨hstore',hmatched'⟩ := hrest.inactive σ fun hσ y hy => hinactive hσ y (List.mem_cons_of_mem _ hy)
      exact ⟨hstore'.trans hstore,fun hσ name index => (hmatched' hσ name index).trans (hmatched hσ name index)⟩

end Branches

section Tables
variable {program : Ir.Program} {entries : Ir.TableEntries} {table : Ir.ProgramTable} {matchIndex : IndexTerm} {σ : Assignment}

/-- No entry of a table has the index of the default entry. -/
def Indexed (entries : Ir.TableEntries) : Prop := ∀ name,∀ e ∈ (entries.lookup name).getD [],Ir.getIndex e ≠ defaultActionEntryIndex

theorem sortedTableEntries_spec {sorted : List Ir.TableEntry} (h : sortedTableEntries entries table = .ok sorted) :
    sorted.Perm ((entries.lookup table.tableDefinition.preamble.name).getD []) ∧ ∀ Matched entry,IsFirst Matched sorted entry →
      Wins table.tableDefinition.matchFieldsByName Matched ((entries.lookup table.tableDefinition.preamble.name).getD []) entry := by
  rw [sortedTableEntries] at h
  split at h
  next => cases h
  next hsorted =>
    cases h
    exact sortedEntries_spec hsorted

theorem defaultEntry_index (h : defaultEntry table = .ok default) : Ir.getIndex default = defaultActionEntryIndex := by
  obtain ⟨values,-,rfl⟩ := map_eq_ok.mp h
  rfl

theorem Selects.first {Matched : Ir.TableEntry → Prop} {e : Ir.TableEntry} {l : List Ir.TableEntry}
    (h : Selects Matched default l e) : IsFirst Matched l e ∨ e = default ∧ ∀ x ∈ l,¬ Matched x := by
  induction l with
  | nil => exact .inr ⟨h,fun x hx => absurd hx List.not_mem_nil⟩
  | cons entry rest ih =>
    rcases h with ⟨hmatched,rfl⟩ | ⟨hnot,h⟩
    · exact .inl ⟨[],rest,rfl,hmatched,fun x hx => absurd hx List.not_mem_nil⟩
    · rcases ih h with ⟨before,after,rfl,hmatched,hnone⟩ | ⟨heq,hall⟩
      · exact .inl ⟨entry :: before,after,rfl,hmatched,List.forall_mem_cons.mpr ⟨hnot,hnone⟩⟩
      · exact .inr ⟨heq,List.forall_mem_cons.mpr ⟨hnot,hall⟩⟩

theorem Selects.hit_iff {Matched : Ir.TableEntry → Prop} {e : Ir.TableEntry} {l : List Ir.TableEntry}
    (h : Selects Matched default l e) (hdefault : Ir.getIndex default = defaultActionEntryIndex)
    (hl : ∀ x ∈ l,Ir.getIndex x ≠ defaultActionEntryIndex) :
    (∃ x ∈ l,Matched x) ↔ (Ir.getIndex e).toInt ≠ defaultActionEntryIndex.toInt := by
  rcases h.first with ⟨before,after,rfl,hmatched,-⟩ | ⟨rfl,hall⟩
  · have hmem : e ∈ before ++ e :: after := List.mem_append_right _ List.mem_cons_self
    exact iff_of_true ⟨e,hmem,hmatched⟩ fun heq => hl e hmem (Int32.toInt_inj.mp heq)
  · exact iff_of_false (fun ⟨x,hx,hmatched⟩ => hall x hx hmatched) fun hne => hne (congrArg Int32.toInt hdefault)

private theorem leadsTo_active (hnext : NextControls table) {hit : Prop} (hhit : hit ↔ matchIndex.eval σ ≠ defaultActionEntryIndex.toInt)
    {x : String × String} (hx : x ∈ table.actionToNextControl) (hactive : Active table matchIndex σ x) : LeadsTo table hit x.2 := by
  have hlookup := lookup_eq_some_of_mem hnext.nodup hx
  rcases hactive.2 with ⟨hname,hindex⟩ | ⟨hname,hindex⟩
  · rw [hname] at hlookup
    exact .inl ⟨by rw [hlookup]; rfl,fun _ => hlookup,fun hmiss => absurd (hhit.mpr hindex) hmiss⟩
  · rw [hname] at hlookup
    exact .inl ⟨hnext.both.mpr (by rw [hlookup]; rfl),fun hit => absurd hindex (hhit.mp hit),fun _ => hlookup⟩

theorem leadsTo_mergePoint (hnext : NextControls table) {hit : Prop} (hhit : hit ↔ matchIndex.eval σ ≠ defaultActionEntryIndex.toInt)
    (hspecial : ∀ x ∈ table.actionToNextControl,x.2 = table.info.mergePoint ∨ x.1 = Ir.tableHitAction ∨ x.1 = Ir.tableMissAction)
    (hinactive : ∀ x ∈ table.actionToNextControl,¬ Active table matchIndex σ x) : LeadsTo table hit table.info.mergePoint := by
  cases hlookup : table.actionToNextControl.lookup Ir.tableHitAction with
  | none =>
    refine .inr ⟨hlookup,hnext.nonempty,fun x hx => (hspecial x hx).resolve_right fun hname => ?_⟩
    rcases hname with hname | hname
    · have hsome := lookup_eq_some_of_mem hnext.nodup (show (x.1,x.2) ∈ _ from hx)
      rw [hname,hlookup] at hsome
      cases hsome
    · have hsome := lookup_eq_some_of_mem hnext.nodup (show (x.1,x.2) ∈ _ from hx)
      rw [hname] at hsome
      have := hnext.both.mpr (by rw [hsome]; rfl)
      rw [hlookup] at this
      cases this
  | some next =>
    have hboth := hnext.both.mp (by rw [hlookup]; rfl)
    obtain ⟨missNext,hmiss⟩ := Option.isSome_iff_exists.mp hboth
    refine .inl ⟨by rw [hlookup]; rfl,fun hhits => ?_,fun hmisses => ?_⟩
    · rw [hlookup]
      by_contra hne
      exact hinactive _ (mem_of_lookup_eq_some hlookup) ⟨fun heq => hne (congrArg some heq),.inl ⟨rfl,hhit.mp hhits⟩⟩
    · rw [hmiss]
      by_contra hne
      refine hinactive _ (mem_of_lookup_eq_some hmiss) ⟨fun heq => hne (congrArg some heq),.inr ⟨rfl,?_⟩⟩
      exact not_not.mp fun hindex => hmisses (hhit.mpr hindex)

variable [InetText] {control stop : String} {guard : Term} {evaluate : Evaluate} {simplify : Term → Term} {state : EvaluationState}
  {headers : SymbolicPerPacketState} {r : Evaluated}

/-- A table: the entry that is selected, the branch of a hit or of a miss, and what follows the merge point. -/
theorem evaluateTable_evaluates (hcorrect : Correct program entries evaluate) (hsimplify : Simplifies simplify)
    (hindexed : Indexed entries)
    (hcontrol : control ≠ Cfg.endOfPipeline) (htable : program.tables.lookup control = some table) (hnext : NextControls table)
    (hbranches : ∀ x ∈ table.actionToNextControl,x.2 ≠ table.info.mergePoint → StopsAt program x.2 table.info.mergePoint)
    (hcontinues : table.info.continueToMergePoint = true → StopsAt program table.info.mergePoint stop)
    (hstops : table.info.continueToMergePoint = false → stop = table.info.mergePoint) (hs : SoundPacket headers) (hguard : Boolean guard)
    (h : evaluateTable simplify program entries evaluate table state headers guard = .ok r) :
    Evaluates program entries control stop guard state headers r := by
  obtain ⟨sorted,hsorted,h⟩ := bind_eq_ok.mp h
  obtain ⟨conditions,hconditions,h⟩ := bind_eq_ok.mp h
  obtain ⟨default,hdefault,h⟩ := bind_eq_ok.mp h
  obtain ⟨rows,hrows,h⟩ := bind_eq_ok.mp h
  obtain ⟨merged,hmerged,h⟩ := bind_eq_ok.mp h
  obtain ⟨branches,hfold,h⟩ := bind_eq_ok.mp h
  obtain ⟨result,hresult,h⟩ := bind_eq_ok.mp h
  obtain ⟨tableMatches,hmatches,h⟩ := bind_eq_ok.mp h
  cases hown : tableMatches.lookup table.tableDefinition.preamble.name with
  | some m =>
    rw [hown] at h
    cases h
  | none =>
    rw [hown] at h
    cases h
    obtain ⟨hextends,hentries,hall⟩ := evaluateConditions_spec hs hconditions
    have hspec := fun hall => evaluateRows_spec hs hguard.sound (defaultEntry_index (orFail_eq_ok.mp hdefault)) hall hrows
    obtain ⟨hrowsSound,hselected⟩ := hspec hall
    have hvalues := fun key t (ht : mergedValue key rows.default rows.rows = .ok t) =>
      mergedValue_spec hrowsSound.default hrowsSound.rows ht
    obtain ⟨hmergedSound,hidle,hmerges⟩ := setFields_merges hs hguard.sound (fun key t ht => (hvalues key t ht).1) hmerged
    have hperm : (table.actionToNextControl.insertionSort fun a b => a.1 ≤ b.1).Perm table.actionToNextControl :=
      List.perm_insertionSort _ _
    have hbranched := evaluateBranches_branched hcorrect hsimplify ((hperm.map Prod.fst).nodup_iff.mpr hnext.nodup)
      (fun x hx => hbranches x (hperm.mem_iff.mp hx)) hguard hrowsSound.index hmergedSound (fun _ _ hm => by cases hm) hfold
    have hcontinued : Evaluates program entries table.info.mergePoint stop guard branches.state branches.headers result := by
      rw [continuation] at hresult
      cases hcontinue : table.info.continueToMergePoint with
      | true =>
        rw [hcontinue,if_pos rfl] at hresult
        exact hcorrect (hcontinues hcontinue) hbranched.sound hguard hresult
      | false =>
        rw [hcontinue,if_neg Bool.false_ne_true] at hresult
        rw [hstops hcontinue]
        exact (hcorrect .finish hbranched.sound hguard hresult).stay _
    refine ⟨hcontinued.extends_.trans (hbranched.extends_.trans (hrowsSound.extends_.trans hextends)),hcontinued.sound,?_,
      fun T hT => ⟨?_,?_⟩⟩
    · intro name m hm
      rw [lookup_cons_ite] at hm
      split_ifs at hm
      · cases hm
        exact ⟨hguard.sound,hrowsSound.index⟩
      · exact soundMatches_disjoint hcontinued.tableMatches hbranched.tableMatches hmatches name m hm
    · intro σ hσ
      have hTbranches := hT.trans hcontinued.extends_
      have hTrows := hTbranches.trans hbranched.extends_
      obtain ⟨entry,packet,hat⟩ := hselected T hTrows σ
      rw [hentries] at hat
      have hstore : storeAt σ merged = storeAt σ packet :=
        hmerges σ hσ packet hat.sound hat.acts.widths_eq fun key t x ht hx => (hvalues key t ht).2 σ packet x hat.headers hx
      have hhit := hat.selects.hit_iff (defaultEntry_index (orFail_eq_ok.mp hdefault))
        fun x hx => hindexed _ x ((sortedTableEntries_spec hsorted).1.mem_iff.mp hx)
      rw [← hat.index hσ] at hhit
      have hacts : TableActs program entries T σ table sorted entry (storeAt σ headers) (storeAt σ merged) :=
        ⟨hsorted,⟨default,orFail_eq_ok.mp hdefault,hat.selects⟩,by rw [hstore]; exact hat.acts⟩
      obtain ⟨trace,hrest,htrace⟩ := (hcontinued.follows T hT).runs σ hσ
      -- up to the merge point
      have hupTo : ∃ trace',Run program entries T σ table.info.mergePoint control (storeAt σ headers)
          ([(table.tableDefinition.preamble.name,rows.matchIndex.eval σ)] ++ trace') (storeAt σ branches.headers) ∧
            TraceOf σ branches.tableMatches trace' := by
        rw [hat.index hσ]
        by_cases hactive : ∃ x ∈ table.actionToNextControl,Active table rows.matchIndex σ x
        · obtain ⟨x,hx,hactive⟩ := hactive
          obtain ⟨trace',hrun,htrace'⟩ := hbranched.active T hTbranches σ hσ x (hperm.mem_iff.mpr hx) hactive
          exact ⟨trace',.step (.table hcontrol htable hacts (leadsTo_active hnext hhit hx hactive)) hrun,htrace'⟩
        · have hinactive : ∀ x ∈ table.actionToNextControl,¬ Active table rows.matchIndex σ x := fun x hx hx' => hactive ⟨x,hx,hx'⟩
          obtain ⟨hsame,hmatched⟩ := hbranched.inactive σ fun _ x hx => hinactive x (hperm.mem_iff.mp hx)
          rw [hsame]
          exact ⟨[],.step (.table hcontrol htable hacts (leadsTo_mergePoint hnext hhit
            (fun x hx => hbranched.special x (hperm.mem_iff.mpr hx)) hinactive)) .done,(traceOf_nil σ).congr (hmatched hσ)⟩
      obtain ⟨trace',hrun,htrace'⟩ := hupTo
      refine ⟨_,hrun.trans hrest,?_⟩
      rw [List.append_assoc]
      exact ((htrace.append htrace' hmatches).perm List.perm_append_comm).cons hσ hown
    · intro σ hσ
      have hsame := (hbranched.inactive σ fun hσ' => absurd hσ' hσ).1
      exact ((hcontinued.follows T hT).idle σ hσ).trans (hsame.trans (hidle σ hσ))

end Tables

section Pipelines
variable [InetText] {program : Ir.Program} {entries : Ir.TableEntries} {simplify : Term → Term}

theorem evaluateControl_correct (hsimplify : Simplifies simplify) (hindexed : Indexed entries) (stack : Nat) :
    Correct program entries (evaluateControl simplify program entries stack) := by
  induction stack with
  | zero =>
    intro control stop state headers guard r _ _ _ h
    cases h
  | succ stack ih =>
    intro control stop state headers guard r hstops hs hguard h
    rw [evaluateControl] at h
    cases hstops with
    | finish =>
      rw [if_pos rfl] at h
      cases h
      exact ⟨.refl _,hs,(fun _ _ hm => by cases hm),fun T _ => .refl fun σ _ => ⟨[],.done,traceOf_nil σ⟩⟩
    | table hcontrol htable hnext hbranches hcontinues hstops =>
      rw [if_neg hcontrol,htable] at h
      exact evaluateTable_evaluates ih hsimplify hindexed hcontrol htable hnext hbranches hcontinues hstops hs hguard h
    | conditional hcontrol htable hconditional hbranches hcontinues hstops =>
      rw [if_neg hcontrol,htable] at h
      dsimp only at h
      rw [hconditional] at h
      exact evaluateConditional_evaluates ih hcontrol htable hconditional hbranches hcontinues hstops hs hguard h

end Pipelines

/-- A table that clones packets. -/
def cloneTable : Ir.ProgramTable where
  tableDefinition := {
    preamble := { id := 1,aliasName := "t",name := "t" }
    matchFieldsByName := [("x",{ matchField := { id := 1,name := "x",bitwidth := 2,matchType := .ternary } })] }
  matchNameToField := [("x",⟨"h","x"⟩)]
  defaultAction := "nothing"
  actionToNextControl := [("mark","__END_OF_PIPELINE__"),("nothing","__END_OF_PIPELINE__")]
  info := ⟨"__END_OF_PIPELINE__",false⟩

/-- A conditional on a field, with the table in its if branch. -/
def cloneProgram : Ir.Program where
  headers := [("h",{ fields := [("x",2)],orderedFieldsList := ["x"] })]
  tables := [("t",cloneTable)]
  actions := [("mark",{ actionDefinition := { preamble := { id := 2,aliasName := "mark",name := "mark" } },actionBody := [.clone] }),
    ("nothing",{ actionDefinition := { preamble := { id := 3,aliasName := "nothing",name := "nothing" } } })]
  conditionals := [("c",{
    name := "c"
    condition := .binary .notEquals (.value (.fieldValue ⟨"h","x"⟩)) (.value (.hexstrValue "0x0" false))
    ifBranch := "t"
    elseBranch := "__END_OF_PIPELINE__"
    info := ⟨"__END_OF_PIPELINE__",true⟩ })]
  pipeline := [("ingress","c")]

def cloneEntry (mask : String) (priority : Int32) (action : String) : Int32 → Ir.TableEntry :=
  .concreteEntry (.tableEntry {
    tableName := "t",matches_ := [⟨"x",.ternary (.hexStr mask) (.hexStr mask)⟩],priority := priority,type := .action { name := action } })

/-- Odd values clone the packet, but for the greatest one. -/
def cloneEntries : Ir.TableEntries := [("t",[cloneEntry "0x1" 1 "mark" 0,cloneEntry "0x3" 2 "nothing" 1])]

def clonePacket : SymbolicPerPacketState := [("$got_cloned$",.boolVal false),("h.x",.const "h.x" (.bitVector 2))]

private theorem sortedTableEntries_clone {entries : Ir.TableEntries} (hentries : entries.lookup "t" = cloneEntries.lookup "t") :
    sortedTableEntries entries cloneTable = .ok [cloneEntry "0x3" 2 "nothing" 1,cloneEntry "0x1" 1 "mark" 0] := by
  rw [sortedTableEntries,show cloneTable.tableDefinition.preamble.name = "t" from rfl,hentries]
  simp [sortedEntries,cloneTable,cloneEntries,cloneEntry,MatchKinds.add,MatchFieldDefinition.matchType,stableSort,List.mergeSort,
    List.MergeSort.Internal.splitInTwo,getPriority]

theorem evaluateControl_clone [InetText] {program : Ir.Program} {entries : Ir.TableEntries}
    (htables : program.tables = cloneProgram.tables)
    (hentries : entries.lookup "t" = cloneEntries.lookup "t") (stack : Nat) :
    evaluateControl id program entries (stack + 1) = fun control state headers guard =>
      if control = "t" then evaluateSortedEntries id program [cloneEntry "0x3" 2 "nothing" 1,cloneEntry "0x1" 1 "mark" 0]
        (evaluateControl id program entries stack) cloneTable state headers guard
      else evaluateControl id program entries (stack + 1) control state headers guard := by
  funext control state headers guard
  split_ifs with ht
  · rw [ht,evaluateControl,if_neg (by decide),htables]
    change evaluateTable id program entries _ cloneTable state headers guard = _
    rw [evaluateTable,sortedTableEntries_clone hentries]
    rfl
  · rfl

theorem clonePacket_sound : SoundPacket clonePacket := by
  intro key t hkey
  have hmem := mem_of_lookup_eq_some hkey
  fin_cases hmem
  · exact sound_boolVal false
  · exact fun σ => .const _ (by decide)

theorem cloneEntries_indexed : Indexed cloneEntries := by
  intro name e he
  rw [cloneEntries,lookup_cons_ite] at he
  split_ifs at he
  · fin_cases he
    · decide
    · decide
  · exact absurd he List.not_mem_nil

end SonicPins.P4Symbolic.Evaluation
