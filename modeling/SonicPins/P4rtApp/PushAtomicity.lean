import SonicPins.P4rtApp.PipelineConfig
import SonicPins.P4rtApp.ReportableErrors
import SonicPins.P4rtApp.UpdatedCapacities

/-! What a push of a config leaves of the members of the server. -/
namespace SonicPins.P4rtApp
open Lib Pdpi Sonic

variable {α : Type} {P : ServerState → Prop} {s : ServerState}

section Errors

/-- A failure that, when it is a status, is an error. -/
def IsErrorFailure : Failure → Prop
  | .status s => IsError s
  | .thrown _ => True

@[simp] theorem isError_invalidArgument (message : String) : IsError (invalidArgument message) := by
  simp [IsError,invalidArgument]

theorem orFail_isError {r : StatusOr α} (h : FailsWith IsError r) : FailsWith IsErrorFailure (orFail r) :=
  h.mapError fun _ hs => hs

theorem retold_isError {r : StatusOr α} (h : FailsWith IsError r) (text : Status → String) :
    FailsWith IsError (r.mapError fun s => ⟨s.code,text s⟩) := h.mapError fun _ hs => hs

private theorem ofStatus_isError (s : Status) : FailsWith IsErrorFailure (ofStatus s) := by
  unfold ofStatus
  split
  · exact failsWith_ok ()
  · rename_i h
    exact (failsWith_error _).mpr fun hcode => h (by simp [Status.isOk,hcode])

theorem orCritical_isError (text : Status → String) (r : Fallible α) : FailsWith IsErrorFailure (orCritical text r) := by
  refine FailsWith.mapError (P := fun _ => True) (fun _ _ => trivial) fun failure _ => ?_
  cases failure with
  | status s => simp [criticalFailure,IsErrorFailure,IsError]
  | thrown what => trivial

theorem stepIf_isError {step : α → Fallible α} (h : ∀ a,FailsWith IsErrorFailure (step a)) (c : Bool) (a : α) :
    FailsWith IsErrorFailure (stepIf c step a) := by
  cases c with
  | true => exact h a
  | false => exact failsWith_ok a

theorem tableNamed_isError (info : IrP4Info) (name : String) : FailsWith IsErrorFailure (tableNamed info name) := by
  unfold tableNamed
  split
  · exact failsWith_ok _
  · exact (failsWith_error _).mpr trivial

variable (fs : PushFunctions)

theorem preprocessConfig_isError (config : Option ForwardingPipelineConfig) : FailsWith IsError (preprocessConfig fs config) := by
  cases config with
  | none => simp [preprocessConfig]
  | some config =>
    refine FailsWith.bind ?_ fun _ => FailsWith.bind ?_ fun constraints => FailsWith.bind ?_ fun info => FailsWith.bind ?_ fun fields =>
      FailsWith.bind ?_ fun params => failsWith_ok _
    · exact FailsWith.mapError (P := fun _ => True) (fun _ _ => trivial) fun _ _ => isError_invalidArgument _
    · exact retold_isError (fs.constraintErrors _) _
    · exact retold_isError (fs.infoErrors _) _
    · exact retold_isError (fs.hashFieldErrors _) _
    · exact retold_isError (fs.hashParamErrors _) _

variable {fs} in
private theorem preprocessConfig_config {config : Option ForwardingPipelineConfig} {c : ForwardingPipelineConfig} {new : ConfigInfo}
    (h : preprocessConfig fs config = .ok (c,new)) : config = some c := by
  cases config with
  | none => simp [preprocessConfig] at h
  | some config =>
    obtain ⟨-,h⟩ := then_eq_ok.mp h
    obtain ⟨constraints,-,h⟩ := bind_eq_ok.mp h
    obtain ⟨info,-,h⟩ := bind_eq_ok.mp h
    obtain ⟨fields,-,h⟩ := bind_eq_ok.mp h
    obtain ⟨params,-,h⟩ := bind_eq_ok.mp h
    cases h
    rfl

private theorem calculateHashingDifference_isError (old new : IrP4Info) (t : P4InfoReconcileTransition) :
    FailsWith IsError (calculateHashingDifference fs.toPipelineFunctions old new t) := by
  have hexisting (what : String) (s : Status) : IsError (existingHashError what s) := by simp [existingHashError,IsError]
  refine FailsWith.bind ?_ fun _ => FailsWith.bind ?_ fun _ => FailsWith.bind ?_ fun _ => FailsWith.bind ?_ fun _ => failsWith_ok _
  · exact (fs.hashFieldErrors _).mapError fun s _ => hexisting _ s
  · exact (fs.hashParamErrors _).mapError fun s _ => hexisting _ s
  · exact retold_isError (fs.hashFieldErrors _) _
  · exact retold_isError (fs.hashParamErrors _) _

theorem getAclTableNames_isError (info : IrP4Info) : FailsWith IsError (getAclTableNames info) := by
  refine FailsWith.bind (FailsWith.mapM (fun table => ?_) _) fun _ => failsWith_ok _
  exact (getTableType_reportable table.2).mapError fun _ hs => hs.1

theorem appDbAclTableDefinition_isError (table : IrTableDefinition) :
    FailsWith IsError (appDbAclTableDefinition fs.toPipelineFunctions table) := by
  refine FailsWith.bind ?_ fun _ => FailsWith.bind (fs.definitionErrors table) fun _ => failsWith_ok _
  unfold generateSonicDbKeyFromIrTable
  split <;> simp

theorem kfvFieldLookup_isError (kfv : KeyOpFieldsValues) (field : String) : FailsWith IsError (kfvFieldLookup kfv field) := by
  unfold kfvFieldLookup
  split <;> simp [IsError]

private theorem isValidModification_isError (old new : IrTableDefinition) :
    FailsWith IsError (isValidModification fs.toPipelineFunctions old new) := by
  refine FailsWith.bind ?_ fun _ => FailsWith.bind ?_ fun _ => FailsWith.bind (kfvFieldLookup_isError _ _) fun _ =>
    FailsWith.bind (kfvFieldLookup_isError _ _) fun _ => ?_
  · exact (appDbAclTableDefinition_isError fs old).mapError fun _ _ => by simp [IsError]
  · exact retold_isError (appDbAclTableDefinition_isError fs new) _
  · split
    · simp [IsError]
    · exact failsWith_ok _

private theorem calculateAclDifference_isError (old new : IrP4Info) (t : P4InfoReconcileTransition) :
    FailsWith IsErrorFailure (calculateAclDifference fs.toPipelineFunctions old new t) := by
  refine FailsWith.bind (orFail_isError (getAclTableNames_isError old)) fun _ =>
    FailsWith.bind (orFail_isError (getAclTableNames_isError new)) fun _ => FailsWith.foldlM (fun t name => ?_) _ _
  refine FailsWith.bind (tableNamed_isError old name) fun _ => FailsWith.bind (tableNamed_isError new name) fun _ =>
    FailsWith.bind (orFail_isError (isValidModification_isError fs _ _)) fun modified => ?_
  cases modified with
  | false => exact failsWith_ok _
  | true =>
    simp only [Bool.not_true,Bool.false_eq_true,if_false]
    split <;> exact failsWith_ok _

private theorem isSupportedTransition_isError (t : P4InfoReconcileTransition) : FailsWith IsError (isSupportedTransition t) := by
  unfold isSupportedTransition
  split
  · simp [IsError]
  · split <;> simp [IsError]

private theorem getUpdatedResourceCapacities_isError (info : IrP4Info) (original : ActionProfileCapacityMap) :
    FailsWith IsError (getUpdatedResourceCapacities info original) := by
  refine FailsWith.foldlM (fun map profile => FailsWith.bind ?_ fun _ => failsWith_ok _) _ _
  unfold checkUpdatedCapacity
  split
  · simp [IsError]
  · split <;> simp [IsError]

variable (env : PushEnvironment)

private theorem transitionHashConfig_isError (t : P4InfoReconcileTransition) (fields : List HashPacketFieldConfig)
    (params : HashParamConfigs) : FailsWith IsErrorFailure (transitionHashConfig env t fields params) := by
  refine FailsWith.bind ?_ fun _ => FailsWith.bind ?_ fun _ => ?_
  all_goals exact stepIf_isError (fun _ => orCritical_isError _ _) _ _

variable [InetText]

private theorem applyConfig_isError (s : ServerState) (commitToHardware : Bool) (new : ConfigInfo) (db : DbSession) :
    FailsWith IsErrorFailure (applyConfig fs env s commitToHardware new db) := by
  unfold applyConfig
  split
  · refine FailsWith.bind ?_ fun t => FailsWith.bind (orFail_isError (isSupportedTransition_isError t)) fun _ =>
      FailsWith.bind (orFail_isError (getUpdatedResourceCapacities_isError _ _)) fun _ =>
        FailsWith.bind (stepIf_isError (fun _ => transitionHashConfig_isError env t _ _) _ _) fun _ =>
          FailsWith.bind (orCritical_isError _ _) fun _ => failsWith_ok _
    exact (orFail_isError (calculateHashingDifference_isError fs _ _ _)).bind fun t => calculateAclDifference_isError fs _ _ t
  · exact FailsWith.bind (stepIf_isError (fun _ => orCritical_isError _ _) _ _) fun _ => failsWith_ok _

omit [InetText] in
theorem savePipelineConfig_isError (config : ForwardingPipelineConfig) : FailsWith IsErrorFailure (savePipelineConfig env config) := by
  unfold savePipelineConfig
  split
  · exact failsWith_ok ()
  · refine (ofStatus_isError _).mapError fun failure hfailure => ?_
    cases failure with
    | status s => exact hfailure
    | thrown what => trivial

end Errors

/-- A failure that the controller is told of as an internal error. -/
def Critical : Failure → Prop
  | .status s => s.code = .internal
  | .thrown _ => True

/-- An action that changes nothing unless its failure is critical, and ends well as `P` says. -/
structure Atomic (P : ServerState → Prop) (s : ServerState) (done : ServerState × Fallible Unit) : Prop where
  failed : FailsWith (fun failure => IsErrorFailure failure ∧ (done.1 = s ∨ Critical failure)) done.2
  succeeded : done.2 = .ok () → P done.1

theorem Atomic.of_unchanged {outcome : Fallible Unit}
    (herror : FailsWith IsErrorFailure outcome) (h : outcome = .ok () → P s) : Atomic P s (s,outcome) :=
  ⟨fun failure hfailure => ⟨herror failure hfailure,.inl rfl⟩,h⟩

theorem Atomic.refused {failure : Failure} (h : IsErrorFailure failure) : Atomic P s (s,.error failure) :=
    Atomic.of_unchanged ((failsWith_error _).mpr h) fun hok => by cases hok

theorem Atomic.answer {done : ServerState × Fallible Unit} (h : Atomic P s done) :
    ((answerPush done.2).code ≠ .ok → (answerPush done.2).code ≠ .internal → done.1 = s) ∧
    ((answerPush done.2).code = .ok → P done.1) := by
  cases hdone : done.2 with
  | ok u => exact ⟨fun hcode => absurd rfl hcode,fun _ => h.succeeded hdone⟩
  | error failure =>
    obtain ⟨herror,hkept⟩ := h.failed failure hdone
    cases failure with
    | thrown what => exact ⟨fun _ hcode => absurd rfl hcode,fun hcode => by cases hcode⟩
    | status status =>
      by_cases hinternal : status.code = .internal
      · have hanswer : (answerPush (.error (.status status))).code = .internal := by simp [answerPush,hinternal,enterCriticalState]
        rw [hanswer]
        exact ⟨fun _ hcode => absurd rfl hcode,fun hcode => by cases hcode⟩
      · have hanswer : (answerPush (.error (.status status))).code = status.code := by simp [answerPush,hinternal,GrpcStatus.ofStatus]
        rw [hanswer]
        exact ⟨fun _ _ => hkept.resolve_right hinternal,fun hcode => absurd hcode herror⟩

section Pushes
variable (fs : PushFunctions) (env : PushEnvironment)

/-- The config that a request asks for: its own, or with COMMIT the saved one. -/
def pushedConfig (action : PipelineAction) (config : Option ForwardingPipelineConfig) : Option ForwardingPipelineConfig :=
  if action = .commit then env.forwardingConfigFullPath.bind fun path => (env.readProtoFromFile path).toOption else config

/-- The capacity that a new P4Info gives the name of a profile. -/
def expectedCapacity (s : ServerState) (info : IrP4Info) (name : String) : Option ActionProfileResourceCapacity :=
  match s.irP4Info with
  | some _ => (info.actionProfilesByName.lookup name).map (updatedCapacity s.capacityByActionProfileName name)
  | none => ((info.actionProfilesByName.lookup name).map getActionProfileResourceCapacity).or
      (s.capacityByActionProfileName.lookup name)

/-- The members correspond to a config. If its P4Info is equivalent to the current one, that one stays. -/
structure Adopted (config : ForwardingPipelineConfig) (s t : ServerState) : Prop where
  pushed : t.forwardingPipelineConfig = some config
  pipeline : ∃ new,preprocessConfig fs (some config) = .ok (config,new) ∧
    if isCurrentP4Info fs s new then t.irP4Info = s.irP4Info ∧ t.constraintInfo = s.constraintInfo ∧
      t.capacityByActionProfileName = s.capacityByActionProfileName
    else t.irP4Info = some new.irP4Info ∧ t.constraintInfo = some new.constraints ∧
      ∀ name,t.capacityByActionProfileName.lookup name = expectedCapacity s new.irP4Info.toIrP4Info name
  controllers : t.controllers = s.controllers
  translation : t.translation = s.translation

/-- The answer to saving a config is OK, or a critical error. -/
def SavedOrCritical (config : ForwardingPipelineConfig) : Prop :=
  ∀ path ∈ env.forwardingConfigFullPath,(env.saveProtoToFile path config).code = .ok ∨
    (env.saveProtoToFile path config).code = .internal

theorem savePipelineConfig_critical {config : ForwardingPipelineConfig} (h : SavedOrCritical env config) :
    FailsWith Critical (savePipelineConfig env config) := by
  unfold savePipelineConfig
  split
  · exact failsWith_ok ()
  · rename_i path hpath
    refine FailsWith.mapError (P := Critical) ?_ fun failure hfailure => ?_
    · unfold ofStatus
      split
      · exact failsWith_ok ()
      · rename_i hfailed
        exact (failsWith_error _).mpr ((h path hpath).resolve_left fun hok => hfailed (by simp [Status.isOk,hok]))
    · cases failure with
      | status s => exact hfailure
      | thrown what => trivial

theorem lookup_foldl_insert_ne {profiles : List (String × ActionProfile)} {name : String} (h : profiles.lookup name = none)
    (value : String → ActionProfile → ActionProfileResourceCapacity) (map : ActionProfileCapacityMap) :
    (profiles.foldl (fun m p => m.insert p.1 (value p.1 p.2)) map).lookup name = map.lookup name := by
  induction profiles generalizing map with
  | nil => rfl
  | cons p profiles ih =>
    rw [List.lookup_cons] at h
    cases hname : name == p.1 with
    | true => simp [hname] at h
    | false =>
      rw [hname] at h
      rw [List.foldl_cons,ih h,AList.lookup_insert_ne (by simpa using hname)]

private theorem applyConfig_capacities [InetText] {commitToHardware : Bool} {new : ConfigInfo} {db db' : DbSession}
    {capacities : ActionProfileCapacityMap} (h : applyConfig fs env s commitToHardware new db = .ok (capacities,db')) (name : String) :
    capacities.lookup name = expectedCapacity s new.irP4Info.toIrP4Info name := by
  have hnodup := new.irP4Info.wellFormed.profiles.nameNodup
  unfold applyConfig at h
  unfold expectedCapacity
  cases hinfo : s.irP4Info with
  | some current =>
    rw [hinfo] at h
    obtain ⟨t,-,h⟩ := bind_eq_ok.mp h
    obtain ⟨-,-,h⟩ := bind_eq_ok.mp h
    obtain ⟨map,hmap,h⟩ := bind_eq_ok.mp h
    obtain ⟨-,-,h⟩ := bind_eq_ok.mp h
    obtain ⟨db'',-,h⟩ := bind_eq_ok.mp h
    cases h
    obtain ⟨-,rfl⟩ := foldlM_addUpdatedCapacity.mp (orFail_eq_ok.mp hmap)
    cases hlookup : new.irP4Info.actionProfilesByName.lookup name with
    | none => exact lookup_foldl_insert_ne hlookup _ _
    | some profile => exact lookup_foldl_insert hnodup (mem_of_lookup_eq_some hlookup) _ _
  | none =>
    rw [hinfo] at h
    obtain ⟨db'',-,h⟩ := bind_eq_ok.mp h
    cases h
    cases hlookup : new.irP4Info.actionProfilesByName.lookup name with
    | none => exact lookup_foldl_insert_ne hlookup (fun _ => getActionProfileResourceCapacity) _
    | some profile =>
      exact lookup_foldl_insert hnodup (mem_of_lookup_eq_some hlookup) (fun _ => getActionProfileResourceCapacity) _

variable [InetText]

/-- A commit either changes nothing, or adopts the config and can only fail to save it. -/
theorem reconcileAndCommitPipelineConfig_spec (commitToHardware : Bool) (config : Option ForwardingPipelineConfig)
    (s : ServerState) (db : DbSession) :
    ((reconcileAndCommitPipelineConfig fs env commitToHardware config s db).1 = s ∧
      ∃ failure,IsErrorFailure failure ∧
        (reconcileAndCommitPipelineConfig fs env commitToHardware config s db).2 = .error failure) ∨
    ∃ c,config = some c ∧ Adopted fs c s (reconcileAndCommitPipelineConfig fs env commitToHardware config s db).1 ∧
      (reconcileAndCommitPipelineConfig fs env commitToHardware config s db).1.entityCache = s.entityCache ∧
      ∀ failure,(reconcileAndCommitPipelineConfig fs env commitToHardware config s db).2 = .error failure →
        savePipelineConfig env c = .error failure := by
  have hsaved {c : ForwardingPipelineConfig} {db : DbSession} (failure : Failure)
      (h : ((savePipelineConfig env c).map fun _ => db) = .error failure) : savePipelineConfig env c = .error failure := by
    cases hsave : savePipelineConfig env c with
    | ok u =>
      rw [hsave] at h
      cases h
    | error e =>
      rw [hsave] at h
      cases h
      rfl
  unfold reconcileAndCommitPipelineConfig
  cases hprepared : preprocessConfig fs config with
  | error status => exact .inl ⟨rfl,.status status,preprocessConfig_isError fs config status hprepared,rfl⟩
  | ok p =>
    obtain ⟨c,new⟩ := p
    have hconfig := preprocessConfig_config hprepared
    subst hconfig
    cases hcurrent : isCurrentP4Info fs s new with
    | true =>
      simp only [hcurrent,if_true]
      refine .inr ⟨c,rfl,⟨rfl,⟨new,hprepared,?_⟩,rfl,rfl⟩,trivial,hsaved⟩
      rw [if_pos hcurrent]
      exact ⟨rfl,rfl,rfl⟩
    | false =>
      simp only [hcurrent,Bool.false_eq_true,if_false]
      cases happly : applyConfig fs env s commitToHardware new db with
      | error failure => exact .inl ⟨rfl,failure,applyConfig_isError fs env s commitToHardware new db failure happly,rfl⟩
      | ok applied =>
        obtain ⟨capacities,db'⟩ := applied
        refine .inr ⟨c,rfl,⟨rfl,⟨new,hprepared,?_⟩,rfl,rfl⟩,rfl,fun failure hfailure => ?_⟩
        · rw [if_neg (by simp [hcurrent])]
          exact ⟨rfl,rfl,applyConfig_capacities fs env happly⟩
        · cases commitToHardware with
          | true => exact hsaved failure hfailure
          | false => cases hfailure

private theorem rebuildCache_spec {t : ServerState} {db : AppDb} (h : rebuildCache s db = (t,.ok ())) :
    ∃ info cache,s.irP4Info = some info ∧ rebuildEntityEntryCache info.toIrP4Info s.translation db = .ok cache ∧
      t = { s with entityCache := cache } := by
  unfold rebuildCache at h
  split at h
  · cases h
  · rename_i info hinfo
    split at h
    · cases h
    · rename_i cache hcache
      obtain ⟨rfl,-⟩ := Prod.mk.inj h
      exact ⟨info,cache,hinfo,hcache,rfl⟩

omit [InetText] in
private theorem orCritical_critical (text : Status → String) (r : Fallible α) : FailsWith Critical (orCritical text r) := by
  refine FailsWith.mapError (P := fun _ => True) (fun _ _ => trivial) fun failure _ => ?_
  cases failure with
  | status s => rfl
  | thrown what => trivial

/-- What a commit that rebuilds the entity cache leaves. -/
def Rebuilt (c : ForwardingPipelineConfig) (s : ServerState) (db : DbSession) (t : ServerState) : Prop :=
  Adopted fs c s t ∧ ∃ info db',t.irP4Info = some info ∧ (reconcileAndCommitPipelineConfig fs env true (some c) s db).2 = .ok db' ∧
    rebuildEntityEntryCache info.toIrP4Info t.translation db'.db = .ok t.entityCache

theorem verifyAndCommitPipelineConfig_atomic {config : Option ForwardingPipelineConfig} (s : ServerState) (db : DbSession)
    (hsave : ∀ c ∈ config,SavedOrCritical env c) :
    Atomic (fun t => ∃ c,config = some c ∧ Rebuilt fs env c s db t) s (verifyAndCommitPipelineConfig fs env config s db) := by
  unfold verifyAndCommitPipelineConfig
  split
  · exact Atomic.refused (by simp [IsErrorFailure,IsError])
  · obtain ⟨⟨t,outcome⟩,hr⟩ : ∃ r,reconcileAndCommitPipelineConfig fs env true config s db = r := ⟨_,rfl⟩
    have hspec := reconcileAndCommitPipelineConfig_spec fs env true config s db
    rw [hr] at hspec ⊢
    rcases hspec with ⟨rfl,failure,herror,rfl⟩ | ⟨c,rfl,hadopted,hcache,hsaved⟩
    · exact Atomic.refused herror
    · cases outcome with
      | error failure =>
        have hfailed := hsaved failure rfl
        refine ⟨fun e he => ?_,fun hok => by cases hok⟩
        cases he
        exact ⟨savePipelineConfig_isError env c failure hfailed,.inr (savePipelineConfig_critical env (hsave c rfl) failure hfailed)⟩
      | ok db' =>
        change Atomic _ s ((rebuildCache t db'.db).1,orCritical Status.toString (rebuildCache t db'.db).2)
        refine ⟨fun e he => ⟨orCritical_isError _ _ e he,.inr (orCritical_critical _ _ e he)⟩,fun hok => ⟨c,rfl,?_⟩⟩
        obtain ⟨⟨t',rebuilt⟩,hrebuilt⟩ : ∃ r,rebuildCache t db'.db = r := ⟨_,rfl⟩
        rw [hrebuilt] at hok ⊢
        obtain ⟨info,cache,hinfo,hcache,rfl⟩ := rebuildCache_spec (hrebuilt.trans (congrArg (t',·) (mapError_eq_ok.mp hok)))
        exact ⟨⟨hadopted.pushed,hadopted.pipeline,hadopted.controllers,hadopted.translation⟩,info,db',hinfo,by rw [hr],hcache⟩

/-- What a successful push leaves: with VERIFY everything is as it was; otherwise the config is adopted, and the
entity cache stays with RECONCILE_AND_COMMIT and is what the AppDb holds after the other commits. -/
def Pushed (action : PipelineAction) (config : Option ForwardingPipelineConfig) (s : ServerState) (db : DbSession)
    (t : ServerState) : Prop :=
  match action with
  | .verify => t = s ∧ ∃ p,preprocessConfig fs config = .ok p
  | .reconcileAndCommit => ∃ c,config = some c ∧ Adopted fs c s t ∧ t.entityCache = s.entityCache
  | action => ∃ c,pushedConfig env action config = some c ∧ Rebuilt fs env c s db t

private theorem performAction_atomic (action : PipelineAction) (config : Option ForwardingPipelineConfig) (s : ServerState)
    (db : DbSession) (hsave : ∀ c ∈ pushedConfig env action config,SavedOrCritical env c) :
    Atomic (Pushed fs env action config s db) s (performAction fs env action config s db) := by
  have hunsupported (action : PipelineAction) : IsErrorFailure (.status ⟨.unimplemented,
      "SetForwardingPipelineConfig action '" ++ action.actionName ++ "' is unsupported."⟩) := by simp [IsErrorFailure,IsError]
  cases action with
  | unspecified => exact Atomic.refused (hunsupported _)
  | verifyAndSave => exact Atomic.refused (hunsupported _)
  | unknown n => exact Atomic.refused (hunsupported _)
  | verify =>
    refine Atomic.of_unchanged ((orFail_isError (preprocessConfig_isError fs config)).map _) fun hok => ⟨rfl,?_⟩
    obtain ⟨p,hp,-⟩ := map_eq_ok.mp hok
    exact ⟨p,orFail_eq_ok.mp hp⟩
  | verifyAndCommit => exact verifyAndCommitPipelineConfig_atomic fs env s db hsave
  | commit =>
    change Atomic _ s (commitPipelineConfig fs env config s db)
    unfold commitPipelineConfig
    split
    · exact Atomic.refused (by simp [IsErrorFailure])
    · split
      · exact Atomic.refused (by simp [IsErrorFailure,IsError])
      · rename_i path hpath
        split
        · rename_i status hread
          exact Atomic.refused (env.readErrors path status hread)
        · rename_i saved hread
          have hpushed : pushedConfig env .commit config = some saved := by simp [pushedConfig,hpath,hread]
          obtain ⟨hfailed,hsucceeded⟩ := verifyAndCommitPipelineConfig_atomic fs env s db fun c hc =>
            hsave c (hpushed.trans hc)
          refine ⟨hfailed,fun hok => ?_⟩
          obtain ⟨c,hc,hrebuilt⟩ := hsucceeded hok
          exact ⟨c,hpushed.trans hc,hrebuilt⟩
  | reconcileAndCommit =>
    change Atomic _ s ((reconcileAndCommitPipelineConfig fs env true config s db).1,
      (reconcileAndCommitPipelineConfig fs env true config s db).2.map fun _ => ())
    rcases reconcileAndCommitPipelineConfig_spec fs env true config s db with ⟨hkept,failure,herror,hfailed⟩ |
      ⟨c,rfl,hadopted,hcache,hsaved⟩
    · rw [hkept,hfailed]
      exact Atomic.refused herror
    · refine ⟨fun e he => ?_,fun _ => ⟨c,rfl,hadopted,hcache⟩⟩
      cases houtcome : (reconcileAndCommitPipelineConfig fs env true (some c) s db).2 with
      | ok db' =>
        rw [houtcome] at he
        cases he
      | error failure =>
        rw [houtcome] at he
        cases he
        have hfailed := hsaved e houtcome
        exact ⟨savePipelineConfig_isError env c e hfailed,.inr (savePipelineConfig_critical env (hsave c rfl) e hfailed)⟩

/-- A push that is answered neither with OK nor with INTERNAL changes nothing, and an OK one leaves the members at its
config; VERIFY changes nothing either way. -/
theorem push_is_atomic (s : ServerState) (db : DbSession) (r : SetForwardingPipelineConfigRequest)
    (hsave : ∀ c ∈ pushedConfig env r.action r.config,SavedOrCritical env c) :
    ((setForwardingPipelineConfig fs env s db r).2.code ≠ .ok → (setForwardingPipelineConfig fs env s db r).2.code ≠ .internal →
      (setForwardingPipelineConfig fs env s db r).1 = s) ∧
    ((setForwardingPipelineConfig fs env s db r).2.code = .ok →
      Pushed fs env r.action r.config s db (setForwardingPipelineConfig fs env s db r).1) := by
  cases hconnection : (allowRequest r.toMutableRequest s.controllers).isOk with
  | false =>
    have hpush : setForwardingPipelineConfig fs env s db r = (s,.ofStatus (allowRequest r.toMutableRequest s.controllers)) :=
      if_pos (by simp [hconnection])
    rw [hpush]
    simp only [Status.isOk,decide_eq_false_iff_not] at hconnection
    exact ⟨fun _ _ => rfl,fun hok => absurd hok hconnection⟩
  | true =>
    have hpush : setForwardingPipelineConfig fs env s db r = ((performAction fs env r.action r.config s db).1,
        answerPush (performAction fs env r.action r.config s db).2) := if_neg (by simp [hconnection])
    rw [hpush]
    exact (performAction_atomic fs env r.action r.config s db hsave).answer

end Pushes

attribute [local instance] uncompressedInet

/-- Every config stands for one pipeline, which has neither hash settings nor ACL tables. -/
def samplePushFunctions (pipeline : AcceptedP4Info) : PushFunctions where
  validateP4Info := fun _ => .ok ()
  p4ToConstraintInfo := fun _ => .ok noConstraints
  createIrP4Info := fun _ => .ok pipeline
  isEquivalent := fun _ _ => false
  extractHashPacketFieldConfigs := fun _ => .ok []
  extractHashParamConfigs := fun _ => .ok []
  aclTableDefinitionValues := fun _ => .ok []
  validationLibrary := fun _ => none
  constraintErrors := fun _ => failsWith_ok _
  infoErrors := fun _ => failsWith_ok _
  hashFieldErrors := fun _ => failsWith_ok _
  hashParamErrors := fun _ => failsWith_ok _
  definitionErrors := fun _ => failsWith_ok _

/-- Everything is accepted, and no file is configured. -/
def samplePushEnvironment : PushEnvironment where
  layers := fun _ => acceptAll
  setHashFields := fun _ => .okStatus
  delHashFields := fun _ => .okStatus
  setSwitchTable := fun _ _ => .okStatus
  forwardingConfigFullPath := none
  readProtoFromFile := fun _ => .error ⟨.notFound,""⟩
  saveProtoToFile := fun _ _ => .okStatus
  readErrors := fun _ => (failsWith_error _).mpr (by simp [IsError])

def samplePush (action : PipelineAction) : SetForwardingPipelineConfigRequest :=
  { deviceId := 1,electionId := some ⟨0,1⟩,action := action,config := some {} }

/-- A switch with one primary that has no pipeline yet. -/
def freshServer : ServerState where
  controllers := sampleServer.controllers
  entityCache := ⟨∅,keyed_empty⟩
  translation := noTranslation
  constraintsSet := fun h => by cases h

/-- VERIFY succeeds and adopts nothing. -/
theorem verify_adopts_nothing : ¬ ∀ (fs : PushFunctions) (env : PushEnvironment) (s : ServerState) (db : DbSession)
    (r : SetForwardingPipelineConfigRequest),
    ((setForwardingPipelineConfig fs env s db r).2.code ≠ .ok → (setForwardingPipelineConfig fs env s db r).2.code ≠ .internal →
      (setForwardingPipelineConfig fs env s db r).1 = s) ∧
    ((setForwardingPipelineConfig fs env s db r).2.code = .ok → ∃ c,pushedConfig env r.action r.config = some c ∧
      Adopted fs c s (setForwardingPipelineConfig fs env s db r).1) := by
  intro h
  obtain ⟨c,-,hadopted⟩ := (h (samplePushFunctions samplePipeline) samplePushEnvironment freshServer ⟨{},0⟩ (samplePush .verify)).2
    (by decide)
  have hnone : (setForwardingPipelineConfig (samplePushFunctions samplePipeline) samplePushEnvironment freshServer ⟨{},0⟩
      (samplePush .verify)).1.forwardingPipelineConfig = none := by decide
  cases hnone.symm.trans hadopted.pushed

/-- A first pipeline is committed. -/
theorem first_pipeline_committed :
    (setForwardingPipelineConfig (samplePushFunctions samplePipeline) samplePushEnvironment freshServer ⟨{},0⟩
      (samplePush .verifyAndCommit)).2.code = .ok ∧
    Pushed (samplePushFunctions samplePipeline) samplePushEnvironment .verifyAndCommit (some {}) freshServer ⟨{},0⟩
      (setForwardingPipelineConfig (samplePushFunctions samplePipeline) samplePushEnvironment freshServer ⟨{},0⟩
        (samplePush .verifyAndCommit)).1 := by
  have hok : (setForwardingPipelineConfig (samplePushFunctions samplePipeline) samplePushEnvironment freshServer ⟨{},0⟩
      (samplePush .verifyAndCommit)).2.code = .ok := by decide
  exact ⟨hok,(push_is_atomic _ _ freshServer ⟨{},0⟩ (samplePush .verifyAndCommit)
    fun c _ path hpath => by cases hpath).2 hok⟩

end SonicPins.P4rtApp
