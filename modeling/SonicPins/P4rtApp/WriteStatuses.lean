import Mathlib.Data.List.GetD
import SonicPins.P4rtApp.Admission
import SonicPins.Pdpi.WriteRpcStatus
import SonicPins.Sonic.FailOnFirst

/-! The answer of a Write and the entity cache after it: one status for each update,
and exactly the updates that ended OK applied. -/
namespace SonicPins.P4rtApp
open Lib Pdpi Sonic

variable {k : Nat} {statuses : List Status} {us : List Update} {planned : List PlannedUpdate}

/-- The statuses of the updates that a controller reads off an answer. -/
def updateStatuses (count : Nat) (g : GrpcStatus) : Option (List Status) :=
  match g.code with
  | .ok => some (List.replicate count .okStatus)
  | .unknown => some g.details
  | _ => none

/-- No update is OK after the first one that is not. -/
def OkThenFailed (statuses : List Status) : Prop :=
  ∃ succeeded failed,statuses = List.replicate succeeded .okStatus ++ failed ∧ ∀ s ∈ failed,s.isOk = false

/-- OK statuses, then errors that can be reported. -/
def Reported (k : Nat) (statuses : List Status) : Prop :=
  ∃ failed,statuses = List.replicate k .okStatus ++ failed ∧ ∀ s ∈ failed,Reportable s

theorem Reportable.not_isOk {s : Status} (h : Reportable s) : s.isOk = false := by
  simpa [Status.isOk] using h.1

private theorem abortAfterFirstFailure_true {failed : List Status} (h : ∀ s ∈ failed,Reportable s) (found : Bool) :
    ∃ failed',abortAfterFirstFailure found failed = failed' ∧ failed'.length = failed.length ∧
      ∀ s ∈ failed',Reportable s := by
  induction failed generalizing found with
  | nil => exact ⟨[],rfl,rfl,by simp⟩
  | cons s failed ih =>
    obtain ⟨failed',hfailed,hlength,hreportable⟩ := ih (fun s hs => h s (by simp [hs])) true
    have hs := h s (by simp)
    refine ⟨_,rfl,?_,?_⟩
    · simp [abortAfterFirstFailure,hs.not_isOk,hfailed,hlength]
    · rw [abortAfterFirstFailure,if_neg (by simp [hs.not_isOk]),hfailed]
      rintro t (_ | ⟨_,ht⟩)
      · split
        · simp [Reportable]
        · exact hs
      · exact hreportable t ht

theorem abortAfterFirstFailure_reported (h : Reported k statuses) :
    Reported k (abortAfterFirstFailure false statuses) ∧
      (abortAfterFirstFailure false statuses).length = statuses.length := by
  obtain ⟨failed,rfl,hfailed⟩ := h
  induction k with
  | zero =>
    obtain ⟨failed',hfailed',hlength,hreportable⟩ := abortAfterFirstFailure_true hfailed false
    simp only [List.replicate_zero,List.nil_append,hfailed']
    exact ⟨⟨failed',rfl,hreportable⟩,hlength⟩
  | succ k ih =>
    obtain ⟨⟨failed',heq,hreportable⟩,hlength⟩ := ih
    have hstep : abortAfterFirstFailure false (List.replicate (k + 1) Status.okStatus ++ failed) =
        .okStatus :: abortAfterFirstFailure false (List.replicate k Status.okStatus ++ failed) := rfl
    rw [hstep]
    exact ⟨⟨failed',by rw [heq]; rfl,hreportable⟩,by simpa [add_right_comm] using hlength⟩

private theorem statusCode?_codeNumber (c : StatusCode) : statusCode? (codeNumber c) = some c := by cases c <;> rfl

private theorem codeNumber_reportable {c : StatusCode} (hok : c ≠ .ok) (hauthenticated : c ≠ .unauthenticated) :
    codeNumber c ≠ 0 ∧ GoogleRpcCode (codeNumber c) ∧ codeNumber c ≠ 16 := by
  unfold GoogleRpcCode
  revert hok hauthenticated
  cases c <;> decide

theorem getIrUpdateStatus_valid {s : Status} (h : Reportable s) :
    (getIrUpdateStatus s).Valid ∧ (getIrUpdateStatus s).code ≠ 0 := by
  obtain ⟨hne,hgoogle⟩ := codeNumber_reportable h.1 h.2
  exact ⟨⟨fun hzero => absurd hzero hne,hgoogle⟩,hne⟩

theorem unpacked_details (statuses : List Status) (message : String) : (GrpcStatus.unpacked ⟨2,message,.rpcStatus
    { code := 2,details := (statuses.map getIrUpdateStatus).map IrUpdateStatus.packed }⟩).details = statuses := by
  simp only [GrpcStatus.unpacked,List.filterMap_map,Function.comp_def,IrUpdateStatus.packed,getIrUpdateStatus,statusCode?_codeNumber,
    Option.getD_some]
  exact List.filterMap_some

theorem writeAnswer_reported (h : Reported k statuses) :
    ∃ g,writeAnswer statuses = .ok g ∧ updateStatuses statuses.length g = some statuses := by
  obtain ⟨failed,rfl,hfailed⟩ := h
  unfold writeAnswer
  cases failed with
  | nil =>
    refine ⟨_,map_eq_ok.mpr ⟨{},irWriteRpcStatusToGrpcStatus_eq_ok.mpr (.ok ?_),rfl⟩,?_⟩
    · refine List.forall_mem_map.mpr fun s hs => ?_
      rw [List.append_nil] at hs
      rw [List.eq_of_mem_replicate hs]
      rfl
    · rw [List.append_nil,List.length_replicate]
      rfl
  | cons s failed =>
    have hs := (getIrUpdateStatus_valid (hfailed s List.mem_cons_self)).2
    refine ⟨_,map_eq_ok.mpr ⟨_,irWriteRpcStatusToGrpcStatus_eq_ok.mpr (.batch ?_ ⟨_,?_,hs⟩),rfl⟩,?_⟩
    · refine List.forall_mem_map.mpr fun t ht => ?_
      rcases List.mem_append.mp ht with ht | ht
      · rw [List.eq_of_mem_replicate ht]
        exact ⟨fun _ => rfl,⟨by decide,by decide⟩,by decide⟩
      · exact (getIrUpdateStatus_valid (hfailed t ht)).1
    · exact List.mem_map_of_mem (by simp)
    · exact congrArg some (unpacked_details _ _)

theorem FailedFrom.reported {n : Nat} {tail after : List Status} (htail : ∀ s ∈ tail,Reportable s) (hk : k ≤ n)
    (h : FailedFrom (List.replicate n .okStatus ++ tail) k n after) : Reported k after := by
  refine ⟨after.drop k,?_,?_⟩
  · conv_lhs => rw [← List.take_append_drop k after]
    congr 1
    refine List.eq_replicate_iff.mpr ⟨?_,fun s hs => ?_⟩
    · rw [List.length_take,h.length]
      simp
      omega
    · obtain ⟨i,hi,rfl⟩ := List.mem_iff_getElem.mp hs
      rw [List.length_take] at hi
      have hunchanged := h.unchanged i (.inl (by omega))
      rw [statusAt,statusAt,List.getD_eq_getElem _ _ (by omega),List.getD_append _ _ _ _ (by simp; omega)] at hunchanged
      rw [List.getElem_take,hunchanged]
      simp
  · intro s hs
    obtain ⟨i,hi,rfl⟩ := List.mem_iff_getElem.mp hs
    rw [List.length_drop] at hi
    have hafter : statusAt after (k + i) = (after.drop k)[i] := by
      rw [statusAt,List.getD_eq_getElem _ _ (by omega)]
      simp
    rcases Nat.lt_or_ge (k + i) n with hlt | hge
    · obtain ⟨hok,hcode⟩ := h.failed (k + i) (by omega) hlt
      rw [hafter] at hok hcode
      exact ⟨by simpa [Status.isOk] using hok,hcode⟩
    · have hunchanged := h.unchanged (k + i) (.inr hge)
      have hlength := h.length
      rw [List.length_append,List.length_replicate] at hlength
      rw [hafter,statusAt,List.getD_append_right _ _ _ _ (by simpa using hge),
        List.getD_eq_getElem _ _ (by simp; omega)] at hunchanged
      rw [hunchanged]
      exact htail _ (List.getElem_mem _)

section Bookkeeping
variable [InetText]

def normalizedEntity (info : IrP4Info) (u : Update) : StatusOr (Entity × EntityKey) := do
  let ir ← updateIr info u
  let pi ← irEntityToPi info ir (pdpiOptions u.type)
  let key ← makeEntityKey pi
  .ok (pi,key)

/-- What an update means for the entities of the switch. -/
def applyUpdate (info : IrP4Info) (entries : AList (fun _ : EntityKey => Entity)) (u : Update) :
    AList (fun _ : EntityKey => Entity) :=
  match normalizedEntity info u,u.type with
  | .ok (pi,key),.insert => entries.insert key pi
  | .ok (pi,key),.modify => entries.insert key pi
  | .ok (_,key),.delete => entries.erase key
  | _,_ => entries

/-- The entities after the updates that ended OK, applied in order. -/
def applyOk (info : IrP4Info) (entries : AList (fun _ : EntityKey => Entity)) (results : List (Update × Status)) :
    AList (fun _ : EntityKey => Entity) :=
  results.foldl (fun entries x => if x.2.isOk then applyUpdate info entries x.1 else entries) entries

private theorem applyOk_failed (info : IrP4Info) (entries : AList (fun _ : EntityKey => Entity)) {results : List (Update × Status)}
    (h : ∀ x ∈ results,x.2.isOk = false) : applyOk info entries results = entries := by
  induction results with
  | nil => rfl
  | cons x results ih =>
    rw [applyOk,List.foldl_cons,if_neg (by simp [h x (by simp)])]
    exact ih fun y hy => h y (by simp [hy])

private theorem applyOk_reported {info : IrP4Info} {entries : AList (fun _ : EntityKey => Entity)} {post : List Update}
    (h : Reported k statuses) (hk : k ≤ us.length)
    (hlength : statuses.length = us.length + post.length) :
    applyOk info entries ((us ++ post).zip statuses) = applyOk info entries (us.zip statuses) := by
  have htake : us.zip statuses = us.zip (statuses.take us.length) := by
    conv_lhs => rw [List.zip_eq_zip_take_min,hlength,min_eq_left (by omega),List.take_length]
  have hsplit : (us ++ post).zip statuses = us.zip statuses ++ post.zip (statuses.drop us.length) := by
    conv_lhs => rw [← List.take_append_drop us.length statuses]
    rw [htake,List.zip_append (by simp [hlength])]
  obtain ⟨failed,rfl,hfailed⟩ := h
  rw [hsplit,applyOk,List.foldl_append]
  refine applyOk_failed _ _ fun x hx => ?_
  have hmem := (List.of_mem_zip hx).2
  rw [List.drop_append,List.drop_of_length_le (by simpa using hk),List.nil_append] at hmem
  exact (hfailed _ (List.mem_of_mem_drop hmem)).not_isOk

variable {info : IrP4Info} {constraints : ConstraintInfo} {translation : SwitchTranslation} {cache : EntityCache}
  {capacities : ActionProfileCapacityMap} {role : String}

private theorem normalizedEntity_of_translated {u : Update} {e : EntityUpdate}
    (h : piUpdateToEntityUpdate info constraints translation role u = .ok e) :
    normalizedEntity info u = .ok (e.piEntity,e.entityKey) := by
  obtain ⟨-,ir,hir,-,-,hpi,-⟩ := piUpdateToEntityUpdate_spec h
  refine bind_eq_ok.mpr ⟨ir,hir,bind_eq_ok.mpr ⟨_,hpi,bind_eq_ok.mpr ⟨_,e.keyed,rfl⟩⟩⟩

omit [InetText] in
theorem verifyEntityCacheForExistence_type {u : EntityUpdate} (h : verifyEntityCacheForExistence cache u = .ok ()) :
    u.updateType = .insert ∨ u.updateType = .modify ∨ u.updateType = .delete := by
  unfold verifyEntityCacheForExistence at h
  cases htype : u.updateType with
  | insert => exact .inl rfl
  | modify => exact .inr (.inl rfl)
  | delete => exact .inr (.inr rfl)
  | unspecified => simp [htype] at h
  | unknown n => simp [htype] at h

theorem PlannedFrom.apply {u : Update} {p : PlannedUpdate}
    (h : PlannedFrom info constraints translation cache capacities role u p) (c : EntityCache) :
    ∃ c',c.apply p.update = .ok c' ∧ c'.entries = applyUpdate info c.entries u := by
  have htype := (piUpdateToEntityUpdate_spec h.translated).1
  have hnormal := normalizedEntity_of_translated h.translated
  rcases verifyEntityCacheForExistence_type h.existence with hu | hu | hu
  · exact ⟨_,by rw [EntityCache.apply,hu],by simp [applyUpdate,hnormal,← htype,hu,EntityCache.insert]⟩
  · exact ⟨_,by rw [EntityCache.apply,hu],by simp [applyUpdate,hnormal,← htype,hu,EntityCache.insert]⟩
  · refine ⟨c.erase p.update.entityKey,?_,by simp [applyUpdate,hnormal,← htype,hu,EntityCache.erase]⟩
    rw [EntityCache.apply,hu]
    simp [p.update.keyed,Except.map]

omit [InetText] in
theorem addUtilization_ok {change : TableResources}
    (h : ∀ r,change.actionProfile = some r → r.name ∈ capacities) :
    ∃ capacities',addUtilization capacities change = .ok capacities' ∧ ∀ name,name ∈ capacities → name ∈ capacities' := by
  unfold addUtilization
  cases hr : change.actionProfile with
  | none => exact ⟨capacities,rfl,fun _ h => h⟩
  | some r =>
    obtain ⟨c,hc⟩ := Option.isSome_iff_exists.mp (AList.lookup_isSome.mpr (h r hr))
    simp only [hc]
    exact ⟨_,rfl,fun name hname => (AList.mem_insert _).mpr (.inr hname)⟩

private theorem updateCacheAndUtilizationState_spec
    (h : List.Forall₂ (PlannedFrom info constraints translation cache capacities role) us planned)
    (statuses : List Status) (c : EntityCache) (m : ActionProfileCapacityMap) (hm : ∀ name,name ∈ capacities → name ∈ m) :
    ∃ c' m',updateCacheAndUtilizationState (planned.zip statuses) (c,m) = ((c',m'),.okStatus) ∧
      c'.entries = applyOk info c.entries (us.zip statuses) := by
  induction h generalizing statuses c m with
  | nil => exact ⟨c,m,rfl,rfl⟩
  | @cons u p us planned hp _ ih =>
    cases statuses with
    | nil => exact ⟨c,m,rfl,rfl⟩
    | cons status statuses =>
      simp only [List.zip_cons_cons,updateCacheAndUtilizationState,applyOk,List.foldl_cons]
      cases hstatus : status.isOk with
      | false => simpa [applyOk] using ih statuses c m hm
      | true =>
        obtain ⟨c',hc',hentries⟩ := hp.apply c
        obtain ⟨inBatch,hchange⟩ := hp.change
        obtain ⟨m',hm',hkeys⟩ := addUtilization_ok fun r hr => hm r.name
          (verifyCapacityAndGetTableResourceChange_mem hchange hr)
        obtain ⟨c'',m'',heq,hfinal⟩ := ih statuses c' m' fun name hname => hkeys name (hm name hname)
        refine ⟨c'',m'',?_,?_⟩
        · simpa [hc',hm'] using heq
        · simpa [applyOk,hentries] using hfinal

end Bookkeeping

section Exceptions

/-- A port that cannot be written as JSON text. -/
def NotText (port : Bytes) : Prop := ofUtf8? port = none

/-- The entries whose JSON values hold a port that is not text: the watch ports of
an action set, and the ports of replicas. -/
def HasPortNotText (type : UpdateType) (entry : IrEntity) (info : IrP4Info) : Prop :=
  (type = .insert ∨ type = .modify) ∧ match entry with
  | .packetReplicationEngineEntry e => ∃ r ∈ (mutableMulticastGroupEntry e).replicas,
      NotText r.port ∨ ∃ b ∈ r.backupReplicas,NotText b.port
  | .tableEntry e => tableTypeOfName e.tableName = .p4rt ∧ (∃ key,getRedisP4rtTableKey e info = .ok key) ∧
      ∃ actions,e.type = .actionSet actions ∧ (∀ a ∈ actions,∃ params,appDbParams a.action = .ok params) ∧
        ∃ a ∈ actions,NotText a.watchPort

theorem thrown_jsonText (b : Bytes) : Thrown (jsonText b) ↔ NotText b := by
  unfold jsonText NotText
  split <;> simp_all

theorem jsonText_cases (b : Bytes) : (∃ text,jsonText b = .ok text) ∨ Thrown (jsonText b) := by
  unfold jsonText
  split <;> simp

theorem replicasJson_cases (replicas : List (Bytes × UInt32)) :
    (∃ json,replicasJson replicas = .ok json) ∨ Thrown (replicasJson replicas) := by
  cases h : replicasJson replicas with
  | ok json => exact .inl ⟨json,rfl⟩
  | error failure => cases failure with
    | thrown what => exact .inr (thrown_error what)
    | status status =>
      have hnever : FailsWith (fun failure => ∃ what,failure = Failure.thrown what) (replicasJson replicas) := by
        refine (FailsWith.mapM (fun r => FailsWith.map ?_ _) _).map _
        unfold jsonText
        split <;> simp
      obtain ⟨what,hwhat⟩ := hnever _ h
      cases hwhat

theorem thrown_replicasJson (replicas : List (Bytes × UInt32)) :
    Thrown (replicasJson replicas) ↔ ∃ r ∈ replicas,NotText r.1 := by
  unfold replicasJson
  rw [thrown_map,thrown_mapM]
  · simp [thrown_jsonText]
  · intro r
    rw [thrown_map]
    rcases jsonText_cases r.1 with ⟨text,h⟩ | h
    · exact .inl ⟨_,by rw [h]; rfl⟩
    · exact .inr h

private theorem thrown_createFieldValues (e : IrMulticastGroupEntry) :
    Thrown (createFieldValues e) ↔ ∃ r ∈ e.replicas,NotText r.port ∨ ∃ b ∈ r.backupReplicas,NotText b.port := by
  have hports : Thrown (replicasJson (e.replicas.map fun r => (r.port,r.instanceId))) ↔
      ∃ r ∈ e.replicas,NotText r.port := by simp [thrown_replicasJson]
  have hbackups : Thrown (e.replicas.mapM fun r => replicasJson (r.backupReplicas.map fun b => (b.port,b.instanceId))) ↔
      ∃ r ∈ e.replicas,∃ b ∈ r.backupReplicas,NotText b.port := by
    rw [thrown_mapM fun r => replicasJson_cases _]
    simp [thrown_replicasJson]
  unfold createFieldValues
  rw [thrown_bind,hports]
  constructor
  · rintro (⟨r,hr,hport⟩ | ⟨json,-,h⟩)
    · exact ⟨r,hr,.inl hport⟩
    · rcases thrown_bind.mp h with h | ⟨_,_,h⟩
      · obtain ⟨r,hr,hport⟩ := hbackups.mp h
        exact ⟨r,hr,.inr hport⟩
      · exact absurd h (not_thrown_ok _)
  · rintro ⟨r,hr,hport | hport⟩
    · exact .inl ⟨r,hr,hport⟩
    · rcases replicasJson_cases (e.replicas.map fun r => (r.port,r.instanceId)) with ⟨json,hjson⟩ | hthrown
      · exact .inr ⟨json,hjson,thrown_bind.mpr (.inl (hbackups.mpr ⟨r,hr,hport⟩))⟩
      · exact .inl (hports.mp hthrown)

private theorem thrown_irTableEntryToAppDbValues (e : IrTableEntry) :
    Thrown (irTableEntryToAppDbValues e) ↔ ∃ actions,e.type = .actionSet actions ∧
      (∀ a ∈ actions,∃ params,appDbParams a.action = .ok params) ∧ ∃ a ∈ actions,NotText a.watchPort := by
  rw [irTableEntryToAppDbValues,thrown_map]
  cases e.type with
  | action a => simp [irActionToAppDbValues]
  | notSet => simp [irActionToAppDbValues]
  | actionSet actions =>
    have hports : Thrown (actions.mapM fun a => jsonText a.watchPort) ↔ ∃ a ∈ actions,NotText a.watchPort := by
      rw [thrown_mapM fun a => jsonText_cases _]
      simp [thrown_jsonText]
    have hparams : (∃ params,actions.mapM (fun a => appDbParams a.action) = .ok params) ↔
        ∀ a ∈ actions,∃ params,appDbParams a.action = .ok params := exists_mapM_eq_ok
    simp only [irActionToAppDbValues,irActionSetToAppDbValues,thrown_orFail_bind,IrTableEntryType.actionSet.injEq,
      exists_eq_left']
    rw [← hparams,← hports]
    constructor
    · rintro ⟨params,hok,h⟩
      rcases thrown_bind.mp h with h | ⟨_,_,h⟩
      · exact ⟨⟨params,hok⟩,h⟩
      · exact absurd h (not_thrown_ok _)
    · rintro ⟨⟨params,hok⟩,h⟩
      exact ⟨params,hok,thrown_bind.mpr (.inl h)⟩

theorem thrown_createAppDbUpdate (type : UpdateType) (entry : IrEntity) (info : IrP4Info) :
    Thrown (createAppDbUpdate type entry info) ↔ HasPortNotText type entry info := by
  unfold createAppDbUpdate HasPortNotText
  rw [thrown_map]
  cases entry with
  | packetReplicationEngineEntry e =>
    cases type <;> simp [createAppDbPacketReplicationTableUpdate,thrown_createFieldValues]
  | tableEntry e =>
    cases htable : tableTypeOfName e.tableName with
    | vrfTable => simp [htable]
    | vlanTable => simp [htable]
    | vlanMemberTable => simp [htable]
    | p4rt => cases type <;> simp [htable,createAppDbP4rtUpdate,thrown_orFail_bind,thrown_irTableEntryToAppDbValues]

variable [InetText] (info : IrP4Info) (constraints : ConstraintInfo) (translation : SwitchTranslation) (role : String)

/-- An update that is translated to IR and for OrchAgent, but whose IR has no
translation back, or whose AppDb values hold a port that is not text. -/
def EndsInException (u : Update) : Prop :=
  ∃ ir,updateIr info u = .ok ir ∧ verifyTableEntry info constraints role u ir = .ok () ∧
    ∃ entry,updateIrEntityForOrchAgent (translation.options .forOrchAgent info) ir = .ok entry ∧
      ((∃ status,irEntityToPi info ir (pdpiOptions u.type) = .error status) ∨
        (∃ pi key,irEntityToPi info ir (pdpiOptions u.type) = .ok pi ∧ makeEntityKey pi = .ok key) ∧
          HasPortNotText u.type entry info)

theorem thrown_updateKey (type : UpdateType) (ir : IrEntity) :
    Thrown (updateKey info type ir) ↔ ∃ status,irEntityToPi info ir (pdpiOptions type) = .error status := by
  unfold updateKey
  split
  · rename_i status h
    simp [h]
  · rename_i pi h
    split <;> simp [h]

theorem updateKey_ok (type : UpdateType) (ir : IrEntity) :
    (∃ r,updateKey info type ir = .ok r) ↔
      ∃ pi key,irEntityToPi info ir (pdpiOptions type) = .ok pi ∧ makeEntityKey pi = .ok key := by
  unfold updateKey
  split
  · rename_i status h
    simp [h]
  · rename_i pi h
    split
    · rename_i status hkey
      simp [h,hkey]
    · rename_i key hkey
      simp [h,hkey]

theorem throws_iff (u : Update) :
    Throws info constraints translation role u ↔ EndsInException info constraints translation role u := by
  change Thrown (piUpdateToEntityUpdate info constraints translation role u) ↔ _
  unfold piUpdateToEntityUpdate EndsInException
  simp only [thrown_orFail_bind]
  refine exists_congr fun ir => and_congr_right fun _ => ?_
  constructor
  · rintro ⟨⟨⟩,hverify,entry,hentry,h⟩
    refine ⟨hverify,entry,hentry,?_⟩
    rcases thrown_bind.mp h with h | ⟨r,hr,h⟩
    · exact .inl ((thrown_updateKey _ _ _).mp h)
    · rcases thrown_bind.mp h with h | ⟨_,_,h⟩
      · exact .inr ⟨(updateKey_ok _ _ _).mp ⟨r,hr⟩,(thrown_createAppDbUpdate _ _ _).mp h⟩
      · exact absurd h (not_thrown_ok _)
  · rintro ⟨hverify,entry,hentry,h⟩
    refine ⟨(),hverify,entry,hentry,?_⟩
    rcases h with h | ⟨hkey,h⟩
    · exact thrown_bind.mpr (.inl ((thrown_updateKey _ _ _).mpr h))
    · obtain ⟨r,hr⟩ := (updateKey_ok _ _ _).mpr hkey
      exact thrown_bind.mpr (.inr ⟨r,hr,thrown_bind.mpr (.inl ((thrown_createAppDbUpdate _ _ _).mpr h))⟩)

end Exceptions

section Request
variable [InetText]

/-- The conditions under which a request is answered update by update: no update
that the loop reaches ends in an exception, and the updates that are sent in one
batch have different AppDb keys. -/
structure Answerable (info : IrP4Info) (constraints : ConstraintInfo) (s : ServerState) (r : WriteRequest) : Prop where
  returns : ∀ us u post st,r.updates = us ++ u :: post →
    Accepts info constraints s.translation s.entityCache s.capacityByActionProfileName r.role us st →
    ¬ EndsInException info constraints s.translation r.role u
  distinct : ∀ us post st,r.updates = us ++ post →
    StopsAfter info constraints s.translation s.entityCache s.capacityByActionProfileName r.role us post st →
    BatchKeysDistinct [] (st.updates.map fun p => p.update.appDbUpdate)

/-- One status for each update, none OK after a failure, and the cache changed by
exactly the updates that ended OK. -/
def InStep (info : IrP4Info) (s : ServerState) (r : WriteRequest) (after : ServerState × GrpcStatus) : Prop :=
  ∃ statuses,updateStatuses r.updates.length after.2 = some statuses ∧ statuses.length = r.updates.length ∧
    OkThenFailed statuses ∧ after.1.entityCache.entries = applyOk info s.entityCache.entries (r.updates.zip statuses)

omit [InetText] in
theorem Reported.okThenFailed (h : Reported k statuses) : OkThenFailed statuses := by
  obtain ⟨failed,rfl,hfailed⟩ := h
  exact ⟨k,failed,rfl,fun s hs => (hfailed s hs).not_isOk⟩

variable {info : AcceptedP4Info} {constraints : ConstraintInfo} {s : ServerState} {r : WriteRequest}

theorem plan_eq (hinfo : s.irP4Info = some info) (hconstraints : s.constraintInfo = some constraints) :
    plan s r = piEntityUpdatesToIr info.toIrP4Info constraints s.translation s.entityCache
      s.capacityByActionProfileName r.role r.updates := by
  simp [plan,hinfo,hconstraints]

omit [InetText] in
theorem planned_length {updates : List AppDbUpdate} {n : Nat} (h : updates.length = n) (tail : List Status) :
    updates.length ≤ (List.replicate n Status.okStatus ++ tail).length := by simp [h]

omit [InetText] in
theorem planned_ok {updates : List AppDbUpdate} {n : Nat} (h : updates.length = n) (tail : List Status) :
    ∀ p < updates.length,statusAt (List.replicate n Status.okStatus ++ tail) p = .okStatus := by
  intro p hp
  rw [h] at hp
  rw [statusAt,List.getD_append _ _ _ _ (by simpa using hp)]
  simp

/-- Planned updates with distinct keys are answered in step. -/
theorem write_planned {lower : LowerLayer} (hlower : lower.WellBehaved) (hchecked : (requestStatus s r).isOk = true)
    {post : List Update} {tail : List Status} (hupdates : r.updates = us ++ post)
    (hplanned : List.Forall₂ (PlannedFrom info.toIrP4Info constraints s.translation s.entityCache
      s.capacityByActionProfileName r.role) us planned)
    (hlength : tail.length = post.length) (htail : ∀ x ∈ tail,Reportable x)
    (hplan : plan s r = .ok (planned,List.replicate us.length .okStatus ++ tail))
    (hkeys : BatchKeysDistinct [] (planned.map fun p => p.update.appDbUpdate)) :
    InStep info.toIrP4Info s r (write lower s r) := by
  have hcount : (planned.map fun p => p.update.appDbUpdate).length = us.length := by simp [hplanned.length_eq]
  obtain ⟨k,hk,succeeded,after,sent,hafter,hfrom⟩ := performAppDbUpdates_spec hlower (planned_length hcount tail)
    (planned_ok hcount tail) hkeys
  rw [hcount] at hk hfrom
  have hreported := FailedFrom.reported htail hk hfrom
  obtain ⟨habort,habortLength⟩ := abortAfterFirstFailure_reported hreported
  obtain ⟨g,hg,hstatuses⟩ := writeAnswer_reported habort
  have hall : (abortAfterFirstFailure false after).length = r.updates.length := by
    rw [habortLength,hfrom.length,hupdates]
    simp [hlength]
  obtain ⟨c,m,hbook,hcache⟩ := updateCacheAndUtilizationState_spec hplanned (abortAfterFirstFailure false after)
    s.entityCache s.capacityByActionProfileName fun _ h => h
  have hwrite : write lower s r =
      ({ s with entityCache := c,capacityByActionProfileName := m },g) := by
    simp only [write,hchecked,hplan,appDbUpdates,hafter,hg,hbook]
    rfl
  refine ⟨abortAfterFirstFailure false after,?_,hall,habort.okThenFailed,?_⟩
  · rw [hwrite,← hall]
    exact hstatuses
  · rw [hwrite]
    rw [hupdates]
    exact hcache.trans (applyOk_reported habort hk (by rw [hall,hupdates]; simp)).symm

private theorem write_thrown {what : String} (hchecked : (requestStatus s r).isOk = true) (hplan : plan s r = .error (.thrown what))
    (lower : LowerLayer) : updateStatuses r.updates.length (write lower s r).2 = none := by
  simp [write,hchecked,hplan,enterCriticalState,updateStatuses]

private theorem write_unanswered {failure : Status × List SentRequest} {lower : LowerLayer}
    (hchecked : (requestStatus s r).isOk = true) (hplan : plan s r = .ok (planned,statuses))
    (hfailed : performAppDbUpdates lower (appDbUpdates planned) statuses = .error failure) :
    updateStatuses r.updates.length (write lower s r).2 = none := by
  simp [write,hchecked,hplan,hfailed,enterCriticalState,updateStatuses]

/-- A Write is answered in step with the cache exactly when the request is answerable. -/
theorem write_in_step (hinfo : s.irP4Info = some info) (hconstraints : s.constraintInfo = some constraints)
    (hchecked : (requestStatus s r).isOk = true) :
    (∀ lower : LowerLayer,lower.WellBehaved → InStep info.toIrP4Info s r (write lower s r)) ↔
      Answerable info.toIrP4Info constraints s r := by
  constructor
  · intro h
    refine ⟨fun us u post st hupdates haccepts hthrows => ?_,fun us post st hupdates hstops => ?_⟩
    · obtain ⟨what,hwhat⟩ := Throws.piEntityUpdatesToIr haccepts ((throws_iff _ _ _ _ u).mpr hthrows) post
      rw [← hupdates,← plan_eq hinfo hconstraints] at hwhat
      obtain ⟨statuses,hstatuses,-⟩ := h acceptAll acceptAll_wellBehaved
      rw [write_thrown hchecked hwhat] at hstatuses
      cases hstatuses
    · by_contra hkeys
      obtain ⟨tail,-,-,hplan⟩ := hstops.piEntityUpdatesToIr
      rw [← hupdates,← plan_eq hinfo hconstraints] at hplan
      have hcount : (st.updates.map fun p => p.update.appDbUpdate).length = us.length := by
        simp [hstops.1.plannedFrom.length_eq]
      obtain ⟨failure,hfailure⟩ := performAppDbUpdates_collision (planned_length hcount tail) (planned_ok hcount tail) hkeys
      obtain ⟨statuses,hstatuses,-⟩ := h acceptAll acceptAll_wellBehaved
      rw [write_unanswered hchecked hplan hfailure] at hstatuses
      cases hstatuses
  · intro h lower hlower
    have hnil : Accepts info.toIrP4Info constraints s.translation s.entityCache s.capacityByActionProfileName r.role
      [] {} := .nil
    obtain ⟨us,post,st,hupdates,hcases⟩ := loop_cases hnil r.updates
    rw [List.nil_append] at hupdates
    rcases hcases with hstops | ⟨haccepts,u,rest,rfl,hrepeats | hthrows⟩
    · obtain ⟨tail,hlength,htail,hplan⟩ := hstops.piEntityUpdatesToIr
      rw [← hupdates,← plan_eq hinfo hconstraints] at hplan
      exact write_planned hlower hchecked hupdates hstops.1.plannedFrom hlength htail hplan
        (h.distinct us post st hupdates hstops)
    · obtain ⟨tail,hlength,htail,hplan⟩ := hrepeats.piEntityUpdatesToIr haccepts rest
      rw [← hupdates,← plan_eq hinfo hconstraints] at hplan
      exact write_planned hlower hchecked (List.nil_append _).symm hnil.plannedFrom (by rw [hlength,hupdates]) htail hplan List.nodup_nil
    · exact absurd ((throws_iff _ _ _ _ u).mp hthrows) (h.returns us u rest st hupdates haccepts)

end Request

def setNexthopAction : IrActionDefinition :=
  let param : IrActionParamDefinition := { param := { id := 1,name := "nexthop_id",bitwidth := 0 },format := .string }
  { preamble := { id := 0x01000002,aliasName := "set_nexthop_id" },paramsById := [(1,param)],
    paramsByName := [("nexthop_id",param)] }

def wcmpGroupTable : IrTableDefinition :=
  let groupId : IrMatchFieldDefinition :=
    { matchField := { id := 1,name := "wcmp_group_id",bitwidth := 0,matchType := .exact },format := .string }
  { preamble := { id := 0x02000003,aliasName := "wcmp_group_table" },matchFieldsById := [(1,groupId)],
    matchFieldsByName := [("wcmp_group_id",groupId)],entryActions := [setNexthopAction],usesOneshot := true,
    actionProfileId := some 0x11000001 }

def ipv4Table : IrTableDefinition :=
  let dst : IrMatchFieldDefinition :=
    { matchField := { id := 1,name := "ipv4_dst",bitwidth := 32,matchType := .lpm },format := .ipv4 }
  { preamble := { id := 0x02000004,aliasName := "ipv4_table" },matchFieldsById := [(1,dst)],
    matchFieldsByName := [("ipv4_dst",dst)],entryActions := [setNexthopAction] }

def wcmpSelector : ActionProfile := { preamble := { id := 0x11000001,aliasName := "wcmp_group_selector" },size := 10 }

/-- A pipeline of one table with action sets and one with a longest prefix match. -/
def samplePipeline : AcceptedP4Info where
  tablesById := [(0x02000003,wcmpGroupTable),(0x02000004,ipv4Table)]
  tablesByName := [("wcmp_group_table",wcmpGroupTable),("ipv4_table",ipv4Table)]
  actionsById := [(0x01000002,setNexthopAction)]
  actionsByName := [("set_nexthop_id",setNexthopAction)]
  actionProfilesById := [(0x11000001,wcmpSelector)]
  actionProfilesByName := [("wcmp_group_selector",wcmpSelector)]
  wellFormed := by decide +kernel

private theorem accepted_errorCode (_ : TableEntry) (s : Status) (h : (.ok "" : StatusOr String) = .error s) :
    s.code ≠ .ok ∧ s.code ≠ .unauthenticated := by cases h

def noConstraints : ConstraintInfo := ⟨fun _ => .ok "",accepted_errorCode⟩

def noTranslation : SwitchTranslation := ⟨false,⟨[],by simp,by simp⟩,⟨[],by simp,by simp⟩,⟨[],by simp,by simp⟩⟩

/-- A switch with one primary and nothing programmed. -/
def sampleServer : ServerState where
  controllers := ⟨some 1,[0],AList.singleton none (some 1),fun _ => ⟨true,none,some 1⟩,[]⟩
  irP4Info := some samplePipeline
  constraintInfo := some noConstraints
  capacityByActionProfileName := AList.singleton "wcmp_group_selector" { actionProfile := wcmpSelector }
  entityCache := ⟨∅,keyed_empty⟩
  translation := noTranslation
  constraintsSet := fun _ => rfl

def sampleRequest (updates : List Update) : WriteRequest :=
  { deviceId := 1,electionId := some ⟨0,1⟩,updates := updates }

def nexthop (name : String) : Action := ⟨0x01000002,[⟨1,utf8 name⟩]⟩

/-- A route whose prefix length is negative. -/
def negativePrefixRoute : Update :=
  ⟨.insert,.tableEntry { tableId := 0x02000004,matches_ := [⟨1,.lpm [0] (-1)⟩],action := some (.action (nexthop "n1")) }⟩

def wcmpGroup (id : String) (weights : List Int32) : TableEntry :=
  { tableId := 0x02000003,matches_ := [⟨1,.exact (utf8 id)⟩],
    action := some (.actionProfileActionSet (weights.map fun w => ⟨nexthop "n1",w,[]⟩)) }

attribute [local instance] uncompressedInet

def groupRequest : WriteRequest := sampleRequest [⟨.insert,.tableEntry (wcmpGroup "g1" [1,2])⟩]

theorem write_in_step_group : (requestStatus sampleServer groupRequest).isOk = true ∧
    ((∀ lower : LowerLayer,lower.WellBehaved →
        InStep samplePipeline.toIrP4Info sampleServer groupRequest (write lower sampleServer groupRequest)) ↔
      Answerable samplePipeline.toIrP4Info noConstraints sampleServer groupRequest) :=
  ⟨by decide +kernel,write_in_step rfl rfl (by decide +kernel)⟩

/-- The negative prefix length passes the translation to IR, has no translation
back, and its exception takes the place of the statuses. -/
theorem negative_prefix_unanswered : (requestStatus sampleServer (sampleRequest [negativePrefixRoute])).isOk = true ∧
    acceptAll.WellBehaved ∧ ¬ InStep samplePipeline.toIrP4Info sampleServer (sampleRequest [negativePrefixRoute])
      (write acceptAll sampleServer (sampleRequest [negativePrefixRoute])) := by
  refine ⟨by decide +kernel,acceptAll_wellBehaved,?_⟩
  rintro ⟨statuses,hstatuses,-⟩
  have hnone : updateStatuses 1 (write acceptAll sampleServer (sampleRequest [negativePrefixRoute])).2 = none := by
    decide +kernel
  rw [show (sampleRequest [negativePrefixRoute]).updates.length = 1 from rfl,hnone] at hstatuses
  cases hstatuses

end SonicPins.P4rtApp
