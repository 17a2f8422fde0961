import SonicPins.P4rtApp.Write

/-! Every status that refuses an update is one that a response can carry: it is
not OK and its code is a `google.rpc.Code`. -/
namespace SonicPins.P4rtApp
open Lib Pdpi Sonic

def Reportable (s : Status) : Prop := s.code ≠ .ok ∧ s.code ≠ .unauthenticated

/-- A failure that, when it is a status, is reportable. -/
def ReportableFailure : Failure → Prop
  | .status s => Reportable s
  | .thrown _ => True

@[simp] theorem reportable_invalidArgument (message : String) : Reportable (invalidArgument message) := by
  simp [Reportable,invalidArgument]

@[simp] theorem reportable_annotate (s : Status) (note : String) : Reportable (s.annotate note) ↔ Reportable s := Iff.rfl

theorem orFail_reportable {α : Type} {r : StatusOr α} (h : FailsWith Reportable r) :
    FailsWith ReportableFailure (orFail r) := h.mapError fun _ hs => hs

theorem annotated_reportable {α : Type} {r : StatusOr α} (h : FailsWith Reportable r) (note : String) :
    FailsWith Reportable (r.mapError (·.annotate note)) := h.mapError fun s hs => (reportable_annotate s note).mpr hs

theorem unlessInvalid_reportable {α : Type} (field : String) (reasons : List String) (a : α) :
    FailsWith Reportable (unlessInvalid field reasons a) := by
  unfold unlessInvalid
  split <;> simp [invalidReasons]

section Translation
variable [InetText]

private theorem piEntityToIr_reportable (info : IrP4Info) (e : Entity) (options : TranslationOptions) :
    FailsWith Reportable (piEntityToIr info e options) := by
  cases e with
  | notSet => simp [piEntityToIr]
  | other field => simp [piEntityToIr,Reportable]
  | tableEntry e =>
    refine FailsWith.map ?_ _
    unfold piTableEntryToIr
    split
    · simp
    · simp only
      split
      · exact unlessInvalid_reportable _ _ _
      · exact unlessInvalid_reportable _ _ _
  | packetReplicationEngineEntry e =>
    refine FailsWith.map ?_ _
    cases e with
    | notSet => simp [piPacketReplicationEngineEntryToIr,Reportable]
    | multicastGroupEntry e =>
      refine FailsWith.map ?_ _
      unfold piMulticastGroupEntryToIr
      split
      · simp
      · exact unlessInvalid_reportable _ _ _
    | cloneSessionEntry e =>
      refine FailsWith.map ?_ _
      unfold piCloneSessionEntryToIr
      split
      · simp
      · exact unlessInvalid_reportable _ _ _

omit [InetText] in
theorem translatePort_reportable (direction : TranslationDirection) (m : PortMap) (key : Bytes) :
    FailsWith Reportable (translatePort direction m key) := by
  unfold translatePort
  split
  · simp
  · simp only
    split
    · split <;> simp [Reportable]
    · split <;> simp [Reportable]

omit [InetText] in
theorem translatePortValue_reportable (direction : TranslationDirection) (m : PortMap) (value : IrValue) :
    FailsWith Reportable (translatePortValue direction m value) := by
  unfold translatePortValue
  split
  · exact (translatePort_reportable _ _ _).map _
  · simp

omit [InetText] in
theorem optionallyTranslateQueue_reportable (direction : TranslationDirection) (t : QueueTranslator) (value : IrValue) :
    FailsWith Reportable (optionallyTranslateQueue direction t value) := by
  unfold optionallyTranslateQueue
  split
  · split
    · refine FailsWith.map ?_ _
      unfold QueueTranslator.optionallyTranslateIdToName
      split <;> simp
    · simp
  · simp

omit [InetText] in
theorem translateAction_reportable (options : TranslateTableEntryOptions) (table : IrTableDefinition)
    (a : IrActionInvocation) : FailsWith Reportable (translateAction options table a) := by
  unfold translateAction
  split
  · simp [Reportable]
  · refine (FailsWith.mapM (fun p => ?_) _).map _
    unfold translateActionParam
    split
    · simp [Reportable]
    · split
      · split
        · simp
        · rename_i status hstatus
          simpa using translatePortValue_reportable _ _ _ status hstatus
      · split
        · exact (optionallyTranslateQueue_reportable _ _ _).map _
        · split
          · exact (optionallyTranslateQueue_reportable _ _ _).map _
          · simp

omit [InetText] in
private theorem translateTableEntry_reportable (options : TranslateTableEntryOptions) (e : IrTableEntry) :
    FailsWith Reportable (translateTableEntry options e) := by
  unfold translateTableEntry
  split
  · simp [Reportable]
  · refine (FailsWith.mapM (fun m => ?_) _).bind fun ms => FailsWith.bind ?_ fun type => failsWith_ok _
    · unfold translateMatchField
      split
      · simp [Reportable]
      · split
        · unfold translatePortInMatchField
          simp only
          split
          · exact (annotated_reportable (translatePortValue_reportable _ _ _) _).map _
          · exact (annotated_reportable (translatePortValue_reportable _ _ _) _).map _
          · simp
        · simp
    · unfold translateEntryType
      split
      · exact (translateAction_reportable _ _ _).map _
      · refine (FailsWith.mapM (fun a => ?_) _).map _
        refine (translateAction_reportable _ _ _).bind fun action => ?_
        split
        · exact (translatePort_reportable _ _ _).bind fun port => failsWith_ok _
        · simp
      · simp

private theorem updateIrEntityForOrchAgent_reportable (options : TranslateTableEntryOptions) (e : IrEntity) :
    FailsWith Reportable (updateIrEntityForOrchAgent options e) := by
  cases e with
  | tableEntry e => exact (translateTableEntry_reportable _ _).map _
  | packetReplicationEngineEntry e =>
    refine FailsWith.map ((FailsWith.mapM (fun r => ?_) _).map _) _
    unfold translatePortInReplica
    split
    · refine (translatePort_reportable _ _ _).bind fun port => FailsWith.bind ?_ fun backups => failsWith_ok _
      exact FailsWith.mapM (fun b => (translatePort_reportable _ _ _).map _) _
    · simp

end Translation

theorem irValueToAppDbString_reportable (v : IrValue) : FailsWith Reportable (irValueToAppDbString v) := by
  cases v <;> simp [irValueToAppDbString]

theorem getTableType_reportable (table : IrTableDefinition) : FailsWith Reportable (getTableType table) := by
  unfold getTableType
  split
  · simp
  · split
    · split
      · simp
      · split <;> simp
    · simp

private theorem getRedisP4rtTableKey_reportable (entry : IrTableEntry) (info : IrP4Info) :
    FailsWith Reportable (getRedisP4rtTableKey entry info) := by
  unfold getRedisP4rtTableKey
  split
  · simp [Reportable]
  · refine (getTableType_reportable _).bind fun type => FailsWith.bind ?_ fun key => failsWith_ok _
    refine (FailsWith.mapM (fun m => FailsWith.map ?_ _) _).map _
    unfold irMatchToAppDbString
    split
    · exact irValueToAppDbString_reportable _
    · exact (irValueToAppDbString_reportable _).map _
    · exact (irValueToAppDbString_reportable _).bind fun v =>
        (irValueToAppDbString_reportable _).bind fun k => failsWith_ok _
    · exact irValueToAppDbString_reportable _
    · simp [Reportable]

theorem appDbParams_reportable (a : IrActionInvocation) : FailsWith Reportable (appDbParams a) :=
  FailsWith.mapM (fun _ => (irValueToAppDbString_reportable _).map _) _

theorem jsonText_reportable (b : Bytes) : FailsWith ReportableFailure (jsonText b) := by
  unfold jsonText
  split <;> simp [ReportableFailure]

theorem irTableEntryToAppDbValues_reportable (entry : IrTableEntry) :
    FailsWith ReportableFailure (irTableEntryToAppDbValues entry) := by
  refine FailsWith.map ?_ _
  cases entry.type with
  | action a => exact orFail_reportable ((appDbParams_reportable _).map _)
  | actionSet actions =>
    refine (orFail_reportable (FailsWith.mapM (fun a => appDbParams_reportable _) _)).bind fun params => ?_
    exact (FailsWith.mapM (fun a => jsonText_reportable _) _).bind fun ports => failsWith_ok _
  | notSet => simp [irActionToAppDbValues,ReportableFailure]

private theorem createAppDbP4rtUpdate_reportable (type : UpdateType) (entry : IrTableEntry) (info : IrP4Info) :
    FailsWith ReportableFailure (createAppDbP4rtUpdate type entry info) := by
  refine (orFail_reportable (getRedisP4rtTableKey_reportable _ _)).bind fun key => ?_
  split
  · exact (irTableEntryToAppDbValues_reportable _).map _
  · exact (irTableEntryToAppDbValues_reportable _).map _
  · simp
  · simp [ReportableFailure]

theorem vlanName_reportable (hexStr : String) : FailsWith Reportable (vlanName hexStr) := by
  unfold vlanName
  split
  · simp
  · split <;> simp

private theorem createAppDbVrfUpdate_reportable (type : UpdateType) (entry : IrTableEntry) :
    FailsWith Reportable (createAppDbVrfUpdate type entry) := by
  refine FailsWith.bind ?_ fun key => ?_
  · unfold getVrfTableKey
    split
    · simp
    · split <;> simp
  · split <;> simp [unsupportedUpdateType]

private theorem createAppDbVlanUpdate_reportable (type : UpdateType) (entry : IrTableEntry) :
    FailsWith Reportable (createAppDbVlanUpdate type entry) := by
  refine FailsWith.bind ?_ fun key => ?_
  · unfold getVlanTableKey
    split
    · simp
    · exact vlanName_reportable _
  · split <;> simp [unsupportedUpdateType]

private theorem createAppDbVlanMemberUpdate_reportable (type : UpdateType) (entry : IrTableEntry) :
    FailsWith Reportable (createAppDbVlanMemberUpdate type entry) := by
  refine FailsWith.bind ?_ fun key => ?_
  · refine FailsWith.bind (FailsWith.foldlM (fun acc m => ?_) _ _) fun p => ?_
    · split
      · exact (vlanName_reportable _).map _
      · split <;> simp
    · simp only
      split <;> simp
  · split <;> simp [unsupportedUpdateType]

private theorem createAppDbPacketReplicationTableUpdate_reportable (type : UpdateType) (entry : IrPacketReplicationEngineEntry) :
    FailsWith ReportableFailure (createAppDbPacketReplicationTableUpdate type entry) := by
  have hreplicas (replicas : List (Bytes × UInt32)) : FailsWith ReportableFailure (replicasJson replicas) :=
    (FailsWith.mapM (fun r => (jsonText_reportable _).map _) _).map _
  have hvalues (e : IrMulticastGroupEntry) : FailsWith ReportableFailure (createFieldValues e) :=
    (hreplicas _).bind fun _ => (FailsWith.mapM (fun r => hreplicas _) _).bind fun _ => failsWith_ok _
  unfold createAppDbPacketReplicationTableUpdate
  simp only
  split
  · exact (hvalues _).map _
  · exact (hvalues _).map _
  · simp
  · simp [ReportableFailure]

private theorem createAppDbUpdate_reportable (type : UpdateType) (entity : IrEntity) (info : IrP4Info) :
    FailsWith ReportableFailure (createAppDbUpdate type entity info) := by
  refine FailsWith.map ?_ _
  split
  · exact createAppDbPacketReplicationTableUpdate_reportable _ _
  · split
    · exact orFail_reportable (createAppDbVrfUpdate_reportable _ _)
    · exact orFail_reportable (createAppDbVlanUpdate_reportable _ _)
    · exact orFail_reportable (createAppDbVlanMemberUpdate_reportable _ _)
    · exact createAppDbP4rtUpdate_reportable _ _ _

private theorem verifyTableEntry_reportable (info : IrP4Info) (constraints : ConstraintInfo) (role : String) (u : Update)
    (ir : IrEntity) : FailsWith Reportable (verifyTableEntry info constraints role u ir) := by
  have hconstraints (e : TableEntry) : FailsWith Reportable (validateTableEntryConstraints e constraints) := by
    unfold validateTableEntryConstraints
    split
    · rename_i status hstatus
      exact (failsWith_error _).mpr (constraints.errorCode _ _ hstatus)
    · split <;> simp
  have hrole (name : String) : FailsWith Reportable (allowRoleAccessToTable role name info) := by
    unfold allowRoleAccessToTable
    split
    · simp
    · split
      · simp [Reportable]
      · split <;> simp [Reportable]
  unfold verifyTableEntry
  split
  · split
    · exact (hconstraints _).bind fun _ => hrole _
    · exact hrole _
  · simp

variable [InetText]

theorem piUpdateToEntityUpdate_reportable (info : IrP4Info) (constraints : ConstraintInfo) (t : SwitchTranslation)
    (role : String) (u : Update) : FailsWith ReportableFailure (piUpdateToEntityUpdate info constraints t role u) := by
  have hir : FailsWith Reportable (updateIr info u) :=
    (piEntityToIr_reportable _ _ _).mapError fun _ (hs : Reportable _) => (hs : Reportable ⟨_,_⟩)
  refine (orFail_reportable hir).bind fun ir => ?_
  refine (orFail_reportable (verifyTableEntry_reportable _ _ _ _ _)).bind fun _ => ?_
  refine (orFail_reportable (updateIrEntityForOrchAgent_reportable _ _)).bind fun entry => ?_
  refine FailsWith.bind ?_ fun key => (createAppDbUpdate_reportable _ _ _).bind fun _ => failsWith_ok _
  unfold updateKey
  split
  · simp [ReportableFailure]
  · rename_i pi _
    split
    · rename_i status hstatus
      cases pi <;> simp_all [makeEntityKey,ReportableFailure]
      all_goals subst hstatus; simp [Reportable,invalidArgument]
    · simp

omit [InetText] in
theorem admitEntityUpdate_reportable (info : IrP4Info) (cache : EntityCache) (capacities : ActionProfileCapacityMap)
    (s : AdmissionState) (u : EntityUpdate) : FailsWith Reportable (admitEntityUpdate info cache capacities s u) := by
  have hexists : FailsWith Reportable (verifyEntityCacheForExistence cache u) := by
    unfold verifyEntityCacheForExistence
    simp only
    split <;> [split; split; split; skip] <;> simp [Reportable]
  have hcapacity (c : ActionProfileResourceCapacity) (n : Int) (r : ActionProfileResources) (a : Int) (w : Int32) :
      FailsWith Reportable (verifyCapacity c n r a w) := by
    unfold verifyCapacity
    simp only
    split
    · split
      · simp
      · split
        · simp
        · split <;> simp [Reportable]
    · split
      · simp
      · split <;> simp [Reportable]
  have hchange : FailsWith Reportable
      (verifyCapacityAndGetTableResourceChange info u cache capacities s.resourcesInBatch) := by
    unfold verifyCapacityAndGetTableResourceChange
    split
    · simp
    · refine FailsWith.bind ?_ fun new => FailsWith.bind ?_ fun old => ?_
      · unfold newResources
        split
        · exact FailsWith.mapError (P := fun _ => True) (fun _ _ => trivial) fun _ _ => by simp
        · simp
      · unfold oldResources
        split
        · split
          · simp [Reportable]
          · exact FailsWith.mapError (P := fun _ => True) (fun _ _ => trivial) fun _ _ => by simp [Reportable]
        · simp
      · simp only
        split
        · simp
        · split
          · simp [Reportable]
          · exact (hcapacity _ _ _ _ _).bind fun _ => failsWith_ok _
  refine hexists.bind fun _ => hchange.bind fun change => FailsWith.bind ?_ fun _ => failsWith_ok _
  unfold batchDelta
  split
  · simp
  · split <;> simp [Reportable]

end SonicPins.P4rtApp
