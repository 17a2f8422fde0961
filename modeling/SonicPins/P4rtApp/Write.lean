import SonicPins.P4rtApp.ResourceUtilization
import SonicPins.P4rtApp.SdnControllerManager
import SonicPins.Pdpi.P4InfoConsistency
import SonicPins.Pdpi.WriteRpcStatus

/-! The Write RPC: translation and admission of the updates of a request, the
AppDb updates, the per-update statuses and the bookkeeping after them. -/
namespace SonicPins.P4rtApp
open Lib Pdpi Sonic

/-- A gRPC status; `details` holds the error of every update of a batch. -/
structure GrpcStatus where
  code : StatusCode
  message : String := ""
  details : List Status := []
  deriving DecidableEq

def GrpcStatus.okStatus : GrpcStatus := { code := .ok }

def GrpcStatus.ofStatus (s : Status) : GrpcStatus := { code := s.code,message := s.message }

/-- `p4.v1.ForwardingPipelineConfig`, by the file contents it stands for. -/
structure ForwardingPipelineConfig where
  p4info : String := ""
  p4DeviceConfig : Bytes := []
  cookie : UInt64 := 0
  deriving DecidableEq

/-- The members of `P4RuntimeImpl` that requests read or change. The constraints
are set with the P4Info. -/
structure ServerState where
  controllers : ControllerState
  irP4Info : Option AcceptedP4Info := none
  constraintInfo : Option ConstraintInfo := none
  forwardingPipelineConfig : Option ForwardingPipelineConfig := none
  capacityByActionProfileName : ActionProfileCapacityMap := ∅
  entityCache : EntityCache
  translation : SwitchTranslation
  constraintsSet : irP4Info.isSome = true → constraintInfo.isSome = true

structure WriteRequest extends MutableRequest where
  updates : List Update := []

section Admission

/-- An update that is sent to the lower layers, with the change it makes. -/
structure PlannedUpdate where
  update : EntityUpdate
  change : TableResources

def updateTypeNumber (type : UpdateType) : String := decimal (UpdateType.number type)

def getKeyErrorMessage (entity : IrEntity) (extra : String) : String :=
  match entity with
  | .tableEntry e => "[P4RT App] Table entry with the given key " ++ extra ++ " in table '" ++ e.tableName ++ "'"
  | .packetReplicationEngineEntry e =>
    "[P4RT App] Packet Replication Engine entry with key of multicast group ID '" ++
      natText (mutableMulticastGroupEntry e).multicastGroupId.toNat ++ "' " ++ extra

def verifyEntityCacheForExistence (cache : EntityCache) (u : EntityUpdate) : StatusOr Unit :=
  let found := (cache.entries.lookup u.entityKey).isSome
  match u.updateType with
  | .insert => if found then .error ⟨.alreadyExists,getKeyErrorMessage u.entry "already exists"⟩ else .ok ()
  | .modify | .delete =>
    if found then .ok () else .error ⟨.notFound,getKeyErrorMessage u.entry "does not exist"⟩
  | other => .error ⟨.internal,"Invalid Update Type: " ++ updateTypeNumber other⟩

/-- The local variables of the loop over the updates of a request. -/
structure AdmissionState where
  keysInRequest : List EntityKey := []
  resourcesInBatch : String → Int := fun _ => 0
  updates : List PlannedUpdate := []
  statuses : List Status := []
  hasDuplicates : Bool := false

/-- What an update adds to the resources of the batch, by the semantics of the
profile it changes. -/
def batchDelta (info : IrP4Info) (change : TableResources) : StatusOr (Option (String × Int)) :=
  match change.actionProfile with
  | none => .ok none
  | some r => match info.actionProfilesByName.lookup r.name with
    | none => .error ⟨.notFound,"[P4RT App] Could not find the action profile definition for '" ++ r.name ++ "'"⟩
    | some profile => .ok (some (r.name,countedResources profile.sumOfMembers.isSome r))

def addDelta (resources : String → Int) (delta : Option (String × Int)) : String → Int :=
  match delta with
  | none => resources
  | some (name,amount) => Function.update resources name (resources name + amount)

def duplicateKeyStatus : Status := ⟨.invalidArgument,"[P4RT App] Found duplicated key in the same batch request."⟩

variable [InetText] (info : IrP4Info) (constraints : ConstraintInfo) (translation : SwitchTranslation)
  (cache : EntityCache) (capacities : ActionProfileCapacityMap) (role : String)

/-- The checks of a translated update whose key is new in the request. -/
def admitEntityUpdate (s : AdmissionState) (u : EntityUpdate) : StatusOr (TableResources × Option (String × Int)) := do
  verifyEntityCacheForExistence cache u
  let change ← verifyCapacityAndGetTableResourceChange info u cache capacities s.resourcesInBatch
  let delta ← batchDelta info change
  .ok (change,delta)

def AdmissionState.push (s : AdmissionState) (u : EntityUpdate) (change : TableResources) (delta : Option (String × Int)) :
    AdmissionState :=
  { s with
    keysInRequest := u.entityKey :: s.keysInRequest,
    resourcesInBatch := addDelta s.resourcesInBatch delta,
    updates := s.updates ++ [⟨u,change⟩],
    statuses := s.statuses ++ [.okStatus] }

/-- The loop over the updates, which stops at the first one that is refused. -/
def admitUpdates : List Update → AdmissionState → Fallible AdmissionState
  | [],s => .ok s
  | pi :: rest,s => match piUpdateToEntityUpdate info constraints translation role pi with
    | .error (.thrown what) => .error (.thrown what)
    | .error (.status status) => .ok { s with statuses := s.statuses ++ [status] }
    | .ok u =>
      if u.entityKey ∈ s.keysInRequest then
        .ok { s with statuses := s.statuses ++ [.okStatus],hasDuplicates := true }
      else match admitEntityUpdate info cache capacities s u with
        | .error status => .ok { s with statuses := s.statuses ++ [status] }
        | .ok (change,delta) => admitUpdates rest (s.push u change delta)

def fillAborted (statuses : List Status) (count : Nat) : List Status :=
  statuses ++ List.replicate (count - statuses.length) notAttempted

/-- The planned updates and the statuses of the whole request; status `i` belongs
to update `i`. -/
def piEntityUpdatesToIr (updates : List Update) : Fallible (List PlannedUpdate × List Status) :=
  (admitUpdates info constraints translation cache capacities role updates {}).map fun s =>
    if s.hasDuplicates then ([],fillAborted [duplicateKeyStatus] updates.length)
    else (s.updates,fillAborted s.statuses updates.length)

end Admission

/-- Every failure after the first one is reported as aborted. -/
def abortAfterFirstFailure : Bool → List Status → List Status
  | _,[] => []
  | found,s :: rest =>
    if s.isOk then s :: abortAfterFirstFailure found rest
    else (if found then { s with code := .aborted } else s) :: abortAfterFirstFailure true rest

def codeNumber (c : StatusCode) : Int32 := Int32.ofNat c.ctorIdx

def getIrUpdateStatus (s : Status) : IrUpdateStatus := ⟨codeNumber s.code,s.message⟩

/-- A status with the errors in its details unpacked. -/
def GrpcStatus.unpacked (g : Grpc.Status) : GrpcStatus where
  code := (statusCode? g.errorCode).getD .unknown
  message := g.errorMessage
  details := match g.errorDetails with
    | .rpcStatus inner => inner.details.filterMap fun
      | .p4Error e => some ⟨(statusCode? e.canonicalCode).getD .unknown,e.message⟩
      | .other _ => none
    | _ => []

def writeAnswer (statuses : List Status) : StatusOr GrpcStatus :=
  (irWriteRpcStatusToGrpcStatus (.rpcResponse (statuses.map getIrUpdateStatus))).map GrpcStatus.unpacked

def EntityCache.insert (c : EntityCache) (k : EntityKey) (e : Entity) (h : makeEntityKey e = .ok k) : EntityCache where
  entries := c.entries.insert k e
  keyed := by
    intro k' e' hl
    by_cases hk : k' = k
    · rw [hk,AList.lookup_insert] at hl
      rw [hk,← Option.some.inj hl,h]
    · rw [AList.lookup_insert_ne hk] at hl
      exact c.keyed k' e' hl

def EntityCache.erase (c : EntityCache) (k : EntityKey) : EntityCache where
  entries := c.entries.erase k
  keyed := by
    intro k' e' hl
    by_cases hk : k' = k
    · rw [hk,AList.lookup_erase] at hl
      cases hl
    · rw [AList.lookup_erase_ne hk] at hl
      exact c.keyed k' e' hl

def EntityCache.apply (c : EntityCache) (u : EntityUpdate) : StatusOr EntityCache :=
  match u.updateType with
  | .insert | .modify => .ok (c.insert u.entityKey u.piEntity u.keyed)
  | .delete => (makeEntityKey u.piEntity).map c.erase
  | other => .error ⟨.internal,"Invalid Update Type: " ++ UpdateType.typeName other⟩

def addUtilization (capacities : ActionProfileCapacityMap) (change : TableResources) :
    StatusOr ActionProfileCapacityMap :=
  match change.actionProfile with
  | none => .ok capacities
  | some r => match capacities.lookup r.name with
    | none => .error ⟨.internal,"Could not find action profile utilization for '" ++ r.name ++
        "' which needs to be updated."⟩
    | some c => .ok (capacities.insert r.name { c with
        currentTotalWeight := c.currentTotalWeight + r.totalWeight,
        currentTotalMembers := c.currentTotalMembers + r.numberOfActions })

/-- Applies the updates that ended OK, in place: an error leaves what was done. -/
def updateCacheAndUtilizationState : List (PlannedUpdate × Status) → EntityCache × ActionProfileCapacityMap →
    (EntityCache × ActionProfileCapacityMap) × Status
  | [],state => (state,.okStatus)
  | (p,status) :: rest,(cache,capacities) =>
    if !status.isOk then updateCacheAndUtilizationState rest (cache,capacities)
    else match cache.apply p.update with
      | .error e => ((cache,capacities),e)
      | .ok cache => match addUtilization capacities p.change with
        | .error e => ((cache,capacities),e)
        | .ok capacities => updateCacheAndUtilizationState rest (cache,capacities)

def enterCriticalState (message : String) : GrpcStatus :=
  { code := .internal,message := "[P4RT App going CRITICAL] " ++ message }

variable [InetText]

/-- The checks of a request before its updates are looked at. -/
def requestStatus (s : ServerState) (r : WriteRequest) : Status :=
  let connection := allowRequest r.toMutableRequest s.controllers
  if !connection.isOk then connection
  else if s.irP4Info.isNone then
    ⟨.failedPrecondition,"Switch has not configured the forwarding pipeline."⟩
  else .okStatus

/-- The updates and statuses of a request under the current pipeline; the pipeline
is present when the request's checks pass. -/
def plan (s : ServerState) (r : WriteRequest) : Fallible (List PlannedUpdate × List Status) :=
  match s.irP4Info,s.constraintInfo with
  | some info,some constraints =>
    piEntityUpdatesToIr info.toIrP4Info constraints s.translation s.entityCache s.capacityByActionProfileName r.role
      r.updates
  | _,_ => .ok ([],[])

/-- The updates as `PerformAppDbUpdates` receives them, each with the position of
its status. -/
def appDbUpdates (updates : List PlannedUpdate) : List (AppDbUpdate × Nat) :=
  (updates.map fun p => p.update.appDbUpdate).zipIdx

/-- The server after a Write and the answer to the controller. -/
def write (lower : LowerLayer) (s : ServerState) (r : WriteRequest) : ServerState × GrpcStatus :=
  let checked := requestStatus s r
  if !checked.isOk then (s,.ofStatus checked)
  else match plan s r with
    | .error (.thrown what) => (s,enterCriticalState ("Exception caught in Write, error:" ++ what))
    | .error (.status status) => (s,.ofStatus status)
    | .ok (updates,statuses) => match performAppDbUpdates lower (appDbUpdates updates) statuses with
      | .error (status,_) => (s,enterCriticalState ("Unexpected error calling UpdateAppDb: " ++ status.message))
      | .ok (_,statuses,_) =>
        let statuses := abortAfterFirstFailure false statuses
        match writeAnswer statuses with
        | .error status => (s,enterCriticalState status.message)
        | .ok grpcStatus =>
          let ((cache,capacities),result) := updateCacheAndUtilizationState (updates.zip statuses)
            (s.entityCache,s.capacityByActionProfileName)
          ({ s with entityCache := cache,capacityByActionProfileName := capacities },
            if result.isOk then grpcStatus else enterCriticalState result.message)

end SonicPins.P4rtApp
