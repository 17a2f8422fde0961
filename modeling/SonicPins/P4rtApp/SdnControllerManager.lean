import Mathlib.Algebra.Group.Nat.Defs
import Mathlib.Data.List.AList
import Mathlib.Data.Fin.Basic
import SonicPins.Lib.Status

/-! Controller arbitration: the connection list, the highest election id of each
role, and the notifications written to the streams. The lock makes every call
atomic, so a call is a function of the whole state. -/
namespace SonicPins.P4rtApp
open Lib

abbrev Uint128 := Fin (2 ^ 128)

def makeUint128 (high low : UInt64) : Uint128 :=
  ⟨high.toNat * 2 ^ 64 + low.toNat,by
    have hh := high.toNat_lt
    have hl := low.toNat_lt
    omega⟩

/-- `p4.v1.Uint128`. -/
structure ElectionId where
  high : UInt64
  low : UInt64
  deriving DecidableEq,Repr

def ElectionId.value (e : ElectionId) : Uint128 := makeUint128 e.high e.low

def ElectionId.ofValue (v : Uint128) : ElectionId :=
  ⟨UInt64.ofNat (v.val / 2 ^ 64),UInt64.ofNat (v.val % 2 ^ 64)⟩

theorem ElectionId.value_ofValue (v : Uint128) : (ElectionId.ofValue v).value = v := by
  have hv := v.isLt
  apply Fin.ext
  simp only [value,ofValue,makeUint128,UInt64.toNat_ofNat']
  omega

/-- A role name; no value is the default (root) role. -/
abbrev RoleName := Option String

/-- `p4.v1.MasterArbitrationUpdate`; `role` is the role's name when `has_role`. -/
structure MasterArbitrationUpdate where
  deviceId : UInt64 := 0
  role : Option String := none
  electionId : Option ElectionId := none
  status : Option Status := none
  deriving DecidableEq,Repr

/-- The role an update speaks for: an empty role name means the root role. -/
def MasterArbitrationUpdate.roleName (u : MasterArbitrationUpdate) : RoleName :=
  match u.role with
  | some name => if name.isEmpty then none else some name
  | none => none

def MasterArbitrationUpdate.newElectionId (u : MasterArbitrationUpdate) : Option Uint128 :=
  u.electionId.map ElectionId.value

/-- The address of an `SdnConnection` object. -/
abbrev ConnectionId := Nat

structure SdnConnection where
  initialized : Bool := false
  roleName : RoleName := none
  electionId : Option Uint128 := none

/-- The members of `SdnControllerManager`, the connection objects its list points
to, and every arbitration message written to a stream, oldest first. -/
structure ControllerState where
  deviceId : Option UInt64 := none
  connections : List ConnectionId := []
  electionIdPastByRole : AList (fun _ : RoleName => Option Uint128) := ∅
  object : ConnectionId → SdnConnection := fun _ => {}
  sent : List (ConnectionId × MasterArbitrationUpdate) := []

namespace ControllerState

/-- The value `election_id_past_by_role_[role]` reads. -/
def electionIdPast (s : ControllerState) (role : RoleName) : Option Uint128 :=
  (s.electionIdPastByRole.lookup role).getD none

/-- The default entry that reading through `operator[]` leaves behind. -/
def touchRole (role : RoleName) (s : ControllerState) : ControllerState :=
  if role ∈ s.electionIdPastByRole then s
  else { s with electionIdPastByRole := s.electionIdPastByRole.insert role none }

def setElectionIdPast (role : RoleName) (id : Option Uint128) (s : ControllerState) : ControllerState :=
  { s with electionIdPastByRole := s.electionIdPastByRole.insert role id }

def setObject (c : ConnectionId) (o : SdnConnection) (s : ControllerState) : ControllerState :=
  { s with object := Function.update s.object c o }

end ControllerState

def prettyPrintRoleName : RoleName → String
  | some name => "'" ++ name ++ "'"
  | none => "<default>"

def prettyPrintDeviceId : Option UInt64 → String
  | some id => "'" ++ toString id ++ "'"
  | none => "<unset>"

def verifyElectionIdIsUnused (roleName : RoleName) (electionId : Option Uint128) (s : ControllerState)
    (current : ConnectionId) : Status :=
  if electionId.isNone then .okStatus
  else if s.connections.any (fun c =>
      c ≠ current && (s.object c).roleName = roleName && (s.object c).electionId = electionId) then
    ⟨.invalidArgument,"Election ID is already used by another connection with the same role."⟩
  else .okStatus

def verifyElectionIdIsActive (roleName : RoleName) (electionId : Option Uint128) (s : ControllerState) : Status :=
  if s.connections.any (fun c => (s.object c).roleName = roleName && (s.object c).electionId = electionId) then
    .okStatus
  else ⟨.permissionDenied,"Election ID is not active for the role."⟩

def primaryConnectionExists (s : ControllerState) (roleName : RoleName) : Bool :=
  s.connections.any (fun c =>
    (s.object c).roleName = roleName && (s.object c).electionId = s.electionIdPast roleName) &&
    (s.electionIdPast roleName).isSome

/-- The message `SendArbitrationResponse` builds for a connection. -/
def arbitrationResponse (s : ControllerState) (c : ConnectionId) : MasterArbitrationUpdate where
  deviceId := s.deviceId.getD 0
  role := (s.object c).roleName
  electionId := (s.electionIdPast (s.object c).roleName).map ElectionId.ofValue
  status := some (
    if primaryConnectionExists s (s.object c).roleName then
      if s.electionIdPast (s.object c).roleName = (s.object c).electionId then
        ⟨.ok,"you are the primary connection."⟩
      else ⟨.alreadyExists,"you are a backup connection, and a primary connection exists."⟩
    else ⟨.notFound,"you are a backup connection, and NO primary connection exists."⟩)

def sendArbitrationResponse (s : ControllerState) (c : ConnectionId) : ControllerState :=
  { s.touchRole (s.object c).roleName with sent := s.sent ++ [(c,arbitrationResponse s c)] }

def informConnectionsAboutPrimaryChange (roleName : RoleName) (s : ControllerState) : ControllerState :=
  s.connections.foldl
    (fun t c => if (t.object c).roleName = roleName then sendArbitrationResponse t c else t) s

/-- The checks of `HandleArbitrationUpdate` and the registration they guard. A
first message creates the connection; a later one may change its election id only. -/
def registerConnection (update : MasterArbitrationUpdate) (controller : ConnectionId) (deviceId : UInt64)
    (s : ControllerState) : Except Status ControllerState :=
  let object := s.object controller
  let unused := verifyElectionIdIsUnused update.roleName update.newElectionId s controller
  if !object.initialized then
    if update.deviceId ≠ deviceId then
      .error ⟨.notFound,"Arbitration request has the wrong device ID '" ++ toString update.deviceId ++
        "'. Cannot establish connection to this device '" ++ toString deviceId ++ "'."⟩
    else if !unused.isOk then .error unused
    else .ok { s.setObject controller ⟨true,update.roleName,update.newElectionId⟩ with
      connections := s.connections ++ [controller] }
  else if update.deviceId ≠ deviceId then
    .error ⟨.failedPrecondition,"Arbitration request cannot change the device ID from '" ++ toString deviceId ++
      "' to '" ++ toString update.deviceId ++ "'."⟩
  else if update.roleName ≠ object.roleName then
    .error ⟨.failedPrecondition,"Arbitration request cannot change the role from " ++
      prettyPrintRoleName object.roleName ++ " to " ++ prettyPrintRoleName update.roleName ++ "."⟩
  else if !unused.isOk then .error unused
  else .ok (s.setObject controller { object with electionId := update.newElectionId })

/-- `connection_is_new_primary`: a set id that is not below the highest one so far. -/
def isNewPrimary : Option Uint128 → Option Uint128 → Bool
  | none,_ => false
  | some _,none => true
  | some new,some past => past ≤ new

/-- The part of `HandleArbitrationUpdate` after the registration: raise the highest
election id if needed and inform one connection or the whole role. -/
def settlePrimary (controller : ConnectionId) (roleName : RoleName) (oldId newId : Option Uint128)
    (s : ControllerState) : ControllerState :=
  let s := s.touchRole roleName
  let past := s.electionIdPast roleName
  let wasPrimary := oldId.isSome && oldId = past
  if isNewPrimary newId past then
    informConnectionsAboutPrimaryChange roleName (s.setElectionIdPast roleName newId)
  else if wasPrimary then informConnectionsAboutPrimaryChange roleName s
  else sendArbitrationResponse s controller

def handleArbitrationUpdate (update : MasterArbitrationUpdate) (controller : ConnectionId) (s : ControllerState) :
    ControllerState × Status :=
  match s.deviceId with
  | none => (s,⟨.failedPrecondition,"Switch does not have a Device ID. Has a config been pushed?"⟩)
  | some deviceId =>
    match registerConnection update controller deviceId s with
    | .error status => (s,status)
    | .ok t => (settlePrimary controller update.roleName (s.object controller).electionId update.newElectionId t,
        .okStatus)

def disconnect (connection : ConnectionId) (s : ControllerState) : ControllerState :=
  let object := s.object connection
  if !object.initialized then s
  else
    let t := { s with connections := s.connections.erase connection }
    if object.electionId.isSome then
      let t := t.touchRole object.roleName
      if object.electionId = t.electionIdPast object.roleName then
        informConnectionsAboutPrimaryChange object.roleName t
      else t
    else t

def setDeviceId (deviceId : UInt64) (s : ControllerState) : ControllerState × Status :=
  if s.deviceId = some deviceId then (s,.okStatus)
  else if !s.connections.isEmpty then
    (s,⟨.failedPrecondition,"Device ID cannot be changed while a controller is connected."⟩)
  else if deviceId = 0 then ({ s with deviceId := none },.okStatus)
  else ({ s with deviceId := some deviceId },.okStatus)

def allowMutableRequest (deviceId : Option UInt64) (roleName : RoleName) (electionId : Option Uint128)
    (s : ControllerState) : Status :=
  match deviceId with
  | none => ⟨.notFound,"Request does not have a device ID."⟩
  | some id =>
    if some id ≠ s.deviceId then
      ⟨.notFound,"Request's device ID '" ++ toString id ++ "' does not the match switch's " ++
        prettyPrintDeviceId s.deviceId ++ "."⟩
    else if electionId.isNone then ⟨.permissionDenied,"Request does not have an election ID."⟩
    else match s.electionIdPastByRole.lookup roleName with
      | none => ⟨.permissionDenied,"Only the primary connection can issue requests, but " ++
          "no primary connection has been established."⟩
      | some past =>
        if electionId ≠ past then ⟨.permissionDenied,"Only the primary connection can issue requests."⟩
        else verifyElectionIdIsActive roleName electionId s

/-- The fields of a `WriteRequest` or `SetForwardingPipelineConfigRequest` that
decide whether it may mutate the switch. -/
structure MutableRequest where
  deviceId : UInt64 := 0
  role : String := ""
  electionId : Option ElectionId := none
  deriving DecidableEq,Repr

def MutableRequest.roleName (r : MutableRequest) : RoleName :=
  if r.role.isEmpty then none else some r.role

/-- `AllowRequest` for the two mutating request types. -/
def allowRequest (r : MutableRequest) (s : ControllerState) : Status :=
  allowMutableRequest (if r.deviceId ≠ 0 then some r.deviceId else none) r.roleName
    (r.electionId.map ElectionId.value) s

end SonicPins.P4rtApp
