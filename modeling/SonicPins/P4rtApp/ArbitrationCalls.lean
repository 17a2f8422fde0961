import Mathlib.Data.List.AList
import Mathlib.Tactic.Tauto
import SonicPins.P4rtApp.SdnControllerManager

/-! What each arbitration call does to the state. Every later invariant is
derived from these equations; the calls themselves are not unfolded again. -/
namespace SonicPins.P4rtApp
open Lib

namespace ControllerState
variable (s : ControllerState)

@[simp] theorem touchRole_deviceId (r : RoleName) : (s.touchRole r).deviceId = s.deviceId := by
  unfold touchRole; split <;> rfl
@[simp] theorem touchRole_connections (r : RoleName) : (s.touchRole r).connections = s.connections := by
  unfold touchRole; split <;> rfl
@[simp] theorem touchRole_object (r : RoleName) : (s.touchRole r).object = s.object := by
  unfold touchRole; split <;> rfl
@[simp] theorem touchRole_sent (r : RoleName) : (s.touchRole r).sent = s.sent := by
  unfold touchRole; split <;> rfl

@[simp] theorem touchRole_electionIdPast (r r' : RoleName) :
    (s.touchRole r).electionIdPast r' = s.electionIdPast r' := by
  unfold touchRole
  split
  · rfl
  · rename_i h
    by_cases hr : r' = r
    · subst hr
      have hn : s.electionIdPastByRole.lookup r' = none := AList.lookup_eq_none.mpr h
      simp [electionIdPast,hn]
    · simp [electionIdPast,AList.lookup_insert_ne hr]

@[simp] theorem setElectionIdPast_deviceId (r : RoleName) (id : Option Uint128) :
    (s.setElectionIdPast r id).deviceId = s.deviceId := rfl
@[simp] theorem setElectionIdPast_connections (r : RoleName) (id : Option Uint128) :
    (s.setElectionIdPast r id).connections = s.connections := rfl
@[simp] theorem setElectionIdPast_object (r : RoleName) (id : Option Uint128) :
    (s.setElectionIdPast r id).object = s.object := rfl
@[simp] theorem setElectionIdPast_sent (r : RoleName) (id : Option Uint128) :
    (s.setElectionIdPast r id).sent = s.sent := rfl

theorem setElectionIdPast_electionIdPast (r r' : RoleName) (id : Option Uint128) :
    (s.setElectionIdPast r id).electionIdPast r' = if r' = r then id else s.electionIdPast r' := by
  by_cases hr : r' = r
  · subst hr; simp [electionIdPast,setElectionIdPast]
  · simp [electionIdPast,setElectionIdPast,AList.lookup_insert_ne hr,hr]

end ControllerState

/-- Two states that arbitration responses cannot tell apart. -/
structure Agree (s t : ControllerState) : Prop where
  deviceId : s.deviceId = t.deviceId
  connections : s.connections = t.connections
  object : s.object = t.object
  past : ∀ r,s.electionIdPast r = t.electionIdPast r

namespace Agree
variable {s t u : ControllerState}

theorem rfl' (s : ControllerState) : Agree s s := ⟨rfl,rfl,rfl,fun _ => rfl⟩

theorem trans (h : Agree s t) (k : Agree t u) : Agree s u :=
  ⟨h.deviceId.trans k.deviceId,h.connections.trans k.connections,h.object.trans k.object,
    fun r => (h.past r).trans (k.past r)⟩

theorem primaryConnectionExists (h : Agree s t) (r : RoleName) :
    primaryConnectionExists s r = P4rtApp.primaryConnectionExists t r := by
  simp only [P4rtApp.primaryConnectionExists,h.connections,h.object,h.past]

theorem response (h : Agree s t) (c : ConnectionId) : arbitrationResponse s c = arbitrationResponse t c := by
  simp only [arbitrationResponse,h.deviceId,h.object,h.past,h.primaryConnectionExists]

end Agree

theorem sendArbitrationResponse_agree (s : ControllerState) (c : ConnectionId) :
    Agree (sendArbitrationResponse s c) s :=
  ⟨by simp [sendArbitrationResponse],by simp [sendArbitrationResponse],by simp [sendArbitrationResponse],
    fun r => s.touchRole_electionIdPast _ r⟩

@[simp] theorem sendArbitrationResponse_sent (s : ControllerState) (c : ConnectionId) :
    (sendArbitrationResponse s c).sent = s.sent ++ [(c,arbitrationResponse s c)] := rfl

private theorem inform_fold (role : RoleName) (s : ControllerState) (cs : List ConnectionId) (t : ControllerState)
    (ha : Agree t s) :
    let f := fun t c => if (t.object c).roleName = role then sendArbitrationResponse t c else t
    Agree (cs.foldl f t) s ∧ (cs.foldl f t).sent =
      t.sent ++ (cs.filter (fun c => (s.object c).roleName = role)).map (fun c => (c,arbitrationResponse s c)) := by
  intro f
  induction cs generalizing t with
  | nil => exact ⟨ha,by simp⟩
  | cons c cs ih =>
    simp only [List.foldl_cons]
    by_cases hc : (s.object c).roleName = role
    · have hf : f t c = sendArbitrationResponse t c := by simp [f,ha.object,hc]
      obtain ⟨hg,hs⟩ := ih _ ((sendArbitrationResponse_agree t c).trans ha)
      rw [hf]
      refine ⟨hg,?_⟩
      rw [hs,sendArbitrationResponse_sent,ha.response]
      simp [hc]
    · have hf : f t c = t := by simp [f,ha.object,hc]
      obtain ⟨hg,hs⟩ := ih t ha
      rw [hf]
      exact ⟨hg,by rw [hs]; simp [hc]⟩

theorem informConnections_agree (role : RoleName) (s : ControllerState) :
    Agree (informConnectionsAboutPrimaryChange role s) s :=
  (inform_fold role s s.connections s (.rfl' s)).1

theorem informConnections_sent (role : RoleName) (s : ControllerState) :
    (informConnectionsAboutPrimaryChange role s).sent = s.sent ++
      (s.connections.filter (fun c => (s.object c).roleName = role)).map (fun c => (c,arbitrationResponse s c)) :=
  (inform_fold role s s.connections s (.rfl' s)).2

/-- The highest id of a role after a connection of the role presented `new`. -/
def raiseElectionId (past new : Option Uint128) : Option Uint128 :=
  if isNewPrimary new past then new else past

/-- The state whose responses `settlePrimary` leaves behind: only the role's
highest election id may have changed. -/
def settledState (role : RoleName) (newId : Option Uint128) (s : ControllerState) : ControllerState :=
  s.setElectionIdPast role (raiseElectionId (s.electionIdPast role) newId)

theorem settledState_past (role r : RoleName) (newId : Option Uint128) (s : ControllerState) :
    (settledState role newId s).electionIdPast r =
      if r = role then raiseElectionId (s.electionIdPast role) newId else s.electionIdPast r :=
  s.setElectionIdPast_electionIdPast role r _

private theorem settledState_raised {role : RoleName} {newId : Option Uint128} {s : ControllerState}
    (hn : isNewPrimary newId (s.electionIdPast role) = true) :
    Agree ((s.touchRole role).setElectionIdPast role newId) (settledState role newId s) := by
  refine ⟨by simp [settledState],by simp [settledState],by simp [settledState],fun r => ?_⟩
  rw [settledState_past,ControllerState.setElectionIdPast_electionIdPast]
  simp [raiseElectionId,hn]

private theorem settledState_kept {role : RoleName} {newId : Option Uint128} {s : ControllerState}
    (hn : isNewPrimary newId (s.electionIdPast role) = false) :
    Agree (s.touchRole role) (settledState role newId s) := by
  refine ⟨by simp [settledState],by simp [settledState],by simp [settledState],fun r => ?_⟩
  rw [settledState_past,ControllerState.touchRole_electionIdPast]
  by_cases hr : r = role <;> simp [raiseElectionId,hn,hr]

/-- The connections an accepted arbitration speaks to. -/
def informedBySettling (c : ConnectionId) (role : RoleName) (oldId newId : Option Uint128) (s : ControllerState) :
    List ConnectionId :=
  if isNewPrimary newId (s.electionIdPast role) || (oldId.isSome && oldId = s.electionIdPast role) then
    s.connections.filter (fun c => (s.object c).roleName = role)
  else [c]

theorem settlePrimary_spec (c : ConnectionId) (role : RoleName) (oldId newId : Option Uint128) (s : ControllerState) :
    Agree (settlePrimary c role oldId newId s) (settledState role newId s) ∧
    (settlePrimary c role oldId newId s).sent = s.sent ++ (informedBySettling c role oldId newId s).map
      (fun c => (c,arbitrationResponse (settledState role newId s) c)) := by
  unfold settlePrimary informedBySettling
  simp only [ControllerState.touchRole_electionIdPast]
  cases hn : isNewPrimary newId (s.electionIdPast role) with
  | true =>
    have ha := settledState_raised hn
    refine ⟨(informConnections_agree _ _).trans ha,?_⟩
    simp only [if_true,informConnections_sent,ha.response,Bool.true_or]
    simp
  | false =>
    have ha := settledState_kept hn
    by_cases hw : (oldId.isSome && oldId = s.electionIdPast role) = true
    · simp only [hw,Bool.false_or,if_true,if_false,Bool.false_eq_true]
      refine ⟨(informConnections_agree _ _).trans ha,?_⟩
      simp [informConnections_sent,ha.response]
    · simp only [hw,Bool.false_or,if_false,Bool.false_eq_true]
      refine ⟨(sendArbitrationResponse_agree _ _).trans ha,?_⟩
      simp [ha.response]

/-- What the registration step accepts and what it changes. -/
structure Registered (update : MasterArbitrationUpdate) (c : ConnectionId) (s t : ControllerState) : Prop where
  deviceId : s.deviceId = some update.deviceId
  role : (s.object c).initialized = true → (s.object c).roleName = update.roleName
  unused : update.newElectionId ≠ none → ∀ c' ∈ s.connections,c' ≠ c →
    (s.object c').roleName = update.roleName → (s.object c').electionId ≠ update.newElectionId
  result : t = { s.setObject c ⟨true,update.roleName,update.newElectionId⟩ with
    connections := if (s.object c).initialized then s.connections else s.connections ++ [c] }

private theorem unused_of_ok {r : RoleName} {e : Option Uint128} {s : ControllerState} {c : ConnectionId}
    (h : (verifyElectionIdIsUnused r e s c).isOk = true) :
    e ≠ none → ∀ c' ∈ s.connections,c' ≠ c → (s.object c').roleName = r → (s.object c').electionId ≠ e := by
  intro he c' hc hne hr hid
  have hex : s.connections.any (fun c' =>
      c' ≠ c && (s.object c').roleName = r && (s.object c').electionId = e) = true :=
    List.any_eq_true.mpr ⟨c',hc,by simp [hne,hr,hid]⟩
  unfold verifyElectionIdIsUnused at h
  rw [if_neg (by simpa using he),if_pos hex] at h
  exact absurd h (by decide)

private theorem registerConnection_ok {update : MasterArbitrationUpdate} {c : ConnectionId} {d : UInt64}
    {s t : ControllerState} (hd : s.deviceId = some d) (h : registerConnection update c d s = .ok t) :
    Registered update c s t := by
  unfold registerConnection at h
  simp only at h
  cases hi : (s.object c).initialized with
  | false =>
    simp only [hi,Bool.not_false,if_true] at h
    split at h
    · cases h
    · rename_i hdev
      split at h
      · cases h
      · rename_i hu
        injection h with h
        refine ⟨by rw [hd,not_not.mp hdev],by simp [hi],unused_of_ok (by simpa using hu),?_⟩
        rw [← h]; simp [hi]
  | true =>
    simp only [hi,Bool.not_true] at h
    split at h
    · simp at *
    · split at h
      · cases h
      · rename_i hdev
        split at h
        · cases h
        · rename_i hrole
          split at h
          · cases h
          · rename_i hu
            injection h with h
            refine ⟨by rw [hd,not_not.mp hdev],fun _ => (not_not.mp hrole).symm,
              unused_of_ok (by simpa using hu),?_⟩
            rw [← h,not_not.mp hrole]; simp [hi,ControllerState.setObject]

private theorem registerConnection_error {update : MasterArbitrationUpdate} {c : ConnectionId} {d : UInt64}
    {s : ControllerState} {status : Status} (h : registerConnection update c d s = .error status) :
    status.isOk = false := by
  unfold registerConnection at h
  simp only at h
  repeat' split at h
  all_goals first
    | (cases h; done)
    | (cases h; rfl)
    | (cases h; simp_all)

theorem handleArbitrationUpdate_cases (update : MasterArbitrationUpdate) (c : ConnectionId) (s : ControllerState) :
    ((handleArbitrationUpdate update c s).2.isOk = false ∧ (handleArbitrationUpdate update c s).1 = s) ∨
    ∃ t,Registered update c s t ∧ handleArbitrationUpdate update c s =
      (settlePrimary c update.roleName (s.object c).electionId update.newElectionId t,.okStatus) := by
  unfold handleArbitrationUpdate
  cases hd : s.deviceId with
  | none => exact .inl ⟨rfl,rfl⟩
  | some d =>
    simp only
    cases hr : registerConnection update c d s with
    | error status => exact .inl ⟨registerConnection_error hr,rfl⟩
    | ok t => exact .inr ⟨t,registerConnection_ok hd hr,rfl⟩

/-- The connections that learn about a disconnect. -/
def informedByDisconnect (c : ConnectionId) (s : ControllerState) : List ConnectionId :=
  if (s.object c).electionId.isSome && (s.object c).electionId = s.electionIdPast (s.object c).roleName then
    (s.connections.erase c).filter (fun a => (s.object a).roleName = (s.object c).roleName)
  else []

theorem disconnect_spec (c : ConnectionId) (s : ControllerState) (hi : (s.object c).initialized = true) :
    Agree (disconnect c s) { s with connections := s.connections.erase c } ∧
    (disconnect c s).sent = s.sent ++ (informedByDisconnect c s).map
      (fun a => (a,arbitrationResponse { s with connections := s.connections.erase c } a)) := by
  have ht (r : RoleName) : Agree (ControllerState.touchRole r { s with connections := s.connections.erase c })
      { s with connections := s.connections.erase c } :=
    ⟨by simp,by simp,by simp,fun r' => ControllerState.touchRole_electionIdPast _ r r'⟩
  have hp : ControllerState.electionIdPast { s with connections := s.connections.erase c } = s.electionIdPast := rfl
  unfold disconnect informedByDisconnect
  simp only [hi,Bool.not_true,Bool.false_eq_true,if_false,ControllerState.touchRole_electionIdPast,hp]
  cases hset : (s.object c).electionId.isSome with
  | false => exact ⟨.rfl' _,by simp⟩
  | true =>
    by_cases heq : (s.object c).electionId = s.electionIdPast (s.object c).roleName
    · simp only [heq,if_true,decide_true,Bool.and_self]
      refine ⟨(informConnections_agree _ _).trans (ht _),?_⟩
      simp [informConnections_sent,(ht _).response]
    · simp only [heq,if_true,if_false,decide_false,Bool.and_false]
      exact ⟨ht _,by simp⟩

theorem disconnect_uninitialized (c : ConnectionId) (s : ControllerState) (hi : (s.object c).initialized = false) :
    disconnect c s = s := by
  simp [disconnect,hi]

theorem setDeviceId_cases (d : UInt64) (s : ControllerState) :
    (setDeviceId d s).1 = s ∨ s.connections = [] ∧ ∃ id,id ≠ some 0 ∧ (setDeviceId d s).1 = { s with deviceId := id } := by
  unfold setDeviceId
  split
  · exact .inl rfl
  · split
    · exact .inl rfl
    · rename_i hc
      refine .inr ⟨by simpa using hc,?_⟩
      split
      · exact ⟨none,by simp,rfl⟩
      · rename_i hz
        exact ⟨some d,by simpa using hz,rfl⟩

end SonicPins.P4rtApp
