import Mathlib.Order.Fin.Basic
import Mathlib.Data.List.MinMax
import SonicPins.Lib.History
import SonicPins.P4rtApp.ArbitrationCalls

/-! Runs of arbitration, disconnect, device id and mutable-request calls on behalf
of any number of connections, and the invariant that every such run keeps. -/
namespace SonicPins.P4rtApp
open Lib

inductive Call where
  | arbitrate (update : MasterArbitrationUpdate) (c : ConnectionId)
  | disconnect (c : ConnectionId)
  | setDeviceId (d : UInt64)
  | mutableRequest (r : MutableRequest)
  deriving DecidableEq

/-- One call under the manager's lock, with the status it returns. -/
def step : Call → ControllerState → ControllerState × Status
  | .arbitrate update c,s => handleArbitrationUpdate update c s
  | .disconnect c,s => (disconnect c s,.okStatus)
  | .setDeviceId d,s => setDeviceId d s
  | .mutableRequest r,s => (s,allowRequest r s)

abbrev CallHistory := List (Call × Status)

def Disconnected (h : CallHistory) (c : ConnectionId) : Prop := Call.disconnect c ∈ h.map Prod.fst

instance (h : CallHistory) (c : ConnectionId) : Decidable (Disconnected h c) :=
  inferInstanceAs (Decidable (_ ∈ _))

/-- The stream handler makes no call for a connection after its `Disconnect`. -/
def NoCallAfterDisconnect (h : CallHistory) : Call → Prop
  | .arbitrate _ c => ¬ Disconnected h c
  | .disconnect c => ¬ Disconnected h c
  | _ => True

instance (h : CallHistory) (e : Call) : Decidable (NoCallAfterDisconnect h e) := by
  cases e <;> unfold NoCallAfterDisconnect <;> infer_instance

/-- Runs of a fresh manager under the stream handler's discipline. -/
abbrev ArbitrationRun := Run ({} : ControllerState) NoCallAfterDisconnect step

def acceptedUpdate : Call × Status → Option (ConnectionId × MasterArbitrationUpdate)
  | (.arbitrate u c,status) => if status.isOk then some (c,u) else none
  | _ => none

/-- The arbitration updates a run accepted, oldest first. -/
def accepted (h : CallHistory) : List (ConnectionId × MasterArbitrationUpdate) := h.filterMap acceptedUpdate

def acceptedIds (role : RoleName) (h : CallHistory) : List Uint128 :=
  (accepted h).filterMap (fun a => if a.2.roleName = role then a.2.newElectionId else none)

/-- The role of the first update accepted from a connection. -/
def firstRole (h : CallHistory) (c : ConnectionId) : Option RoleName :=
  ((accepted h).find? (fun a => a.1 = c)).map (fun a => a.2.roleName)

/-- The primary of a role: an active connection holding the role's highest id. -/
def IsPrimary (s : ControllerState) (role : RoleName) (c : ConnectionId) : Prop :=
  c ∈ s.connections ∧ (s.object c).roleName = role ∧
    (s.object c).electionId ≠ none ∧ (s.object c).electionId = s.electionIdPast role

@[simp] theorem accepted_append (h k : CallHistory) : accepted (h ++ k) = accepted h ++ accepted k :=
  List.filterMap_append

private theorem accepted_refused {u : MasterArbitrationUpdate} {c : ConnectionId} {st : Status} (hs : st.isOk = false) :
    accepted [(.arbitrate u c,st)] = [] := by
  simp [accepted,acceptedUpdate,hs]

theorem accepted_ok (u : MasterArbitrationUpdate) (c : ConnectionId) :
    accepted [(.arbitrate u c,.okStatus)] = [(c,u)] := rfl

private theorem max?_concat (l : List Uint128) (a : Uint128) :
    (l ++ [a]).max? = raiseElectionId l.max? (some a) := by
  cases l with
  | nil => rfl
  | cons b l =>
    simp only [List.cons_append,List.max?_cons',List.foldl_append,List.foldl_cons,List.foldl_nil,raiseElectionId,
      isNewPrimary,decide_eq_true_eq]
    split
    · rename_i hle; rw [max_eq_right hle]
    · rename_i hle; rw [max_eq_left (not_le.mp hle).le]

/-- The invariant of arbitration, stated against the history of the run. -/
structure ArbitrationInv (h : CallHistory) (s : ControllerState) : Prop where
  distinct : ∀ c ∈ s.connections,∀ c' ∈ s.connections,(s.object c).roleName = (s.object c').roleName →
    (s.object c).electionId ≠ none → (s.object c).electionId = (s.object c').electionId → c = c'
  past : ∀ role,s.electionIdPast role = (acceptedIds role h).max?
  device : ∀ c ∈ s.connections,∃ d,s.deviceId = some d ∧ ∀ u,(c,u) ∈ accepted h → u.deviceId = d
  deviceSet : s.deviceId ≠ some 0
  nodup : s.connections.Nodup
  active : ∀ c,c ∈ s.connections ↔ (∃ u,(c,u) ∈ accepted h) ∧ ¬ Disconnected h c
  initialized : ∀ c,(s.object c).initialized = true ↔ ∃ u,(c,u) ∈ accepted h
  role : ∀ c,(s.object c).initialized = true → firstRole h c = some (s.object c).roleName

namespace ArbitrationInv
variable {h h' : CallHistory} {s t : ControllerState}

theorem start : ArbitrationInv [] {} where
  distinct := by simp
  past _ := rfl
  device := by simp
  deviceSet := by simp
  nodup := List.nodup_nil
  active := by simp [accepted]
  initialized := by simp [accepted]
  role := by simp

theorem congr (ha : Agree s t) (hi : ArbitrationInv h t) : ArbitrationInv h s where
  distinct := by rw [ha.connections,ha.object]; exact hi.distinct
  past role := (ha.past role).trans (hi.past role)
  device := by rw [ha.connections,ha.deviceId]; exact hi.device
  deviceSet := by rw [ha.deviceId]; exact hi.deviceSet
  nodup := by rw [ha.connections]; exact hi.nodup
  active := by rw [ha.connections]; exact hi.active
  initialized := by rw [ha.object]; exact hi.initialized
  role := by rw [ha.object]; exact hi.role

theorem idle (hacc : accepted h' = accepted h) (hdis : ∀ c,Disconnected h' c ↔ Disconnected h c)
    (hi : ArbitrationInv h s) : ArbitrationInv h' s where
  distinct := hi.distinct
  past role := by rw [acceptedIds,hacc]; exact hi.past role
  device := by rw [hacc]; exact hi.device
  deviceSet := hi.deviceSet
  nodup := hi.nodup
  active c := by rw [hacc,hdis]; exact hi.active c
  initialized := by rw [hacc]; exact hi.initialized
  role := by simp only [firstRole,hacc]; exact hi.role

end ArbitrationInv

@[simp] private theorem disconnected_concat (h : CallHistory) (x : Call × Status) (c : ConnectionId) :
    Disconnected (h ++ [x]) c ↔ Disconnected h c ∨ x.1 = .disconnect c := by
  simp [Disconnected,eq_comm]

private theorem acceptedIds_concat (role : RoleName) (h : CallHistory) (u : MasterArbitrationUpdate) (c : ConnectionId) :
    (acceptedIds role (h ++ [(.arbitrate u c,.okStatus)])).max? =
      if role = u.roleName then raiseElectionId (acceptedIds role h).max? u.newElectionId
      else (acceptedIds role h).max? := by
  simp only [acceptedIds,accepted_append,accepted_ok,List.filterMap_append]
  by_cases hr : role = u.roleName
  · subst hr
    cases hn : u.newElectionId with
    | none => simp [hn,raiseElectionId,isNewPrimary]
    | some e => simpa [hn] using max?_concat _ e
  · simp [Ne.symm hr,hr]

section Accepted
variable {h : CallHistory} {s t : ControllerState} {u : MasterArbitrationUpdate} {c : ConnectionId}

theorem active_iff_initialized (hi : ArbitrationInv h s) (hc : ¬ Disconnected h c) :
    c ∈ s.connections ↔ (s.object c).initialized = true := by
  rw [hi.active,hi.initialized]
  exact and_iff_left hc

theorem registered_mem (hi : ArbitrationInv h s) (hc : ¬ Disconnected h c) (hr : Registered u c s t)
    (c' : ConnectionId) : c' ∈ t.connections ↔ c' ∈ s.connections ∨ c' = c := by
  have hac := active_iff_initialized hi hc
  rw [hr.result]
  by_cases hin : (s.object c).initialized = true
  · simp only [hin,if_true]
    refine ⟨.inl,?_⟩
    rintro (hm | rfl)
    · exact hm
    · exact hac.mpr hin
  · simp [hin]

private theorem registered_nodup (hi : ArbitrationInv h s) (hc : ¬ Disconnected h c) (hr : Registered u c s t) :
    t.connections.Nodup := by
  have hac := active_iff_initialized hi hc
  rw [hr.result]
  by_cases hin : (s.object c).initialized = true
  · simpa only [hin,if_true] using hi.nodup
  · simp only [hin]
    refine List.nodup_append.mpr ⟨hi.nodup,List.nodup_singleton c,?_⟩
    rintro a ha b hb rfl
    obtain rfl := List.mem_singleton.mp hb
    exact hin (hac.mp ha)

theorem registered_object (hr : Registered u c s t) : t.object c = ⟨true,u.roleName,u.newElectionId⟩ := by
  simp [hr.result,ControllerState.setObject]

theorem registered_object_ne (hr : Registered u c s t) {c' : ConnectionId} (hne : c' ≠ c) :
    t.object c' = s.object c' := by
  simp [hr.result,ControllerState.setObject,hne]

theorem registered_deviceId (hr : Registered u c s t) : t.deviceId = some u.deviceId := by
  simp [hr.result,hr.deviceId,ControllerState.setObject]

theorem registered_past (hr : Registered u c s t) (role : RoleName) :
    t.electionIdPast role = s.electionIdPast role := by
  simp [hr.result,ControllerState.electionIdPast,ControllerState.setObject]

private theorem registered_distinct (hi : ArbitrationInv h s) (hc : ¬ Disconnected h c) (hr : Registered u c s t) :
    ∀ a ∈ t.connections,∀ b ∈ t.connections,(t.object a).roleName = (t.object b).roleName →
      (t.object a).electionId ≠ none → (t.object a).electionId = (t.object b).electionId → a = b := by
  have hclash (a : ConnectionId) (ha : a ∈ t.connections) (hne : a ≠ c)
      (hrole : (t.object a).roleName = u.roleName) (hset : u.newElectionId ≠ none) :
      (t.object a).electionId ≠ u.newElectionId := by
    rw [registered_object_ne hr hne] at hrole ⊢
    have has := ((registered_mem hi hc hr a).mp ha).resolve_right hne
    exact hr.unused hset a has hne hrole
  intro a ha b hb hrole hset heq
  by_cases hac : a = c <;> by_cases hbc : b = c
  · rw [hac,hbc]
  · subst hac
    rw [registered_object hr] at hrole hset heq
    exact absurd heq.symm (hclash b hb hbc hrole.symm hset)
  · subst hbc
    rw [registered_object hr] at hrole heq
    exact absurd heq (hclash a ha hac hrole fun hn => hset (heq.trans hn))
  · rw [registered_object_ne hr hac,registered_object_ne hr hbc] at *
    have ha' := ((registered_mem hi hc hr a).mp ha).resolve_right hac
    have hb' := ((registered_mem hi hc hr b).mp hb).resolve_right hbc
    exact hi.distinct a ha' b hb' hrole hset heq

private theorem registered_firstRole (hi : ArbitrationInv h s) (hr : Registered u c s t) (c' : ConnectionId)
    (hin : (t.object c').initialized = true) :
    firstRole (h ++ [(.arbitrate u c,.okStatus)]) c' = some (t.object c').roleName := by
  simp only [firstRole,accepted_append,accepted_ok,List.find?_append]
  by_cases hcc : c' = c
  · subst hcc
    rw [registered_object hr]
    by_cases hold : (s.object c').initialized = true
    · have hf := hi.role c' hold
      rw [hr.role hold,firstRole] at hf
      cases hfind : (accepted h).find? (fun a => a.1 = c') with
      | none => simp [hfind] at hf
      | some x => simpa [hfind] using hf
    · have hnone : (accepted h).find? (fun a => a.1 = c') = none := by
        refine List.find?_eq_none.mpr fun a ha hac => ?_
        have hac : a.1 = c' := by simpa using hac
        exact hold ((hi.initialized c').mpr ⟨a.2,hac ▸ ha⟩)
      simp [hnone]
  · rw [registered_object_ne hr hcc] at hin ⊢
    have hf := hi.role c' hin
    rw [firstRole] at hf
    simpa [Ne.symm hcc] using hf

theorem ArbitrationInv.registered (hi : ArbitrationInv h s) (hc : ¬ Disconnected h c) (hr : Registered u c s t) :
    ArbitrationInv (h ++ [(.arbitrate u c,.okStatus)]) (settledState u.roleName u.newElectionId t) where
  distinct := by
    have hd := registered_distinct hi hc hr
    exact hd
  past role := by
    rw [settledState_past,acceptedIds_concat,registered_past hr,registered_past hr,hi.past,hi.past]
    by_cases hrole : role = u.roleName
    · simp [hrole]
    · simp [hrole]
  device c' hc' := by
    have hdev : t.deviceId = some u.deviceId := registered_deviceId hr
    refine ⟨u.deviceId,hdev,fun u' hu' => ?_⟩
    simp only [accepted_append,accepted_ok,List.mem_append,List.mem_singleton,Prod.mk.injEq] at hu'
    rcases hu' with hu' | ⟨-,rfl⟩
    · have hact : c' ∈ s.connections := by
        refine (hi.active c').mpr ⟨⟨u',hu'⟩,?_⟩
        rcases (registered_mem hi hc hr c').mp hc' with hm | rfl
        · exact ((hi.active c').mp hm).2
        · exact hc
      obtain ⟨d,hd,hall⟩ := hi.device c' hact
      rw [hall u' hu']
      exact Option.some_injective _ (hd.symm.trans hr.deviceId)
    · rfl
  deviceSet := by
    show t.deviceId ≠ some 0
    rw [registered_deviceId hr,← hr.deviceId]
    exact hi.deviceSet
  nodup := show t.connections.Nodup from registered_nodup hi hc hr
  active c' := by
    refine (registered_mem hi hc hr c').trans ?_
    rw [hi.active,disconnected_concat,accepted_append,accepted_ok]
    by_cases hcc : c' = c
    · subst hcc; simp [hc]
    · simp [hcc]
  initialized c' := by
    show (t.object c').initialized = true ↔ _
    rw [accepted_append,accepted_ok]
    by_cases hcc : c' = c
    · subst hcc; simp [registered_object hr]
    · simp [registered_object_ne hr hcc,hi.initialized,hcc]
  role c' := show (t.object c').initialized = true → _ from registered_firstRole hi hr c'

end Accepted

private theorem accepted_disconnect (h : CallHistory) (c : ConnectionId) :
    accepted (h ++ [(.disconnect c,.okStatus)]) = accepted h := by
  simp [accepted,acceptedUpdate]

theorem ArbitrationInv.disconnected {h : CallHistory} {s : ControllerState} (hi : ArbitrationInv h s)
    (c : ConnectionId) :
    ArbitrationInv (h ++ [(.disconnect c,.okStatus)]) { s with connections := s.connections.erase c } where
  distinct a ha b hb := hi.distinct a (List.mem_of_mem_erase ha) b (List.mem_of_mem_erase hb)
  past role := by rw [acceptedIds,accepted_disconnect]; exact hi.past role
  device a ha := by rw [accepted_disconnect]; exact hi.device a (List.mem_of_mem_erase ha)
  deviceSet := hi.deviceSet
  nodup := hi.nodup.erase c
  active a := by
    rw [hi.nodup.mem_erase_iff,hi.active,disconnected_concat,accepted_disconnect,Call.disconnect.injEq]
    tauto
  initialized a := by rw [accepted_disconnect]; exact hi.initialized a
  role a ha := by rw [firstRole,accepted_disconnect]; exact hi.role a ha

theorem ArbitrationInv.arbitrate {h : CallHistory} {s : ControllerState} (hi : ArbitrationInv h s)
    (u : MasterArbitrationUpdate) (c : ConnectionId) (hc : ¬ Disconnected h c) :
    ArbitrationInv (h ++ [(.arbitrate u c,(handleArbitrationUpdate u c s).2)]) (handleArbitrationUpdate u c s).1 := by
  rcases handleArbitrationUpdate_cases u c s with ⟨hst,hs⟩ | ⟨t,hr,he⟩
  · rw [hs]
    exact hi.idle (by rw [accepted_append,accepted_refused hst,List.append_nil]) (by simp)
  · rw [he]
    exact (hi.registered hc hr).congr (settlePrimary_spec c _ _ _ t).1

theorem ArbitrationInv.disconnect {h : CallHistory} {s : ControllerState} (hi : ArbitrationInv h s)
    (c : ConnectionId) : ArbitrationInv (h ++ [(.disconnect c,.okStatus)]) (disconnect c s) := by
  cases hin : (s.object c).initialized with
  | true => exact (hi.disconnected c).congr (disconnect_spec c s hin).1
  | false =>
    have hnot : c ∉ s.connections := by
      intro hm
      have := (hi.initialized c).mpr ((hi.active c).mp hm).1
      simp [hin] at this
    rw [disconnect_uninitialized c s hin]
    have := hi.disconnected c
    rwa [List.erase_of_not_mem hnot] at this

theorem ArbitrationInv.setDeviceId {h : CallHistory} {s : ControllerState} (hi : ArbitrationInv h s) (d : UInt64)
    (st : Status) : ArbitrationInv (h ++ [(.setDeviceId d,st)]) (setDeviceId d s).1 := by
  have hi : ArbitrationInv (h ++ [(.setDeviceId d,st)]) s :=
    hi.idle (by simp [accepted,acceptedUpdate]) (by simp)
  rcases setDeviceId_cases d s with hs | ⟨hempty,id,hid,hs⟩
  · rwa [hs]
  · rw [hs]
    exact { hi with device := by simp [hempty],deviceSet := hid }

theorem ArbitrationInv.mutableRequest {h : CallHistory} {s : ControllerState} (hi : ArbitrationInv h s)
    (r : MutableRequest) (st : Status) : ArbitrationInv (h ++ [(.mutableRequest r,st)]) s :=
  hi.idle (by simp [accepted,acceptedUpdate]) (by simp)

theorem arbitration_run_inv {h : CallHistory} {s : ControllerState} (hr : ArbitrationRun h s) : ArbitrationInv h s := by
  refine hr.invariant .start fun h s e hi ha => ?_
  cases e with
  | arbitrate u c => exact hi.arbitrate u c ha
  | disconnect c => exact hi.disconnect c
  | setDeviceId d => exact hi.setDeviceId d _
  | mutableRequest r => exact hi.mutableRequest r _

theorem primary_unique {h : CallHistory} {s : ControllerState} (hi : ArbitrationInv h s) {role : RoleName}
    {c c' : ConnectionId} (hc : IsPrimary s role c) (hc' : IsPrimary s role c') : c = c' := by
  obtain ⟨hm,hrole,hset,hid⟩ := hc
  obtain ⟨hm',hrole',-,hid'⟩ := hc'
  exact hi.distinct c hm c' hm' (hrole.trans hrole'.symm) hset (hid.trans hid'.symm)

/-- Arbitration over whole runs: distinct ids and at most one primary per role,
the highest id ever accepted, the common device id, and the exact list of active
connections with the roles they first arbitrated for. -/
theorem arbitration_invariant {h : CallHistory} {s : ControllerState} (hr : ArbitrationRun h s) :
    ((∀ c ∈ s.connections,∀ c' ∈ s.connections,(s.object c).roleName = (s.object c').roleName →
        (s.object c).electionId ≠ none → (s.object c).electionId = (s.object c').electionId → c = c') ∧
      ∀ role c c',IsPrimary s role c → IsPrimary s role c' → c = c') ∧
    (∀ role,s.electionIdPast role = (acceptedIds role h).max? ∧
      (s.electionIdPast role = none ↔ acceptedIds role h = [])) ∧
    (∀ c ∈ s.connections,∃ d,d ≠ 0 ∧ s.deviceId = some d ∧ ∀ u,(c,u) ∈ accepted h → u.deviceId = d) ∧
    (s.connections.Nodup ∧ ∀ c,c ∈ s.connections ↔ (∃ u,(c,u) ∈ accepted h) ∧ ¬ Disconnected h c) ∧
    ∀ c ∈ s.connections,firstRole h c = some (s.object c).roleName := by
  have hi := arbitration_run_inv hr
  refine ⟨⟨hi.distinct,fun _ _ _ => primary_unique hi⟩,fun role => ⟨hi.past role,?_⟩,fun c hc => ?_,
    ⟨hi.nodup,hi.active⟩,fun c hc => hi.role c ((hi.initialized c).mpr ((hi.active c).mp hc).1)⟩
  · rw [hi.past]
    exact List.max?_eq_none_iff
  · obtain ⟨d,hd,hall⟩ := hi.device c hc
    refine ⟨d,?_,hd,hall⟩
    rintro rfl
    exact hi.deviceSet hd

/-- A backup takes over with a higher id and leaves: the role keeps the higher id. -/
theorem arbitration_invariant_takeover : ∃ h s,ArbitrationRun h s ∧ s.connections = [0] ∧
    s.electionIdPast none = some 2 ∧ (acceptedIds none h).max? = some 2 ∧
    ¬ ((∃ u,(1,u) ∈ accepted h) ∧ ¬ Disconnected h 1) := by
  have hr : ArbitrationRun _ _ := (((Run.start.next (.setDeviceId 7) (by decide)).next
    (.arbitrate ⟨7,none,some ⟨0,1⟩,none⟩ 0) (by decide)).next
    (.arbitrate ⟨7,none,some ⟨0,2⟩,none⟩ 1) (by decide)).next (.disconnect 1) (by decide)
  obtain ⟨-,hp,-,hc,-⟩ := arbitration_invariant hr
  refine ⟨_,_,hr,by decide,by decide,(hp none).1.symm.trans (by decide),?_⟩
  rw [← hc.2 1]
  decide

end SonicPins.P4rtApp
