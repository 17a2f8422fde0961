import SonicPins.P4rtApp.ArbitrationInvariant

/-! Which mutating requests a reachable manager lets through, and the fencing of
old primaries that follows from it. -/
namespace SonicPins.P4rtApp
open Lib

private theorem isActive_iff (role : RoleName) (e : Option Uint128) (s : ControllerState) :
    (verifyElectionIdIsActive role e s).isOk = true ↔
      ∃ c ∈ s.connections,(s.object c).roleName = role ∧ (s.object c).electionId = e := by
  rw [verifyElectionIdIsActive]
  split
  · rename_i hany
    simpa using hany
  · rename_i hany
    simpa [Status.isOk] using hany

theorem allowMutableRequest_isOk_iff (d : Option UInt64) (role : RoleName) (e : Option Uint128)
    (s : ControllerState) :
    (allowMutableRequest d role e s).isOk = true ↔ d ≠ none ∧ d = s.deviceId ∧ e ≠ none ∧
      (∃ c ∈ s.connections,(s.object c).roleName = role ∧ (s.object c).electionId = e) ∧
      e = s.electionIdPast role := by
  cases d with
  | none => simp [allowMutableRequest,Status.isOk]
  | some id =>
    simp only [allowMutableRequest]
    by_cases hd : some id = s.deviceId
    · cases e with
      | none => simp [hd,Status.isOk]
      | some v =>
        cases hl : s.electionIdPastByRole.lookup role with
        | none => simp [hd,hl,ControllerState.electionIdPast,Status.isOk]
        | some past =>
          by_cases hp : some v = past
          · subst hp
            simp only [← hd,ne_eq,not_true_eq_false,if_false,Option.isNone_some,Bool.false_eq_true,isActive_iff,
              ControllerState.electionIdPast,hl,Option.getD_some,reduceCtorEq,not_false_eq_true,true_and,and_true]
          · simp [hd,hl,hp,ControllerState.electionIdPast,Status.isOk]
    · simp [hd,Status.isOk]

private theorem acceptedIds_mem {h₁ h₂ : CallHistory} {u : MasterArbitrationUpdate} {c : ConnectionId} {st : Status}
    {e : Uint128} (hst : st.isOk = true) (he : u.newElectionId = some e) :
    e ∈ acceptedIds u.roleName (h₁ ++ (.arbitrate u c,st) :: h₂) := by
  simp only [acceptedIds,List.mem_filterMap]
  exact ⟨(c,u),by simp [accepted,acceptedUpdate,hst],by simp [he]⟩

private theorem allowed_not_below {h : CallHistory} {s : ControllerState} (hr : ArbitrationRun h s)
    {d : Option UInt64} {role : RoleName} {v e : Uint128}
    (hok : (allowMutableRequest d role (some v) s).isOk = true) (he : e ∈ acceptedIds role h) : e ≤ v := by
  have hmax := ((allowMutableRequest_isOk_iff d role (some v) s).mp hok).2.2.2.2
  rw [(arbitration_run_inv hr).past] at hmax
  exact (List.max?_eq_some_iff.mp hmax.symm).2 e he

/-- Mutation fencing. A request passes exactly when it names the manager's device
and the highest id ever accepted for its role, held by an active connection. Once
an id was accepted, lower ones stay locked out for the rest of the run. -/
theorem mutation_fencing {h : CallHistory} {s : ControllerState} (hr : ArbitrationRun h s) :
    (∀ d role e,(allowMutableRequest d role e s).isOk = true ↔
      ∃ id v,d = some id ∧ s.deviceId = some id ∧ e = some v ∧
        (∃ c ∈ s.connections,(s.object c).roleName = role ∧ (s.object c).electionId = some v) ∧
        (acceptedIds role h).max? = some v) ∧
    (∀ before between after u c r st st' e v,
      h = before ++ (.arbitrate u c,st) :: between ++ (.mutableRequest r,st') :: after → st.isOk = true →
      u.newElectionId = some e → r.roleName = u.roleName → r.electionId.map ElectionId.value = some v → v < e →
      st'.isOk = false) := by
  refine ⟨fun d role e => ?_,?_⟩
  · rw [allowMutableRequest_isOk_iff,(arbitration_run_inv hr).past]
    constructor
    · rintro ⟨hd,hds,he,hc,hmax⟩
      obtain ⟨id,rfl⟩ := Option.ne_none_iff_exists'.mp hd
      obtain ⟨v,rfl⟩ := Option.ne_none_iff_exists'.mp he
      exact ⟨id,v,rfl,hds.symm,rfl,hc,hmax.symm⟩
    · rintro ⟨id,v,rfl,hds,rfl,hc,hmax⟩
      exact ⟨by simp,hds.symm,by simp,hc,hmax.symm⟩
  · intro before between after u c r st st' e v hh hst he hrole hv hlt
    obtain ⟨t,ht,hans⟩ := hr.answered hh
    rw [hans]
    by_contra hok
    have hok : (allowRequest r t).isOk = true := by simpa [step] using hok
    rw [allowRequest,hv,hrole] at hok
    exact absurd hlt (not_lt.mpr (allowed_not_below ht hok (acceptedIds_mem hst he)))

/-- The holder of id 2 leaves; the connection with id 1 stays locked out. -/
theorem mutation_fencing_after_disconnect : ∃ h s,ArbitrationRun h s ∧
    (s.connections = [0] ∧ (s.object 0).electionId = some 1) ∧
    (allowMutableRequest (some 7) none (some 1) s).isOk = false ∧
    ∃ st,(Call.mutableRequest ⟨7,"",some ⟨0,1⟩⟩,st) ∈ h ∧ st.isOk = false := by
  have hr : ArbitrationRun _ _ := ((((Run.start.next (.setDeviceId 7) (by decide)).next
    (.arbitrate ⟨7,none,some ⟨0,1⟩,none⟩ 0) (by decide)).next
    (.arbitrate ⟨7,none,some ⟨0,2⟩,none⟩ 1) (by decide)).next (.disconnect 1) (by decide)).next
    (.mutableRequest ⟨7,"",some ⟨0,1⟩⟩) (by decide)
  obtain ⟨hiff,hfence⟩ := mutation_fencing hr
  refine ⟨_,_,hr,by decide,?_,_,List.mem_concat_self,?_⟩
  · rw [Bool.eq_false_iff,Ne,hiff]
    rintro ⟨_,v,-,-,hv,-,hmax⟩
    obtain rfl := Option.some_injective _ hv
    revert hmax
    decide
  · exact hfence [(.setDeviceId 7,.okStatus),(.arbitrate ⟨7,none,some ⟨0,1⟩,none⟩ 0,.okStatus)]
      [(.disconnect 1,.okStatus)] [] ⟨7,none,some ⟨0,2⟩,none⟩ 1 ⟨7,"",some ⟨0,1⟩⟩ .okStatus _ 2 1 (by decide) rfl
      (by decide) (by decide) (by decide) (by decide)

end SonicPins.P4rtApp
