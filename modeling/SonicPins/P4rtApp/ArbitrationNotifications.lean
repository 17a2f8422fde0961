import SonicPins.P4rtApp.ArbitrationInvariant

/-! The last notification written to each stream, and that it describes the
current primary of the connection's role. -/
namespace SonicPins.P4rtApp
open Lib

/-- The last arbitration message written to a connection's stream. -/
def lastMessage (sent : List (ConnectionId × MasterArbitrationUpdate)) (c : ConnectionId) :
    Option MasterArbitrationUpdate :=
  ((sent.filter (fun m => m.1 = c)).getLast?).map Prod.snd

private theorem lastMessage_informed (sent : List (ConnectionId × MasterArbitrationUpdate)) (cs : List ConnectionId)
    (f : ConnectionId → MasterArbitrationUpdate) (c : ConnectionId) :
    lastMessage (sent ++ cs.map (fun c => (c,f c))) c = if c ∈ cs then some (f c) else lastMessage sent c := by
  induction cs using List.reverseRecOn with
  | nil => simp
  | append_singleton cs d ih =>
    rw [List.map_append,← List.append_assoc]
    by_cases hd : d = c
    · subst hd; simp [lastMessage]
    · have hkeep : lastMessage (sent ++ cs.map (fun c => (c,f c)) ++ [d].map (fun c => (c,f c))) c =
          lastMessage (sent ++ cs.map (fun c => (c,f c))) c := by simp [lastMessage,hd]
      rw [hkeep,ih]
      simp [Ne.symm hd]

theorem primaryConnectionExists_iff (s : ControllerState) (role : RoleName) :
    primaryConnectionExists s role = true ↔ ∃ c,IsPrimary s role c := by
  simp only [primaryConnectionExists,Bool.and_eq_true,List.any_eq_true,decide_eq_true_eq,IsPrimary,
    Option.isSome_iff_ne_none]
  constructor
  · rintro ⟨⟨c,hc,hrole,hid⟩,hset⟩
    exact ⟨c,hc,hrole,hid ▸ hset,hid⟩
  · rintro ⟨c,hc,hrole,hset,hid⟩
    exact ⟨⟨c,hc,hrole,hid⟩,hid ▸ hset⟩

private theorem response_congr {s t : ControllerState} {c : ConnectionId} (hd : s.deviceId = t.deviceId)
    (ho : s.object c = t.object c) (hp : s.electionIdPast (t.object c).roleName = t.electionIdPast (t.object c).roleName)
    (hx : ∀ a,IsPrimary s (t.object c).roleName a ↔ IsPrimary t (t.object c).roleName a) :
    arbitrationResponse s c = arbitrationResponse t c := by
  have hpe : primaryConnectionExists s (t.object c).roleName = primaryConnectionExists t (t.object c).roleName := by
    rw [Bool.eq_iff_iff,primaryConnectionExists_iff,primaryConnectionExists_iff]
    exact exists_congr hx
  simp only [arbitrationResponse,hd,ho,hp,hpe]

/-- Every active connection was last sent the response of the current state. -/
def Informed (s : ControllerState) : Prop :=
  ∀ c ∈ s.connections,lastMessage s.sent c = some (arbitrationResponse s c)

private theorem informed_step {s t s' : ControllerState} {cs : List ConnectionId} (hi : Informed s)
    (ha : Agree s' t) (hsent : s'.sent = s.sent ++ cs.map (fun a => (a,arbitrationResponse t a)))
    (hrest : ∀ a ∈ t.connections,a ∉ cs → a ∈ s.connections ∧ arbitrationResponse s a = arbitrationResponse t a) :
    Informed s' := by
  intro a hmem
  rw [ha.connections] at hmem
  rw [hsent,lastMessage_informed,ha.response]
  split
  · rfl
  · rename_i hnot
    obtain ⟨hold,hsame⟩ := hrest a hmem hnot
    rw [hi a hold,hsame]

section Settling
variable {h : CallHistory} {s t : ControllerState} {u : MasterArbitrationUpdate} {c a : ConnectionId}

private theorem settled_past_kept (hr : Registered u c s t) (ha : a ∈ t.connections)
    (hnot : a ∉ informedBySettling c u.roleName (s.object c).electionId u.newElectionId t) :
    (settledState u.roleName u.newElectionId t).electionIdPast (t.object a).roleName =
      s.electionIdPast (t.object a).roleName := by
  rw [settledState_past,registered_past hr,registered_past hr]
  split
  · rename_i hrole
    rw [hrole,raiseElectionId,if_neg]
    intro hnew
    rw [informedBySettling,registered_past hr,hnew,Bool.true_or,if_pos rfl] at hnot
    exact hnot (List.mem_filter.mpr ⟨ha,by simpa using hrole⟩)
  · rfl

private theorem not_informed_ne (hi : ArbitrationInv h s) (hc : ¬ Disconnected h c) (hr : Registered u c s t)
    (hnot : a ∉ informedBySettling c u.roleName (s.object c).electionId u.newElectionId t) : a ≠ c := by
  rintro rfl
  apply hnot
  rw [informedBySettling]
  split
  · exact List.mem_filter.mpr ⟨(registered_mem hi hc hr a).mpr (.inr rfl),by simp [registered_object hr]⟩
  · exact List.mem_singleton_self a

private theorem settled_not_primary (hi : ArbitrationInv h s) (hc : ¬ Disconnected h c) (hr : Registered u c s t)
    (ha : a ∈ t.connections)
    (hnot : a ∉ informedBySettling c u.roleName (s.object c).electionId u.newElectionId t) :
    ¬ IsPrimary s (t.object a).roleName c ∧
      ¬ IsPrimary (settledState u.roleName u.newElectionId t) (t.object a).roleName c := by
  have hpast := settled_past_kept hr ha hnot
  have hquiet (hrole : (t.object a).roleName = u.roleName) :
      isNewPrimary u.newElectionId (s.electionIdPast u.roleName) = false ∧
        ¬ ((s.object c).electionId.isSome = true ∧ (s.object c).electionId = s.electionIdPast u.roleName) := by
    by_contra hn
    apply hnot
    rw [informedBySettling,if_pos]
    · exact List.mem_filter.mpr ⟨ha,by simpa using hrole⟩
    · rw [registered_past hr]
      simpa [or_iff_not_imp_left] using hn
  constructor
  · rintro ⟨hmem,hrole,hset,hid⟩
    have hold := hr.role ((active_iff_initialized hi hc).mp hmem)
    refine (hquiet (hrole.symm.trans hold)).2 ⟨Option.isSome_iff_ne_none.mpr hset,?_⟩
    rw [hid,← hrole,hold]
  · rintro ⟨-,hrole,hset,hid⟩
    have hobj : (settledState u.roleName u.newElectionId t).object c = ⟨true,u.roleName,u.newElectionId⟩ := by
      show t.object c = _
      exact registered_object hr
    rw [hobj] at hrole hset hid
    rw [hpast] at hid
    have hn := (hquiet hrole.symm).1
    rw [← hrole] at hid
    rw [← hid] at hn
    obtain ⟨v,hv⟩ := Option.ne_none_iff_exists'.mp hset
    have hv : u.newElectionId = some v := hv
    simp [hv,isNewPrimary] at hn

private theorem settled_response_kept (hi : ArbitrationInv h s) (hc : ¬ Disconnected h c) (hr : Registered u c s t)
    (ha : a ∈ t.connections)
    (hnot : a ∉ informedBySettling c u.roleName (s.object c).electionId u.newElectionId t) :
    a ∈ s.connections ∧
      arbitrationResponse s a = arbitrationResponse (settledState u.roleName u.newElectionId t) a := by
  have hne := not_informed_ne hi hc hr hnot
  refine ⟨((registered_mem hi hc hr a).mp ha).resolve_right hne,?_⟩
  have hpast := settled_past_kept hr ha hnot
  obtain ⟨hs,hw⟩ := settled_not_primary hi hc hr ha hnot
  have hdev : s.deviceId = t.deviceId := hr.deviceId.trans (registered_deviceId hr).symm
  refine response_congr hdev (registered_object_ne hr hne).symm hpast.symm fun b => ?_
  by_cases hb : b = c
  · subst hb
    exact iff_of_false hs hw
  · have hobj : (settledState u.roleName u.newElectionId t).object b = s.object b := registered_object_ne hr hb
    have hmem : b ∈ (settledState u.roleName u.newElectionId t).connections ↔ b ∈ s.connections := by
      refine (registered_mem hi hc hr b).trans ?_
      simp [hb]
    have hp : (settledState u.roleName u.newElectionId t).electionIdPast
        ((settledState u.roleName u.newElectionId t).object a).roleName = s.electionIdPast
        ((settledState u.roleName u.newElectionId t).object a).roleName := hpast
    simp only [IsPrimary,hobj,hmem,hp]

end Settling

theorem Informed.arbitrate {h : CallHistory} {s : ControllerState} (hi : Informed s) (hinv : ArbitrationInv h s)
    (u : MasterArbitrationUpdate) (c : ConnectionId) (hc : ¬ Disconnected h c) :
    Informed (handleArbitrationUpdate u c s).1 := by
  rcases handleArbitrationUpdate_cases u c s with ⟨-,hs⟩ | ⟨t,hr,he⟩
  · rwa [hs]
  · rw [he]
    obtain ⟨ha,hsent⟩ := settlePrimary_spec c u.roleName (s.object c).electionId u.newElectionId t
    have hts : t.sent = s.sent := by simp [hr.result,ControllerState.setObject]
    rw [hts] at hsent
    exact informed_step hi ha hsent fun a hmem hnot => settled_response_kept hinv hc hr hmem hnot

theorem Informed.disconnect {h : CallHistory} {s : ControllerState} (hi : Informed s) (hinv : ArbitrationInv h s)
    (c : ConnectionId) : Informed (disconnect c s) := by
  cases hin : (s.object c).initialized with
  | false => rwa [disconnect_uninitialized c s hin]
  | true =>
    obtain ⟨ha,hsent⟩ := disconnect_spec c s hin
    refine informed_step hi ha hsent fun a hmem hnot => ⟨List.mem_of_mem_erase hmem,?_⟩
    refine response_congr rfl rfl rfl fun b => ?_
    have hb : IsPrimary s (s.object a).roleName b → b ≠ c := by
      rintro ⟨-,hrole,hset,hid⟩ rfl
      apply hnot
      rw [informedByDisconnect,if_pos]
      · exact List.mem_filter.mpr ⟨hmem,by simp [hrole]⟩
      · rw [Option.isSome_iff_ne_none.mpr hset,hrole,Bool.true_and,decide_eq_true_eq]
        exact hid
    constructor
    · intro hp
      exact ⟨hinv.nodup.mem_erase_iff.mpr ⟨hb hp,hp.1⟩,hp.2⟩
    · intro hp
      exact ⟨List.mem_of_mem_erase hp.1,hp.2⟩

theorem Informed.setDeviceId {s : ControllerState} (hi : Informed s) (d : UInt64) : Informed (setDeviceId d s).1 := by
  rcases setDeviceId_cases d s with hs | ⟨hempty,id,-,hs⟩
  · rwa [hs]
  · intro c hc
    simp [hs,hempty] at hc

private theorem informed_run {h : CallHistory} {s : ControllerState} (hr : ArbitrationRun h s) : Informed s := by
  refine (hr.invariant (P := fun h s => ArbitrationInv h s ∧ Informed s) ⟨.start,by simp [Informed]⟩ ?_).2
  intro h s e ⟨hinv,hi⟩ ha
  cases e with
  | arbitrate u c => exact ⟨hinv.arbitrate u c ha,hi.arbitrate hinv u c ha⟩
  | disconnect c => exact ⟨hinv.disconnect c,hi.disconnect hinv c⟩
  | setDeviceId d => exact ⟨hinv.setDeviceId d _,hi.setDeviceId d⟩
  | mutableRequest r => exact ⟨hinv.mutableRequest r _,hi⟩

private theorem response_code (s : ControllerState) (c : ConnectionId) :
    (arbitrationResponse s c).status.map Status.code = some (
      if primaryConnectionExists s (s.object c).roleName then
        if s.electionIdPast (s.object c).roleName = (s.object c).electionId then .ok else .alreadyExists
      else .notFound) := by
  simp only [arbitrationResponse]
  split
  · split <;> rfl
  · rfl

/-- Notifications are never stale: the last message of every active connection
carries the current standing of the connection and the role's highest id. -/
theorem notifications_never_stale {h : CallHistory} {s : ControllerState} (hr : ArbitrationRun h s)
    (c : ConnectionId) (hc : c ∈ s.connections) :
    ∃ m,lastMessage s.sent c = some m ∧
      (m.status.map Status.code = some .ok ↔ IsPrimary s (s.object c).roleName c) ∧
      (m.status.map Status.code = some .alreadyExists ↔ ∃ c',c' ≠ c ∧ IsPrimary s (s.object c).roleName c') ∧
      (m.status.map Status.code = some .notFound ↔ ∀ c',¬ IsPrimary s (s.object c).roleName c') ∧
      m.electionId.map ElectionId.value = (acceptedIds (s.object c).roleName h).max? := by
  have hinv := arbitration_run_inv hr
  refine ⟨_,informed_run hr c hc,?_⟩
  have hid : ((arbitrationResponse s c).electionId).map ElectionId.value =
      (acceptedIds (s.object c).roleName h).max? := by
    rw [← hinv.past]
    cases hp : s.electionIdPast (s.object c).roleName with
    | none => simp [arbitrationResponse,hp]
    | some v => simp [arbitrationResponse,hp,ElectionId.value_ofValue]
  rw [response_code s c]
  cases hx : primaryConnectionExists s (s.object c).roleName with
  | false =>
    have hno : ∀ c',¬ IsPrimary s (s.object c).roleName c' := by
      rw [← not_exists,← primaryConnectionExists_iff,hx]
      simp
    exact ⟨by simp [hno],by simp [hno],by simpa using hno,hid⟩
  | true =>
    obtain ⟨p,hp⟩ := (primaryConnectionExists_iff s _).mp hx
    by_cases hpast : s.electionIdPast (s.object c).roleName = (s.object c).electionId
    · have hprim : IsPrimary s (s.object c).roleName c :=
        ⟨hc,rfl,by rw [← hpast,← hp.2.2.2]; exact hp.2.2.1,hpast.symm⟩
      have hnone : ¬ ∃ c',c' ≠ c ∧ IsPrimary s (s.object c).roleName c' := by
        rintro ⟨c',hne,hp'⟩
        exact hne (primary_unique hinv hp' hprim)
      exact ⟨by simp [hpast,hprim],iff_of_false (by simp [hpast]) hnone,
        iff_of_false (by simp [hpast]) fun hn => hn p hp,hid⟩
    · have hnot : ¬ IsPrimary s (s.object c).roleName c := fun hprim => hpast hprim.2.2.2.symm
      have hother : ∃ c',c' ≠ c ∧ IsPrimary s (s.object c).roleName c' :=
        ⟨p,fun hpc => hnot (hpc ▸ hp),hp⟩
      exact ⟨by simp [hpast,hnot],iff_of_true (by simp [hpast]) hother,
        iff_of_false (by simp [hpast]) fun hn => hn p hp,hid⟩

/-- After the primary left, the backup that stays was told so. -/
theorem notifications_after_disconnect : ∃ h s,ArbitrationRun h s ∧ 0 ∈ s.connections ∧
    ∃ m,lastMessage s.sent 0 = some m ∧ m.status.map Status.code = some .notFound ∧
      m.electionId.map ElectionId.value = some 2 := by
  have hr : ArbitrationRun _ _ := (((Run.start.next (.setDeviceId 7) (by decide)).next
    (.arbitrate ⟨7,none,some ⟨0,1⟩,none⟩ 0) (by decide)).next
    (.arbitrate ⟨7,none,some ⟨0,2⟩,none⟩ 1) (by decide)).next (.disconnect 1) (by decide)
  obtain ⟨m,hm,-,-,hnone,hid⟩ := notifications_never_stale hr 0 (by decide)
  refine ⟨_,_,hr,by decide,m,hm,hnone.mpr ?_,hid.trans (by decide)⟩
  rintro c ⟨hmem,-,-,hpast⟩
  have hc : c ∈ [0] := hmem
  obtain rfl := List.mem_singleton.mp hc
  revert hpast
  decide

end SonicPins.P4rtApp
