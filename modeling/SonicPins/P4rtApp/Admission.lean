import SonicPins.P4rtApp.ReportableErrors

/-! How the loop over the updates of a request ends: the updates it accepted, and
what stopped it at the next one. -/
namespace SonicPins.P4rtApp
open Lib Pdpi Sonic
variable [InetText]

/-- Everything a translated update is made of. -/
theorem piUpdateToEntityUpdate_spec {info : IrP4Info} {constraints : ConstraintInfo} {translation : SwitchTranslation}
    {role : String} {u : Update} {e : EntityUpdate}
    (h : piUpdateToEntityUpdate info constraints translation role u = .ok e) :
    e.updateType = u.type ∧ ∃ ir,updateIr info u = .ok ir ∧ verifyTableEntry info constraints role u ir = .ok () ∧
      updateIrEntityForOrchAgent (translation.options .forOrchAgent info) ir = .ok e.entry ∧
      irEntityToPi info ir (pdpiOptions u.type) = .ok e.piEntity ∧
      createAppDbUpdate u.type e.entry info = .ok e.appDbUpdate := by
  obtain ⟨ir,hir,h⟩ := bind_eq_ok.mp h
  obtain ⟨⟨⟩,hverify,h⟩ := bind_eq_ok.mp h
  obtain ⟨entry,hentry,h⟩ := bind_eq_ok.mp h
  obtain ⟨⟨⟨pi,key⟩,keyed⟩,hkey,h⟩ := bind_eq_ok.mp h
  obtain ⟨appDb,happDb,h⟩ := bind_eq_ok.mp h
  cases h
  refine ⟨rfl,ir,orFail_eq_ok.mp hir,orFail_eq_ok.mp hverify,orFail_eq_ok.mp hentry,?_,happDb⟩
  unfold updateKey at hkey
  split at hkey
  · cases hkey
  · rename_i pi' hpi
    split at hkey
    · cases hkey
    · cases hkey
      exact hpi

section Change
variable {info : IrP4Info} {cache : EntityCache} {capacities : ActionProfileCapacityMap} {u : EntityUpdate}
  {inBatch : String → Int} {change : TableResources}

omit [InetText]

/-- The change of a table entry is new less old resources, and fits the capacity of
its profile. -/
theorem verifyCapacityAndGetTableResourceChange_spec {e : IrTableEntry} (he : u.entry = .tableEntry e)
    (h : verifyCapacityAndGetTableResourceChange info u cache capacities inBatch = .ok change) :
    ∃ new old,newResources info u.updateType e = .ok new ∧
      oldResources info u.updateType (cache.entries.lookup u.entityKey) = .ok old ∧ change = resourceChange new old ∧
      ∀ r,change.actionProfile = some r → ∃ capacity,capacities.lookup r.name = some capacity ∧
        verifyCapacity capacity (inBatch r.name) r (new.actionProfile.getD ⟨"",0,0,0⟩).numberOfActions
          (Int32.ofInt (new.actionProfile.getD ⟨"",0,0,0⟩).totalWeight) = .ok () := by
  simp only [verifyCapacityAndGetTableResourceChange,he] at h
  obtain ⟨new,hnew,h⟩ := bind_eq_ok.mp h
  obtain ⟨old,hold,h⟩ := bind_eq_ok.mp h
  refine ⟨new,old,hnew,hold,?_⟩
  split at h
  · rename_i hnone
    cases h
    exact ⟨rfl,fun r hr => by rw [hnone] at hr; cases hr⟩
  · rename_i profile hprofile
    split at h
    · cases h
    · rename_i capacity hcapacity
      obtain ⟨⟨⟩,hverify,h⟩ := bind_eq_ok.mp h
      cases h
      refine ⟨rfl,fun r hr => ?_⟩
      rw [hprofile] at hr
      cases hr
      exact ⟨capacity,hcapacity,hverify⟩

theorem verifyCapacityAndGetTableResourceChange_replication {e : IrPacketReplicationEngineEntry}
    (he : u.entry = .packetReplicationEngineEntry e)
    (h : verifyCapacityAndGetTableResourceChange info u cache capacities inBatch = .ok change) : change = {} := by
  simp only [verifyCapacityAndGetTableResourceChange,he] at h
  cases h
  rfl

theorem verifyCapacityAndGetTableResourceChange_mem
    (h : verifyCapacityAndGetTableResourceChange info u cache capacities inBatch = .ok change)
    {r : ActionProfileResources} (hr : change.actionProfile = some r) : r.name ∈ capacities := by
  cases he : u.entry with
  | packetReplicationEngineEntry e =>
    rw [verifyCapacityAndGetTableResourceChange_replication he h] at hr
    cases hr
  | tableEntry e =>
    obtain ⟨new,old,-,-,-,hcapacity⟩ := verifyCapacityAndGetTableResourceChange_spec he h
    obtain ⟨capacity,hlookup,-⟩ := hcapacity r hr
    exact AList.lookup_isSome.mp (by simp [hlookup])

end Change

section Loop
variable (info : IrP4Info) (constraints : ConstraintInfo) (translation : SwitchTranslation) (cache : EntityCache)
  (capacities : ActionProfileCapacityMap) (role : String)

/-- The updates pass the checks one after another. -/
inductive Accepts : List Update → AdmissionState → Prop
  | nil : Accepts [] {}
  | snoc {us : List Update} {st : AdmissionState} {u : Update} {e : EntityUpdate} {change : TableResources}
      {delta : Option (String × Int)} : Accepts us st →
      piUpdateToEntityUpdate info constraints translation role u = .ok e → e.entityKey ∉ st.keysInRequest →
      admitEntityUpdate info cache capacities st e = .ok (change,delta) → Accepts (us ++ [u]) (st.push e change delta)

inductive Refuses (st : AdmissionState) (u : Update) (status : Status) : Prop
  | translation : piUpdateToEntityUpdate info constraints translation role u = .error (.status status) →
      Refuses st u status
  | admission {e : EntityUpdate} : piUpdateToEntityUpdate info constraints translation role u = .ok e →
      e.entityKey ∉ st.keysInRequest → admitEntityUpdate info cache capacities st e = .error status →
      Refuses st u status

def Repeats (st : AdmissionState) (u : Update) : Prop :=
  ∃ e,piUpdateToEntityUpdate info constraints translation role u = .ok e ∧ e.entityKey ∈ st.keysInRequest

/-- The translation of an update ends in an exception. -/
def Throws (u : Update) : Prop :=
  ∃ what,piUpdateToEntityUpdate info constraints translation role u = .error (.thrown what)

variable {info constraints translation cache capacities role}

theorem Refuses.reportable {st : AdmissionState} {u : Update} {status : Status}
    (h : Refuses info constraints translation cache capacities role st u status) : Reportable status := by
  cases h with
  | translation h => exact piUpdateToEntityUpdate_reportable _ _ _ _ _ _ h
  | admission h _ hstatus => exact admitEntityUpdate_reportable _ _ _ _ _ _ hstatus

variable (cache capacities) in
private theorem next_cases (st : AdmissionState) (u : Update) :
    (∃ e change delta,piUpdateToEntityUpdate info constraints translation role u = .ok e ∧
      e.entityKey ∉ st.keysInRequest ∧ admitEntityUpdate info cache capacities st e = .ok (change,delta)) ∨
    (∃ status,Refuses info constraints translation cache capacities role st u status) ∨
    Repeats info constraints translation role st u ∨ Throws info constraints translation role u := by
  cases hu : piUpdateToEntityUpdate info constraints translation role u with
  | error failure => cases failure with
    | status status => exact .inr (.inl ⟨status,.translation hu⟩)
    | thrown what => exact .inr (.inr (.inr ⟨what,hu⟩))
  | ok e =>
    by_cases hkey : e.entityKey ∈ st.keysInRequest
    · exact .inr (.inr (.inl ⟨e,hu,hkey⟩))
    · cases hadmitted : admitEntityUpdate info cache capacities st e with
      | error status => exact .inr (.inl ⟨status,.admission hu hkey hadmitted⟩)
      | ok r => exact .inl ⟨e,r.1,r.2,rfl,hkey,hadmitted⟩

section Step
variable {st : AdmissionState} {u : Update} (rest : List Update)

private theorem admitUpdates_accepted {e : EntityUpdate} {change : TableResources} {delta : Option (String × Int)}
    (hu : piUpdateToEntityUpdate info constraints translation role u = .ok e) (hkey : e.entityKey ∉ st.keysInRequest)
    (hadmitted : admitEntityUpdate info cache capacities st e = .ok (change,delta)) :
    admitUpdates info constraints translation cache capacities role (u :: rest) st =
      admitUpdates info constraints translation cache capacities role rest (st.push e change delta) := by
  simp [admitUpdates,hu,hkey,hadmitted]

private theorem admitUpdates_refused {status : Status}
    (h : Refuses info constraints translation cache capacities role st u status) :
    admitUpdates info constraints translation cache capacities role (u :: rest) st =
      .ok { st with statuses := st.statuses ++ [status] } := by
  cases h with
  | translation hu => simp [admitUpdates,hu]
  | admission hu hkey hadmitted => simp [admitUpdates,hu,hkey,hadmitted]

private theorem admitUpdates_repeated (h : Repeats info constraints translation role st u) :
    admitUpdates info constraints translation cache capacities role (u :: rest) st =
      .ok { st with statuses := st.statuses ++ [.okStatus],hasDuplicates := true } := by
  obtain ⟨e,hu,hkey⟩ := h
  simp [admitUpdates,hu,hkey]

variable (cache capacities st) in
private theorem admitUpdates_thrown (h : Throws info constraints translation role u) :
    ∃ what,admitUpdates info constraints translation cache capacities role (u :: rest) st = .error (.thrown what) := by
  obtain ⟨what,hu⟩ := h
  exact ⟨what,by simp [admitUpdates,hu]⟩

end Step

theorem Accepts.admitUpdates {us : List Update} {st : AdmissionState}
    (h : Accepts info constraints translation cache capacities role us st) (rest : List Update) :
    admitUpdates info constraints translation cache capacities role (us ++ rest) {} =
      P4rtApp.admitUpdates info constraints translation cache capacities role rest st := by
  induction h generalizing rest with
  | nil => rfl
  | snoc _ hu hkey hadmitted ih =>
    rw [List.append_assoc,ih]
    exact admitUpdates_accepted rest hu hkey hadmitted

variable (info constraints translation cache capacities role) in
/-- A planned update comes from an update of the request and passed all checks. -/
structure PlannedFrom (u : Update) (p : PlannedUpdate) : Prop where
  translated : piUpdateToEntityUpdate info constraints translation role u = .ok p.update
  existence : verifyEntityCacheForExistence cache p.update = .ok ()
  change : ∃ inBatch,verifyCapacityAndGetTableResourceChange info p.update cache capacities inBatch = .ok p.change

omit [InetText] in
theorem admitEntityUpdate_spec {st : AdmissionState} {e : EntityUpdate} {change : TableResources}
    {delta : Option (String × Int)} (h : admitEntityUpdate info cache capacities st e = .ok (change,delta)) :
    verifyEntityCacheForExistence cache e = .ok () ∧
    verifyCapacityAndGetTableResourceChange info e cache capacities st.resourcesInBatch = .ok change ∧
    batchDelta info change = .ok delta := by
  obtain ⟨⟨⟩,hexists,h⟩ := bind_eq_ok.mp h
  obtain ⟨change',hchange,h⟩ := bind_eq_ok.mp h
  obtain ⟨delta',hdelta,h⟩ := bind_eq_ok.mp h
  cases h
  exact ⟨hexists,hchange,hdelta⟩

theorem Accepts.plannedFrom {us : List Update} {st : AdmissionState}
    (h : Accepts info constraints translation cache capacities role us st) :
    List.Forall₂ (PlannedFrom info constraints translation cache capacities role) us st.updates := by
  induction h with
  | nil => exact .nil
  | snoc _ hu _ hadmitted ih =>
    obtain ⟨hexists,hchange,-⟩ := admitEntityUpdate_spec hadmitted
    exact List.rel_append ih (.cons ⟨hu,hexists,_,hchange⟩ .nil)

theorem Accepts.statuses {us : List Update} {st : AdmissionState}
    (h : Accepts info constraints translation cache capacities role us st) :
    st.statuses = List.replicate us.length .okStatus ∧ st.hasDuplicates = false := by
  induction h with
  | nil => exact ⟨rfl,rfl⟩
  | snoc _ _ _ _ ih => exact ⟨by simp [AdmissionState.push,ih.1,List.replicate_succ'],ih.2⟩

theorem Accepts.keys {us : List Update} {st : AdmissionState}
    (h : Accepts info constraints translation cache capacities role us st) :
    (st.updates.map fun p => p.update.entityKey).Nodup ∧
      ∀ k,k ∈ st.keysInRequest ↔ k ∈ st.updates.map fun p => p.update.entityKey := by
  induction h with
  | nil => simp
  | snoc _ _ hkey _ ih =>
    refine ⟨?_,fun k => ?_⟩
    · simp only [AdmissionState.push,List.map_append,List.map_cons,List.map_nil]
      refine List.Nodup.append ih.1 (List.nodup_singleton _) ?_
      rw [List.disjoint_singleton]
      exact fun h => hkey ((ih.2 _).mpr h)
    · simp [AdmissionState.push,ih.2,or_comm]

variable (info constraints translation cache capacities role) in
/-- The loop accepts `us` and ends there: at the end of the request, or refused. -/
def StopsAfter (us post : List Update) (st : AdmissionState) : Prop :=
  Accepts info constraints translation cache capacities role us st ∧
    (post = [] ∨ ∃ u rest status,post = u :: rest ∧ Refuses info constraints translation cache capacities role st u status)

theorem loop_cases {us : List Update} {st : AdmissionState}
    (h : Accepts info constraints translation cache capacities role us st) (rest : List Update) :
    ∃ us' post st',us ++ rest = us' ++ post ∧
      (StopsAfter info constraints translation cache capacities role us' post st' ∨
        Accepts info constraints translation cache capacities role us' st' ∧ ∃ u tail,post = u :: tail ∧
          (Repeats info constraints translation role st' u ∨ Throws info constraints translation role u)) := by
  induction rest generalizing us st with
  | nil => exact ⟨us,[],st,rfl,.inl ⟨h,.inl rfl⟩⟩
  | cons u rest ih =>
    rcases next_cases cache capacities st u with
      ⟨e,change,delta,hu,hkey,hadmitted⟩ | ⟨status,hrefused⟩ | hstop
    · obtain ⟨us',post,st',heq,hcases⟩ := ih (h.snoc hu hkey hadmitted)
      exact ⟨us',post,st',by rw [← heq]; simp,hcases⟩
    · exact ⟨us,u :: rest,st,rfl,.inl ⟨h,.inr ⟨u,rest,status,rfl,hrefused⟩⟩⟩
    · exact ⟨us,u :: rest,st,rfl,.inr ⟨h,u,rest,rfl,hstop⟩⟩

section Plan
variable {us post : List Update} {st : AdmissionState}

omit [InetText] in
@[simp] theorem reportable_notAttempted : Reportable notAttempted := by simp [Reportable,notAttempted]

theorem StopsAfter.piEntityUpdatesToIr (h : StopsAfter info constraints translation cache capacities role us post st) :
    ∃ tail,tail.length = post.length ∧ (∀ s ∈ tail,Reportable s) ∧
      P4rtApp.piEntityUpdatesToIr info constraints translation cache capacities role (us ++ post) =
        .ok (st.updates,List.replicate us.length .okStatus ++ tail) := by
  obtain ⟨haccepts,hpost⟩ := h
  obtain ⟨hstatuses,hduplicates⟩ := haccepts.statuses
  unfold P4rtApp.piEntityUpdatesToIr
  rw [haccepts.admitUpdates]
  rcases hpost with rfl | ⟨u,rest,status,rfl,hrefused⟩
  · exact ⟨[],rfl,by simp,by simp [P4rtApp.admitUpdates,Except.map,hduplicates,fillAborted,hstatuses]⟩
  · refine ⟨status :: List.replicate rest.length notAttempted,by simp,?_,?_⟩
    · rintro s (_ | ⟨_,hs⟩)
      · exact hrefused.reportable
      · rw [List.eq_of_mem_replicate hs]
        exact reportable_notAttempted
    · have hlength : us.length + (rest.length + 1) - (us.length + 1) = rest.length := by omega
      rw [admitUpdates_refused rest hrefused]
      simp [Except.map,hduplicates,fillAborted,hstatuses,hlength]

theorem Repeats.piEntityUpdatesToIr {u : Update}
    (haccepts : Accepts info constraints translation cache capacities role us st)
    (h : Repeats info constraints translation role st u) (post : List Update) :
    ∃ tail,tail.length = (us ++ u :: post).length ∧ (∀ s ∈ tail,Reportable s) ∧
      P4rtApp.piEntityUpdatesToIr info constraints translation cache capacities role (us ++ u :: post) =
        .ok ([],tail) := by
  refine ⟨fillAborted [duplicateKeyStatus] (us ++ u :: post).length,?_,?_,?_⟩
  · simp [fillAborted]
    omega
  · rintro s (_ | ⟨_,hs⟩)
    · simp [Reportable,duplicateKeyStatus]
    · rw [List.eq_of_mem_replicate hs]
      exact reportable_notAttempted
  · unfold P4rtApp.piEntityUpdatesToIr
    rw [haccepts.admitUpdates,admitUpdates_repeated post h]
    rfl

theorem Throws.piEntityUpdatesToIr {u : Update}
    (haccepts : Accepts info constraints translation cache capacities role us st)
    (h : Throws info constraints translation role u) (post : List Update) :
    ∃ what,P4rtApp.piEntityUpdatesToIr info constraints translation cache capacities role (us ++ u :: post) =
      .error (.thrown what) := by
  obtain ⟨what,hwhat⟩ := admitUpdates_thrown cache capacities st post h
  refine ⟨what,?_⟩
  unfold P4rtApp.piEntityUpdatesToIr
  rw [haccepts.admitUpdates,hwhat]
  rfl

theorem piEntityUpdatesToIr_accepted {updates : List Update} {planned : List PlannedUpdate} {statuses : List Status}
    (h : P4rtApp.piEntityUpdatesToIr info constraints translation cache capacities role updates = .ok (planned,statuses)) :
    ∃ us st,us <+: updates ∧ Accepts info constraints translation cache capacities role us st ∧
      planned = st.updates := by
  have hnil : Accepts info constraints translation cache capacities role [] {} := .nil
  obtain ⟨us,post,st,hupdates,hcases⟩ := loop_cases hnil updates
  rw [List.nil_append] at hupdates
  subst hupdates
  rcases hcases with hstops | ⟨haccepts,u,rest,rfl,hrepeats | hthrows⟩
  · obtain ⟨tail,-,-,hplan⟩ := hstops.piEntityUpdatesToIr
    rw [hplan] at h
    cases h
    exact ⟨us,st,List.prefix_append us post,hstops.1,rfl⟩
  · obtain ⟨tail,-,-,hplan⟩ := hrepeats.piEntityUpdatesToIr haccepts rest
    rw [hplan] at h
    cases h
    exact ⟨[],{},List.nil_prefix,hnil,rfl⟩
  · obtain ⟨what,hwhat⟩ := hthrows.piEntityUpdatesToIr haccepts rest
    rw [hwhat] at h
    cases h

end Plan
end Loop

theorem write_state (lower : LowerLayer) (s : ServerState) (r : WriteRequest) :
    (write lower s r).1 = s ∨ (requestStatus s r).isOk ∧ ∃ planned initial statuses,plan s r = .ok (planned,initial) ∧
      (write lower s r).1 = { s with
        entityCache := (updateCacheAndUtilizationState (planned.zip statuses)
          (s.entityCache,s.capacityByActionProfileName)).1.1,
        capacityByActionProfileName := (updateCacheAndUtilizationState (planned.zip statuses)
          (s.entityCache,s.capacityByActionProfileName)).1.2 } := by
  unfold write
  simp only
  split
  · exact .inl rfl
  · rename_i hadmitted
    split
    · exact .inl rfl
    · exact .inl rfl
    · rename_i planned initial hplan
      split
      · exact .inl rfl
      · split
        · exact .inl rfl
        · exact .inr ⟨by simpa using hadmitted,planned,initial,_,hplan,rfl⟩

theorem write_irP4Info (lower : LowerLayer) (s : ServerState) (r : WriteRequest) :
    (write lower s r).1.irP4Info = s.irP4Info := by
  rcases write_state lower s r with h | ⟨-,_,_,_,_,h⟩
  · rw [h]
  · rw [h]

end SonicPins.P4rtApp
