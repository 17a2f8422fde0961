import SonicPins.P4rtApp.ActionProfileAccounting

/-! The size of an action profile as a bound on its totals, over runs of Writes
whose updates succeed or fail in any pattern. -/
namespace SonicPins.P4rtApp
open Lib Pdpi Sonic

variable {name : String} {change : TableResources} {us : List Update} {st : AdmissionState} {s : ServerState}
  {c : ActionProfileResourceCapacity}

/-- What planned updates take and free of a profile, taken together. -/
def netAmount (members : Bool) (name : String) (planned : List PlannedUpdate) : Int :=
  (planned.map fun p => amountOf members name p.change.actionProfile).sum

/-- What planned updates take of a profile, when nothing is freed. -/
def takenAmount (members : Bool) (name : String) (planned : List PlannedUpdate) : Int :=
  (planned.map fun p => max 0 (amountOf members name p.change.actionProfile)).sum

private theorem netAmount_concat (members : Bool) (name : String) (planned : List PlannedUpdate) (p : PlannedUpdate) :
    netAmount members name (planned ++ [p]) = netAmount members name planned + amountOf members name p.change.actionProfile := by
  simp [netAmount]

private theorem takenAmount_concat (members : Bool) (name : String) (planned : List PlannedUpdate) (p : PlannedUpdate) :
    takenAmount members name (planned ++ [p]) =
      takenAmount members name planned + max 0 (amountOf members name p.change.actionProfile) := by
  simp [takenAmount]

private theorem takenAmount_nonneg (members : Bool) (name : String) (planned : List PlannedUpdate) :
    0 ≤ takenAmount members name planned := by
  induction planned with
  | nil => exact le_refl 0
  | cons p planned ih =>
    have hp : takenAmount members name (p :: planned) =
        max 0 (amountOf members name p.change.actionProfile) + takenAmount members name planned := by simp [takenAmount]
    omega

private theorem takenAmount_eq_netAmount {members : Bool} {planned : List PlannedUpdate}
    (h : ∀ p ∈ planned,0 ≤ amountOf members name p.change.actionProfile) :
    takenAmount members name planned = netAmount members name planned := by
  unfold takenAmount netAmount
  congr 1
  refine List.map_congr_left fun p hp => ?_
  exact max_eq_right (h p hp)

section Admission
variable [InetText] {info : IrP4Info} {constraints : ConstraintInfo} {translation : SwitchTranslation} {cache : EntityCache}
  {capacities : ActionProfileCapacityMap} {role : String}

/-- The capacity map is about the profiles of the pipeline. -/
def ProfilesMatch (info : IrP4Info) (capacities : ActionProfileCapacityMap) : Prop :=
  ∀ name c,capacities.lookup name = some c → info.actionProfilesByName.lookup name = some c.actionProfile

omit [InetText] in
private theorem addDelta_batchDelta {delta : Option (String × Int)} (h : batchDelta info change = .ok delta)
    {profile : ActionProfile} (hprofile : info.actionProfilesByName.lookup name = some profile)
    (resources : String → Int) :
    addDelta resources delta name = resources name + amountOf profile.sumOfMembers.isSome name change.actionProfile := by
  unfold batchDelta at h
  cases hr : change.actionProfile with
  | none =>
    simp only [hr,Except.ok.injEq] at h
    subst h
    simp [addDelta,amountOf]
  | some r =>
    simp only [hr] at h
    cases hlookup : info.actionProfilesByName.lookup r.name with
    | none => simp [hlookup] at h
    | some p =>
      simp only [hlookup,Except.ok.injEq] at h
      subst h
      by_cases hname : r.name = name
      · subst hname
        rw [hprofile] at hlookup
        cases hlookup
        simp [addDelta,amountOf]
      · simp [addDelta,amountOf,hname,Function.update_of_ne (Ne.symm hname)]

theorem Accepts.resourcesInBatch
    (h : Accepts info constraints translation cache capacities role us st) {profile : ActionProfile}
    (hprofile : info.actionProfilesByName.lookup name = some profile) :
    st.resourcesInBatch name = netAmount profile.sumOfMembers.isSome name st.updates := by
  induction h with
  | nil => rfl
  | snoc _ _ _ hadmitted ih =>
    obtain ⟨-,-,hdelta⟩ := admitEntityUpdate_spec hadmitted
    simp only [AdmissionState.push]
    rw [addDelta_batchDelta hdelta hprofile,ih,netAmount_concat]

omit [InetText] in
private theorem verifyCapacity_projected {inBatch : Int} {change : ActionProfileResources}
    {actions : Int} {weight : Int32} (h : verifyCapacity c inBatch change actions weight = .ok ())
    (hsize : c.actionProfile.size ≠ 0) :
    currentTotal c + inBatch + countedResources (usesSumOfMembers c) change ≤ c.actionProfile.size :=
  exceeds_eq_false.mp (verifyCapacity_eq_ok.mp h).2.2 hsize

/-- An accepted change was checked on top of the net amount before it. -/
theorem accepted_fits (hmatch : ProfilesMatch info capacities)
    (haccepts : Accepts info constraints translation cache capacities role us st) {e : EntityUpdate}
    {delta : Option (String × Int)} (h : admitEntityUpdate info cache capacities st e = .ok (change,delta))
    (hc : capacities.lookup name = some c) (hsize : c.actionProfile.size ≠ 0)
    (hamount : amountOf (usesSumOfMembers c) name change.actionProfile ≠ 0) :
    currentTotal c + netAmount (usesSumOfMembers c) name st.updates +
      amountOf (usesSumOfMembers c) name change.actionProfile ≤ c.actionProfile.size := by
  obtain ⟨-,hchange,-⟩ := admitEntityUpdate_spec h
  obtain ⟨r,hr,hname⟩ : ∃ r,change.actionProfile = some r ∧ r.name = name := by
    cases hr : change.actionProfile with
    | none => simp [hr,amountOf] at hamount
    | some r =>
      refine ⟨r,rfl,?_⟩
      by_contra hname
      simp [hr,amountOf,hname] at hamount
  cases hentry : e.entry with
  | packetReplicationEngineEntry p =>
    rw [verifyCapacityAndGetTableResourceChange_replication hentry hchange] at hr
    cases hr
  | tableEntry t =>
    obtain ⟨new,old,-,-,-,hcapacity⟩ := verifyCapacityAndGetTableResourceChange_spec hentry hchange
    obtain ⟨c',hc',hverify⟩ := hcapacity r hr
    rw [hname,hc] at hc'
    cases hc'
    have hfits := verifyCapacity_projected hverify hsize
    rw [hname,haccepts.resourcesInBatch (hmatch name c hc)] at hfits
    simpa [hr,amountOf,hname,usesSumOfMembers] using hfits

variable (info constraints translation cache capacities role) in
/-- The last of the accepted updates, if it takes space of a profile after an earlier
one freed some, also fits when the freed space is not counted. -/
def FitsWithoutFreed (updates : List Update) : Prop :=
  ∀ us st,us <+: updates → Accepts info constraints translation cache capacities role us st →
    ∀ before p,st.updates = before ++ [p] → ∀ name c,capacities.lookup name = some c → c.actionProfile.size ≠ 0 →
      0 < amountOf (usesSumOfMembers c) name p.change.actionProfile →
      (∃ q ∈ before,amountOf (usesSumOfMembers c) name q.change.actionProfile < 0) →
      currentTotal c + takenAmount (usesSumOfMembers c) name before +
        amountOf (usesSumOfMembers c) name p.change.actionProfile ≤ c.actionProfile.size

/-- The accepted updates fit together, whichever of the freeing ones fail. -/
theorem Accepts.taken_fits (hmatch : ProfilesMatch info capacities) {updates : List Update}
    (hfits : FitsWithoutFreed info constraints translation cache capacities role updates)
    (h : Accepts info constraints translation cache capacities role us st) (hinitial : us <+: updates)
    (hc : capacities.lookup name = some c)
    (hsize : c.actionProfile.size ≠ 0) (hbefore : currentTotal c ≤ c.actionProfile.size) :
    currentTotal c + takenAmount (usesSumOfMembers c) name st.updates ≤ c.actionProfile.size := by
  induction h with
  | nil => simpa [takenAmount] using hbefore
  | @snoc us st u e change delta haccepts hu hkey hadmitted ih =>
    have hrest := ih ((List.prefix_append us [u]).trans hinitial)
    simp only [AdmissionState.push]
    rw [takenAmount_concat]
    rcases le_or_gt (amountOf (usesSumOfMembers c) name change.actionProfile) 0 with hfree | htake
    · rw [max_eq_left hfree]
      omega
    · rw [max_eq_right htake.le,← add_assoc]
      by_cases hfreed : ∃ q ∈ st.updates,amountOf (usesSumOfMembers c) name q.change.actionProfile < 0
      · exact hfits _ _ hinitial (haccepts.snoc hu hkey hadmitted) st.updates ⟨e,change⟩ rfl name c hc hsize htake hfreed
      · rw [takenAmount_eq_netAmount fun q hq => not_lt.mp fun hneg => hfreed ⟨q,hq,hneg⟩]
        exact accepted_fits hmatch haccepts hadmitted hc hsize htake.ne'

end Admission

private theorem addUtilization_lookup_none {m m' : ActionProfileCapacityMap}
    (h : addUtilization m change = .ok m') (hnone : m.lookup name = none) : m'.lookup name = none := by
  unfold addUtilization at h
  cases hr : change.actionProfile with
  | none =>
    simp only [hr,Except.ok.injEq] at h
    rw [← h,hnone]
  | some r =>
    simp only [hr] at h
    cases hlookup : m.lookup r.name with
    | none => simp [hlookup] at h
    | some c =>
      simp only [hlookup,Except.ok.injEq] at h
      have hname : name ≠ r.name := by
        rintro rfl
        rw [hnone] at hlookup
        cases hlookup
      rw [← h,AList.lookup_insert_ne hname,hnone]

theorem updateCacheAndUtilizationState_totals (planned : List PlannedUpdate) (statuses : List Status) (c : EntityCache)
    (m : ActionProfileCapacityMap) {after : ActionProfileResourceCapacity}
    (h : (updateCacheAndUtilizationState (planned.zip statuses) (c,m)).1.2.lookup name = some after) :
    ∃ before,m.lookup name = some before ∧ after.actionProfile = before.actionProfile ∧
      ∀ members,recordedTotal members after ≤ recordedTotal members before + takenAmount members name planned := by
  induction planned generalizing statuses c m with
  | nil => exact ⟨after,h,rfl,fun members => by simp [takenAmount]⟩
  | cons p planned ih =>
    have hcons : ∀ members,takenAmount members name (p :: planned) =
        max 0 (amountOf members name p.change.actionProfile) + takenAmount members name planned := by
      intro members
      simp [takenAmount]
    have hunchanged : m.lookup name = some after → ∃ before,m.lookup name = some before ∧
        after.actionProfile = before.actionProfile ∧
        ∀ members,recordedTotal members after ≤ recordedTotal members before + takenAmount members name (p :: planned) := by
      intro hafter
      refine ⟨after,hafter,rfl,fun members => ?_⟩
      have := takenAmount_nonneg members name (p :: planned)
      omega
    cases statuses with
    | nil => exact hunchanged h
    | cons status statuses =>
      rw [List.zip_cons_cons,updateCacheAndUtilizationState] at h
      split at h
      · obtain ⟨before,hbefore,hprofile,htotal⟩ := ih statuses c m h
        refine ⟨before,hbefore,hprofile,fun members => ?_⟩
        have := htotal members
        rw [hcons members]
        omega
      · cases hcache : c.apply p.update with
        | error e =>
          rw [hcache] at h
          exact hunchanged h
        | ok c' =>
          rw [hcache] at h
          cases hm : addUtilization m p.change with
          | error e =>
            rw [hm] at h
            exact hunchanged h
          | ok m' =>
            rw [hm] at h
            obtain ⟨middle,hmiddle,hprofile,htotal⟩ := ih statuses c' m' h
            cases hbefore : m.lookup name with
            | none =>
              rw [addUtilization_lookup_none hm hbefore] at hmiddle
              cases hmiddle
            | some before =>
              obtain ⟨middle',hmiddle',hprofile',hrecorded⟩ := addUtilization_spec hm hbefore
              rw [hmiddle] at hmiddle'
              cases hmiddle'
              refine ⟨before,rfl,hprofile.trans hprofile',fun members => ?_⟩
              have hle := htotal members
              rw [hrecorded members] at hle
              rw [hcons members]
              omega

section Runs
variable [InetText]

/-- The capacity map is about the profiles of the pipeline, and no total is beyond
the size of its profile. -/
def ServerState.WithinLimits (s : ServerState) : Prop :=
  ∀ info,s.irP4Info = some info → ProfilesMatch info.toIrP4Info s.capacityByActionProfileName ∧
    ∀ name c,s.capacityByActionProfileName.lookup name = some c → c.actionProfile.size ≠ 0 →
      currentTotal c ≤ c.actionProfile.size

/-- The sums over the cached entries are not beyond the sizes of the profiles. -/
def ServerState.CacheWithinLimits (s : ServerState) : Prop :=
  ∀ info,s.irP4Info = some info → ∀ name profile,info.actionProfilesByName.lookup name = some profile →
    profile.size ≠ 0 →
      mapTotal (usedAmount profile.sumOfMembers.isSome info.toIrP4Info name) s.entityCache.entries ≤ profile.size

/-- A Write that spends nothing that its own updates free, if the server admits it, under
any answers of the lower layers. -/
def FrugalWriteStep (s t : ServerState) : Prop :=
  ∃ lower r,((requestStatus s r).isOk → ∀ info constraints,s.irP4Info = some info → s.constraintInfo = some constraints →
      FitsWithoutFreed info.toIrP4Info constraints s.translation s.entityCache s.capacityByActionProfileName r.role
        r.updates) ∧ t = (write lower s r).1

theorem FrugalWriteStep.writeStep {t : ServerState} (h : FrugalWriteStep s t) : WriteStep s t := by
  obtain ⟨lower,r,-,rfl⟩ := h
  exact ⟨lower,r,rfl⟩

omit [InetText] in
theorem currentTotal_eq (c : ActionProfileResourceCapacity) : currentTotal c = recordedTotal (usesSumOfMembers c) c := rfl

theorem FrugalWriteStep.withinLimits {t : ServerState} (h : FrugalWriteStep s t) (hs : s.WithinLimits) :
    t.WithinLimits := by
  obtain ⟨lower,r,hfrugal,rfl⟩ := h
  rcases write_state lower s r with heq | ⟨hadmitted,planned,initial,statuses,hplan,heq⟩
  · rw [heq]
    exact hs
  · rw [heq]
    intro info (hinfo : s.irP4Info = some info)
    obtain ⟨hmatch,hlimits⟩ := hs info hinfo
    obtain ⟨constraints,hconstraints⟩ := Option.isSome_iff_exists.mp (s.constraintsSet (by simp [hinfo]))
    rw [plan_eq hinfo hconstraints] at hplan
    obtain ⟨us,st,hinitial,haccepts,rfl⟩ := piEntityUpdatesToIr_accepted hplan
    refine ⟨fun name after hafter => ?_,fun name after hafter hsize => ?_⟩
    · obtain ⟨before,hbefore,hprofile,-⟩ := updateCacheAndUtilizationState_totals _ _ _ _ hafter
      rw [hprofile]
      exact hmatch name before hbefore
    · obtain ⟨before,hbefore,hprofile,htotal⟩ := updateCacheAndUtilizationState_totals _ _ _ _ hafter
      rw [hprofile] at hsize
      have hfits := haccepts.taken_fits hmatch (hfrugal hadmitted info constraints hinfo hconstraints) hinitial hbefore hsize
        (hlimits name before hbefore hsize)
      have hsemantics : usesSumOfMembers after = usesSumOfMembers before := by rw [usesSumOfMembers,hprofile]; rfl
      have hgrown := htotal (usesSumOfMembers before)
      rw [currentTotal_eq,hsemantics,hprofile]
      rw [currentTotal_eq] at hfits
      omega

/-- Over every run of Writes that spend nothing their own batch frees, whatever
fails below, no profile is filled beyond its size. -/
theorem within_limits_across_writes {s t : ServerState} (hrun : Relation.ReflTransGen FrugalWriteStep s t)
    (hs : s.WithinLimits) : t.WithinLimits ∧ (s.Accounted → t.CacheWithinLimits) := by
  have ht : t.WithinLimits ∧ (s.Accounted → t.Accounted) := by
    induction hrun with
    | refl => exact ⟨hs,fun h => h⟩
    | tail _ hstep ih => exact ⟨hstep.withinLimits ih.1,fun h => hstep.writeStep.accounted (ih.2 h)⟩
  refine ⟨ht.1,fun haccounted info hinfo name profile hprofile hsize => ?_⟩
  have hrecorded := ht.2 haccounted
  obtain ⟨c,hc,htotals⟩ := hrecorded info hinfo name profile hprofile
  obtain ⟨hmatch,hlimits⟩ := ht.1 info hinfo
  have hsame : c.actionProfile = profile := by
    have := (hmatch name c hc).symm.trans hprofile
    exact Option.some.inj this
  have hle := hlimits name c hc (hsame ▸ hsize)
  rw [currentTotal_eq,usesSumOfMembers,hsame,htotals] at hle
  exact hle

end Runs

attribute [local instance] uncompressedInet

theorem withinLimits_of_single (hinfo : s.irP4Info = some samplePipeline)
    (hcapacity : s.capacityByActionProfileName = AList.singleton "wcmp_group_selector" c)
    (hprofile : c.actionProfile = wcmpSelector) (hweight : c.currentTotalWeight ≤ 10) : s.WithinLimits := by
  intro info hinfo'
  obtain rfl : samplePipeline = info := Option.some.inj (hinfo.symm.trans hinfo')
  have hlookup : ∀ name c',s.capacityByActionProfileName.lookup name = some c' → name = "wcmp_group_selector" ∧ c' = c := by
    intro name c' h
    rw [hcapacity] at h
    exact lookup_singleton_cases h
  refine ⟨fun name c' h => ?_,fun name c' h _ => ?_⟩
  · obtain ⟨rfl,rfl⟩ := hlookup name c' h
    rw [hprofile]
    rfl
  · obtain ⟨rfl,rfl⟩ := hlookup name c' h
    rw [currentTotal,usesSumOfMembers,hprofile]
    exact hweight

private theorem sampleServer_withinLimits : sampleServer.WithinLimits :=
  withinLimits_of_single rfl rfl rfl (by decide)

def fullServer : ServerState :=
  (write acceptAll sampleServer (sampleRequest [⟨.insert,.tableEntry (wcmpGroup "g1" [10])⟩])).1

/-- The group makes room for another one in the same batch. -/
def replaceRequest : WriteRequest :=
  sampleRequest [⟨.delete,.tableEntry (wcmpGroup "g1" [])⟩,⟨.insert,.tableEntry (wcmpGroup "g2" [10])⟩]

/-- The lower layers refuse every deletion and accept the rest. -/
def refuseDeletes : LowerLayer where
  zmq _ batch := some ⟨"APPL_DB",p4rtTableName,
    batch.map fun u => (u.key,[(if u.op = .del then .inUse else .success,[])])⟩
  notification _ u := some ⟨.success,u.update.key,[("err_str",[])]⟩

/-- The space that the failed deletion would have freed is spent. -/
theorem freed_space_spent : fullServer.WithinLimits ∧ ¬ (write refuseDeletes fullServer replaceRequest).1.WithinLimits := by
  refine ⟨?_,fun h => ?_⟩
  · have hcapacity : fullServer.capacityByActionProfileName = AList.singleton "wcmp_group_selector"
        { actionProfile := wcmpSelector,currentTotalWeight := 10,currentTotalMembers := 1 } :=
      AList.ext (by decide)
    exact withinLimits_of_single (write_irP4Info _ _ _) hcapacity rfl (by decide)
  · have hlookup : (write refuseDeletes fullServer replaceRequest).1.capacityByActionProfileName.lookup
        "wcmp_group_selector" =
        some { actionProfile := wcmpSelector,currentTotalWeight := 20,currentTotalMembers := 2 } := by decide
    have hpipeline : (write refuseDeletes fullServer replaceRequest).1.irP4Info = some samplePipeline :=
      (write_irP4Info _ _ _).trans (write_irP4Info _ _ _)
    have hle := (h samplePipeline hpipeline).2 _ _ hlookup (by decide)
    revert hle
    decide

/-- An insertion alone frees nothing, so its run stays within the limits. -/
theorem within_limits_after_group_insert : ∃ t,Relation.ReflTransGen FrugalWriteStep sampleServer t ∧ t.WithinLimits ∧
    (sampleServer.Accounted → t.CacheWithinLimits) ∧ t.capacityByActionProfileName.lookup "wcmp_group_selector" =
      some { actionProfile := wcmpSelector,currentTotalWeight := 10,currentTotalMembers := 1 } := by
  have hrun : Relation.ReflTransGen FrugalWriteStep sampleServer fullServer := by
    refine .single ⟨_,_,fun _ info constraints _ _ us st hinitial haccepts before p hupdates name c _ _ _ => ?_,rfl⟩
    rintro ⟨q,hq,-⟩
    have hlength := haccepts.plannedFrom.length_eq
    have hshort := hinitial.length_le
    rw [hupdates,List.length_append] at hlength
    have hpos := List.length_pos_of_mem hq
    simp [sampleRequest] at hshort hlength
    omega
  obtain ⟨hlimits,hcache⟩ := within_limits_across_writes hrun sampleServer_withinLimits
  exact ⟨fullServer,hrun,hlimits,hcache,by decide⟩

end SonicPins.P4rtApp
