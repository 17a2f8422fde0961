import SonicPins.P4rtApp.WriteStatuses
import SonicPins.Sonic.RequestOrder

/-! A key that is repeated in a request drops the whole request. -/
namespace SonicPins.P4rtApp
open Lib Pdpi Sonic

variable {key : EntityKey}

section Sending
variable [InetText]

/-- What a Write sends below. -/
def sentByWrite (lower : LowerLayer) (s : ServerState) (r : WriteRequest) : List SentRequest :=
  if !(requestStatus s r).isOk then []
  else match plan s r with
    | .error _ => []
    | .ok (updates,statuses) => match performAppDbUpdates lower (appDbUpdates updates) statuses with
      | .error (_,sent) => sent
      | .ok (_,_,sent) => sent

end Sending

section Repetition
variable [InetText] {info : IrP4Info} {constraints : ConstraintInfo} {translation : SwitchTranslation} {cache : EntityCache}
  {capacities : ActionProfileCapacityMap} {role : String}

variable (info constraints translation cache capacities role) in
/-- None of the first updates is refused when the loop reaches it. -/
def NoneFailsBefore (updates : List Update) (n : Nat) : Prop :=
  ∀ us u rest st,updates = us ++ u :: rest → us.length < n →
    Accepts info constraints translation cache capacities role us st →
    (∀ status,¬ Refuses info constraints translation cache capacities role st u status) ∧
      ¬ Throws info constraints translation role u

variable (info constraints translation role) in
/-- An update is translated, with this key. -/
def HasKey (u : Update) (key : EntityKey) : Prop :=
  ∃ e,piUpdateToEntityUpdate info constraints translation role u = .ok e ∧ e.entityKey = key

theorem Accepts.key_mem {us : List Update} {st : AdmissionState}
    (h : Accepts info constraints translation cache capacities role us st) {u : Update} (hu : u ∈ us)
    (hkey : HasKey info constraints translation role u key) : key ∈ st.keysInRequest := by
  obtain ⟨e,he,rfl⟩ := hkey
  induction h with
  | nil => simp at hu
  | snoc haccepts hu' hnew hadmitted ih =>
    rcases List.mem_append.mp hu with hu | hu
    · exact List.mem_cons_of_mem _ (ih hu)
    · obtain rfl := List.mem_singleton.mp hu
      cases he.symm.trans hu'
      exact List.mem_cons_self

theorem Accepts.not_repeated {us : List Update} {st : AdmissionState}
    (h : Accepts info constraints translation cache capacities role us st) {before between after : List Update} {first second : Update}
    (heq : us = before ++ first :: between ++ second :: after)
    (hfirst : HasKey info constraints translation role first key)
    (hsecond : HasKey info constraints translation role second key) : False := by
  induction h generalizing after with
  | nil => simp at heq
  | @snoc us st u e change delta haccepts hu hnew hadmitted ih =>
    rcases List.eq_nil_or_concat after with rfl | ⟨after',last,rfl⟩
    · obtain ⟨hinit,hlast⟩ := List.append_inj' heq rfl
      cases hlast
      obtain ⟨e',he',rfl⟩ := hsecond
      cases hu.symm.trans he'
      exact hnew (haccepts.key_mem (by rw [hinit]; simp) hfirst)
    · rw [List.concat_eq_append,show before ++ first :: between ++ second :: (after' ++ [last]) =
        before ++ first :: between ++ second :: after' ++ [last] by simp] at heq
      exact ih (List.append_inj' heq rfl).1

/-- The loop ends at a repeated key if nothing is refused before. -/
theorem loop_repeats {before between after : List Update} {first second : Update}
    (hfirst : HasKey info constraints translation role first key)
    (hsecond : HasKey info constraints translation role second key)
    (hgood : NoneFailsBefore info constraints translation cache capacities role
      (before ++ first :: between ++ second :: after) (before ++ first :: between).length) :
    ∃ us u post st,before ++ first :: between ++ second :: after = us ++ u :: post ∧
      Accepts info constraints translation cache capacities role us st ∧ Repeats info constraints translation role st u := by
  have hnil : Accepts info constraints translation cache capacities role [] {} := .nil
  obtain ⟨us,post,st,hupdates,hcases⟩ := loop_cases hnil (before ++ first :: between ++ second :: after)
  rw [List.nil_append] at hupdates
  have haccepts : Accepts info constraints translation cache capacities role us st := by
    rcases hcases with h | h
    · exact h.1
    · exact h.1
  rcases Nat.lt_trichotomy us.length (before ++ first :: between).length with hlt | heq | hgt
  · rcases hcases with ⟨-,rfl | ⟨u,rest,status,rfl,hrefused⟩⟩ | ⟨-,u,rest,rfl,hrepeats | hthrows⟩
    · have hlength := congrArg List.length hupdates
      simp only [List.length_append,List.length_cons,List.length_nil] at hlength hlt
      omega
    · exact absurd hrefused ((hgood us u rest st hupdates hlt haccepts).1 status)
    · exact ⟨us,u,rest,st,hupdates,haccepts,hrepeats⟩
    · exact absurd hthrows (hgood us u rest st hupdates hlt haccepts).2
  · obtain ⟨rfl,rfl⟩ := List.append_inj hupdates heq.symm
    have hmem : key ∈ st.keysInRequest := haccepts.key_mem (by simp) hfirst
    obtain ⟨e,he,rfl⟩ := hsecond
    exact ⟨_,second,after,st,rfl,haccepts,e,he,hmem⟩
  · obtain ⟨more,hmore⟩ := List.prefix_of_prefix_length_le ⟨_,rfl⟩ ⟨_,hupdates.symm⟩ hgt.le
    rcases more with - | ⟨u,more⟩
    · rw [← hmore,List.append_nil] at hgt
      exact absurd hgt (lt_irrefl _)
    · have hsplit : before ++ first :: between ++ second :: after = before ++ first :: between ++ u :: (more ++ post) := by
        rw [hupdates,← hmore]
        simp
      obtain ⟨rfl,-⟩ := List.cons.inj (List.append_cancel_left hsplit)
      exact (haccepts.not_repeated hmore.symm hfirst hsecond).elim

end Repetition
section Write
variable [InetText]

omit [InetText] in
private theorem performAppDbUpdates_nil (lower : LowerLayer) (statuses : List Status) :
    performAppDbUpdates lower [] statuses = .ok (true,statuses,[]) := rfl

private theorem write_nothing {lower : LowerLayer} {s : ServerState} {r : WriteRequest} {statuses : List Status}
    (hchecked : (requestStatus s r).isOk = true) (hplan : plan s r = .ok ([],statuses)) (hreportable : ∀ x ∈ statuses,Reportable x) :
    (write lower s r).1 = s ∧ sentByWrite lower s r = [] ∧
      ∃ failed,updateStatuses statuses.length (write lower s r).2 = some failed ∧ failed.length = statuses.length ∧
        ∀ x ∈ failed,x.isOk = false := by
  have hreported : Reported 0 statuses := ⟨statuses,rfl,hreportable⟩
  obtain ⟨⟨failed,hfailed,hall⟩,hlength⟩ := abortAfterFirstFailure_reported hreported
  obtain ⟨g,hg,hstatuses⟩ := writeAnswer_reported ⟨failed,hfailed,hall⟩
  rw [List.replicate_zero,List.nil_append] at hfailed
  have hwrite : write lower s r = (s,g) := by
    simp only [write,hchecked,hplan,appDbUpdates,List.map_nil,List.zipIdx_nil,performAppDbUpdates_nil,hg]
    rfl
  rw [hwrite]
  refine ⟨rfl,?_,failed,?_,by rw [← hfailed,hlength],fun x hx => (hall x hx).not_isOk⟩
  · rw [sentByWrite,hchecked,hplan]
    rfl
  · rw [← hlength,hstatuses,hfailed]

/-- Two updates with one key drop the whole request, unless an update before the second is refused. -/
theorem repeated_key_drops_request (lower : LowerLayer) (s : ServerState) (r : WriteRequest) {info : AcceptedP4Info}
    {constraints : ConstraintInfo} (hinfo : s.irP4Info = some info) (hconstraints : s.constraintInfo = some constraints)
    {before between after : List Update} {first second : Update}
    (hupdates : r.updates = before ++ first :: between ++ second :: after) {key : EntityKey}
    (hfirst : HasKey info.toIrP4Info constraints s.translation r.role first key)
    (hsecond : HasKey info.toIrP4Info constraints s.translation r.role second key)
    (hgood : NoneFailsBefore info.toIrP4Info constraints s.translation s.entityCache s.capacityByActionProfileName r.role r.updates
      (before ++ first :: between).length) :
    (write lower s r).1 = s ∧ sentByWrite lower s r = [] ∧ (write lower s r).2.code ≠ .ok ∧
      ∀ statuses,updateStatuses r.updates.length (write lower s r).2 = some statuses → ∀ x ∈ statuses,x.isOk = false := by
  cases hchecked : (requestStatus s r).isOk with
  | false =>
    have hwrite : write lower s r = (s,.ofStatus (requestStatus s r)) := by
      simp only [write,hchecked]
      rfl
    have hcode : (requestStatus s r).code ≠ .ok := by
      intro h
      rw [Status.isOk,h] at hchecked
      cases hchecked
    have hsent : sentByWrite lower s r = [] := by rw [sentByWrite,hchecked]; rfl
    rw [hwrite]
    refine ⟨rfl,hsent,hcode,fun statuses h x hx => ?_⟩
    unfold updateStatuses GrpcStatus.ofStatus at h
    simp only at h
    split at h
    · rename_i hok
      exact absurd hok hcode
    · cases h
      cases hx
    · cases h
  | true =>
    rw [hupdates] at hgood
    obtain ⟨us,u,post,st,heq,haccepts,hrepeats⟩ := loop_repeats hfirst hsecond hgood
    obtain ⟨tail,hlength,hreportable,hplan⟩ := hrepeats.piEntityUpdatesToIr haccepts post
    rw [← heq,← hupdates,← plan_eq hinfo hconstraints] at hplan
    rw [← heq,← hupdates] at hlength
    obtain ⟨hstate,hsent,failed,hfailed,hcount,hall⟩ := @write_nothing _ lower s r tail hchecked hplan hreportable
    rw [hlength] at hfailed hcount
    refine ⟨hstate,hsent,fun hok => ?_,fun statuses h x hx => ?_⟩
    · rw [updateStatuses,hok] at hfailed
      cases hfailed
      have hpos : 0 < r.updates.length := by rw [hupdates]; simp
      have hmem := hall .okStatus (List.mem_replicate.mpr ⟨by omega,rfl⟩)
      cases hmem
    · cases hfailed.symm.trans h
      exact hall x hx

end Write
attribute [local instance] uncompressedInet

def insertGroup : Update := ⟨.insert,.tableEntry (wcmpGroup "g1" [1,2])⟩

def modifyGroup : Update := ⟨.modify,.tableEntry (wcmpGroup "g1" [3])⟩

def deleteMissingGroup : Update := ⟨.delete,.tableEntry (wcmpGroup "g2" [])⟩

def groupKey (id : String) : EntityKey := .tableEntry ⟨0x02000003,0,[⟨1,.exact (utf8 id)⟩]⟩

abbrev SampleKey (u : Update) (key : EntityKey) : Prop :=
  HasKey samplePipeline.toIrP4Info noConstraints noTranslation "" u key

theorem sampleKey_of_eq {u : Update} (h : (piUpdateToEntityUpdate samplePipeline.toIrP4Info noConstraints
    noTranslation "" u).map EntityUpdate.entityKey = .ok key) : SampleKey u key := map_eq_ok.mp h

private theorem insertGroup_accepted : NoneFailsBefore samplePipeline.toIrP4Info noConstraints noTranslation sampleServer.entityCache
    sampleServer.capacityByActionProfileName "" [insertGroup,modifyGroup] 1 := by
  have hadmitted : ∃ e,piUpdateToEntityUpdate samplePipeline.toIrP4Info noConstraints noTranslation "" insertGroup = .ok e ∧
      (admitEntityUpdate samplePipeline.toIrP4Info sampleServer.entityCache sampleServer.capacityByActionProfileName {} e).isOk := by
    have h : (match piUpdateToEntityUpdate samplePipeline.toIrP4Info noConstraints noTranslation "" insertGroup with
        | .ok e => (admitEntityUpdate samplePipeline.toIrP4Info sampleServer.entityCache
            sampleServer.capacityByActionProfileName {} e).isOk
        | .error _ => false) = true := by decide
    split at h
    · rename_i e he
      exact ⟨e,he,h⟩
    · cases h
  obtain ⟨e,he,hadmitted⟩ := hadmitted
  intro us u rest st hupdates hlength haccepts
  obtain rfl := List.length_eq_zero_iff.mp (Nat.lt_one_iff.mp hlength)
  obtain ⟨rfl,-⟩ := List.cons.inj hupdates
  have hst : st = {} := by
    generalize hnil : ([] : List Update) = us at haccepts
    cases haccepts with
    | nil => rfl
    | snoc => simp at hnil
  subst hst
  refine ⟨fun status hrefused => ?_,fun ⟨what,hthrown⟩ => ?_⟩
  · cases hrefused with
    | translation h => cases he.symm.trans h
    | admission h _ hstatus =>
      cases he.symm.trans h
      rw [hstatus] at hadmitted
      cases hadmitted
  · cases he.symm.trans hthrown

/-- A group that is inserted and modified in one request. -/
theorem inserted_and_modified_dropped :
    (write acceptAll sampleServer (sampleRequest [insertGroup,modifyGroup])).1 = sampleServer ∧
    sentByWrite acceptAll sampleServer (sampleRequest [insertGroup,modifyGroup]) = [] ∧
    (write acceptAll sampleServer (sampleRequest [insertGroup,modifyGroup])).2.code ≠ .ok ∧
    ∀ statuses,updateStatuses 2 (write acceptAll sampleServer (sampleRequest [insertGroup,modifyGroup])).2 = some statuses →
      ∀ x ∈ statuses,x.isOk = false :=
  @repeated_key_drops_request _ acceptAll sampleServer (sampleRequest [insertGroup,modifyGroup]) samplePipeline noConstraints rfl rfl
    [] [] [] insertGroup modifyGroup rfl (groupKey "g1") (sampleKey_of_eq (by decide)) (sampleKey_of_eq (by decide))
    insertGroup_accepted

/-- Deleting a group that is missing fails before it is deleted again, and what came before is sent. -/
theorem failed_before_repeat_not_dropped : SampleKey deleteMissingGroup (groupKey "g2") ∧
    (sentByWrite acceptAll sampleServer (sampleRequest [insertGroup,deleteMissingGroup,deleteMissingGroup])).length = 1 ∧
    (updateStatuses 3 (write acceptAll sampleServer (sampleRequest [insertGroup,deleteMissingGroup,deleteMissingGroup])).2).map
      (·.map Status.code) = some [.ok,.notFound,.aborted] :=
  ⟨sampleKey_of_eq (by decide),by decide,by decide⟩

end SonicPins.P4rtApp
