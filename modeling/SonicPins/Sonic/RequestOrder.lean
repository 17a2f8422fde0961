import SonicPins.Lib.DoubleIndex
import SonicPins.Sonic.FailOnFirst

/-! Which updates are sent below, in which order, and what becomes of their statuses, when
OrchAgent answers every request with a status for each key. -/
namespace SonicPins.Sonic
open Lib Pdpi P4rtApp

variable {n : Nat} {b : AppDbBatch} {done : List AppDbUpdate} {rest : List Status} {u : AppDbUpdate}

def SentRequest.updates : SentRequest → List AppDbUpdate
  | .batch rows => rows.map fun row => ⟨.p4rt,row⟩
  | .single update => [update]

/-- The queue as a request, unless it is empty. -/
def queuedRequest (b : AppDbBatch) : List SentRequest := if b.p4rtUpdates.isEmpty then [] else [.batch b.p4rtUpdates]

/-- OrchAgent answers every request, with one status for each key. -/
structure LowerLayer.AnswersEach (lower : LowerLayer) : Prop where
  zmq : ∀ n batch,(batch.map KeyOpFieldsValues.key).Nodup → ∃ r,lower.zmq n batch = some r ∧ r.dbName = "APPL_DB" ∧
    r.tableName = p4rtTableName ∧ ∃ answers,answers.Perm r.kfvs ∧
      List.Forall₂ (fun u a => a.1 = u.key ∧ a.2 ≠ []) batch answers
  notification : ∀ n u,∃ a,lower.notification n u = some a ∧ AnswersUpdate u a

/-- Successes are reported without a text. -/
def reported (s : Status) : Status := if s.isOk then .okStatus else s

/-- The statuses that OrchAgent answers the updates of the `n`th request with. -/
def SentRequest.answers (lower : LowerLayer) (n : Nat) : SentRequest → List (Option Status)
  | .batch rows => rows.map fun row =>
    ((lower.zmq n rows).bind fun r => r.kfvs.lookup row.key).map fun values => reported (responseStatus values)
  | .single update => [(lower.notification n update).bind fun a =>
    a.values.head?.map fun v => reported ⟨swssToP4RTErrorCode a.status,cHexEscape v.2⟩]

def allAnswers (lower : LowerLayer) : Nat → List SentRequest → List (Option Status)
  | _,[] => []
  | n,request :: sent => request.answers lower n ++ allAnswers lower (n + 1) sent

/-- All updates of a request succeeded. -/
def SentRequest.Succeeds (lower : LowerLayer) (n : Nat) (request : SentRequest) : Prop :=
  ∀ s ∈ request.answers lower n,s = some .okStatus

/-- Requests of which only the last one may have failed. -/
def OnlyLastFails (lower : LowerLayer) : Nat → List SentRequest → Prop
  | _,[] => True
  | n,request :: sent => (sent ≠ [] → request.Succeeds lower n) ∧ OnlyLastFails lower (n + 1) sent

theorem allAnswers_append (lower : LowerLayer) (n : Nat) (sent more : List SentRequest) :
    allAnswers lower n (sent ++ more) = allAnswers lower n sent ++ allAnswers lower (n + sent.length) more := by
  induction sent generalizing n with
  | nil => simp [allAnswers]
  | cons request sent ih =>
    rw [List.cons_append,allAnswers,allAnswers,ih,List.append_assoc,List.length_cons]
    congr 3
    omega

theorem onlyLastFails_of_succeeds {lower : LowerLayer} {sent : List SentRequest}
    (h : ∀ s ∈ allAnswers lower n sent,s = some .okStatus) (last : SentRequest) : OnlyLastFails lower n (sent ++ [last]) := by
  induction sent generalizing n with
  | nil => exact ⟨fun hne => absurd rfl hne,trivial⟩
  | cons request sent ih =>
    obtain ⟨hfirst,hrest⟩ := List.forall_mem_append.mp h
    exact ⟨fun _ => hfirst,ih hrest⟩

theorem statusAt_append (before after : List Status) (p : Nat) : statusAt (before ++ after) p =
    if p < before.length then statusAt before p else statusAt after (p - before.length) := by
  unfold statusAt
  simp only [List.getD_eq_getElem?_getD,List.getElem?_append]
  split <;> rfl

private theorem eq_of_statusAt {statuses statuses' : List Status} (hlength : statuses.length = statuses'.length)
    (h : ∀ p < statuses.length,statusAt statuses p = statusAt statuses' p) : statuses = statuses' := by
  refine List.ext_getElem hlength fun p hp hp' => ?_
  have hat := h p hp
  simpa [statusAt,List.getD_eq_getElem?_getD,hp,hp'] using hat

private theorem statusAt_replicate (n p : Nat) : statusAt (List.replicate n .okStatus) p = .okStatus := by
  unfold statusAt
  rw [List.getD_eq_getElem?_getD,List.getElem?_replicate]
  split <;> rfl

private theorem eq_of_segment {before middle middle' after statuses : List Status} (hlength : middle.length = middle'.length)
    (hall : statuses.length = (before ++ middle ++ after).length)
    (hout : ∀ p,p < before.length ∨ before.length + middle.length ≤ p →
      statusAt statuses p = statusAt (before ++ middle ++ after) p)
    (hin : ∀ j < middle'.length,statusAt statuses (before.length + j) = statusAt middle' j) :
    statuses = before ++ middle' ++ after := by
  refine eq_of_statusAt (by simpa [hlength] using hall) fun p hp => ?_
  by_cases hlo : p < before.length
  · rw [hout p (.inl hlo)]
    simp [statusAt_append,hlo]
  · obtain ⟨j,rfl⟩ := Nat.exists_eq_add_of_le (Nat.le_of_not_lt hlo)
    by_cases hhi : j < middle'.length
    · rw [hin j hhi]
      simp [statusAt_append,hhi]
    · rw [hout _ (.inr (by omega))]
      simp [statusAt_append,hhi,hlength]

section Sending
variable {lower : LowerLayer} (hlower : lower.AnswersEach)

private theorem answers_batch {rows : List KeyOpFieldsValues} {r : ZmqResponse} (hr : lower.zmq n rows = some r)
    (hkeys : (r.kfvs.map Prod.fst).Nodup) {answers : List (String × List (SwssStatusCode × Bytes))}
    (hmem : ∀ a ∈ answers,a ∈ r.kfvs) {queue : List KeyOpFieldsValues}
    (hanswers : List.Forall₂ (fun u a => a.1 = u.key ∧ a.2 ≠ []) queue answers) :
    (queue.map fun row => ((lower.zmq n rows).bind fun r => r.kfvs.lookup row.key).map fun values =>
      reported (responseStatus values)) = (answers.map fun a => reported (responseStatus a.2)).map some := by
  induction hanswers with
  | nil => rfl
  | @cons u a queue answers ha hrest ih =>
    obtain ⟨hfirst,hmem⟩ := List.forall_mem_cons.mp hmem
    have hlookup : r.kfvs.lookup u.key = some a.2 := by
      rw [← ha.1]
      exact lookup_eq_some_of_mem hkeys hfirst
    rw [List.map_cons,List.map_cons,List.map_cons,ih hmem,hr,Option.bind_some,hlookup]
    rfl

private theorem reported_isOk (s : Status) : (reported s).isOk = s.isOk := by
  unfold reported
  split
  · rename_i h
    rw [h]
    rfl
  · rfl

theorem reported_eq_ok {s : Status} (h : (reported s).isOk) : reported s = .okStatus := by
  rw [reported_isOk] at h
  rw [reported,if_pos h]

include hlower

/-- The queue is answered update by update. -/
theorem flush_each (hne : b.p4rtUpdates ≠ []) {before after : List Status}
    (hresults : b.p4rtResults = queueResults before.length b.p4rtUpdates) (hkeys : (queuedKeys b).Nodup)
    (hstatuses : b.statuses = before ++ List.replicate b.p4rtUpdates.length .okStatus ++ after) :
    ∃ answered,(SentRequest.batch b.p4rtUpdates).answers lower b.sent.length = answered.map some ∧
      answered.length = b.p4rtUpdates.length ∧ (∀ s ∈ answered,s.isOk → s = .okStatus) ∧
      performAppDbP4rtUpdates lower b =
        .ok (answered.all Status.isOk,{ b with
          statuses := before ++ answered ++ after,sent := b.sent ++ [.batch b.p4rtUpdates] }) := by
  obtain ⟨r,hr,hdb,htable,answers,hperm,hanswers⟩ := hlower.zmq b.sent.length b.p4rtUpdates hkeys
  obtain ⟨responses,statuses,hget,hupdate,hlength,hcount,hout,heach⟩ := merge_each hne hdb htable hperm hanswers hkeys
    (show before.length + b.p4rtUpdates.length ≤ b.statuses.length by rw [hstatuses]; simp)
  have hrkeys : (r.kfvs.map Prod.fst).Nodup := by
    rw [← (hperm.map Prod.fst).nodup_iff,(answers_keys hanswers).1]
    exact hkeys
  set answered := answers.map fun a => reported (responseStatus a.2) with hanswered
  have hcount' : answered.length = b.p4rtUpdates.length := by rw [hanswered,List.length_map,hcount]
  have hat (j : Nat) (hj : j < answered.length) : statusAt statuses (before.length + j) = statusAt answered j := by
    have hj' : j < answers.length := by simpa [hanswered] using hj
    have hbefore : statusAt b.statuses (before.length + j) = .okStatus := by
      rw [hstatuses,statusAt_append,statusAt_append,if_pos (by simp; omega),if_neg (by omega)]
      exact statusAt_replicate _ _
    rw [heach j hj',hbefore,statusAt,List.getD_eq_getElem?_getD,List.getElem?_eq_getElem hj]
    simp only [hanswered,List.getElem_map,Option.getD_some]
    rfl
  have hafter : statuses = before ++ answered ++ after := by
    refine @eq_of_segment before (List.replicate b.p4rtUpdates.length .okStatus) answered after statuses
      (by rw [List.length_replicate,hcount']) (by rw [hlength,hstatuses]) (fun p hp => ?_) hat
    rw [hout p (by simpa using hp),hstatuses]
  refine ⟨answered,answers_batch hr hrkeys (fun a ha => hperm.mem_iff.mp ha) hanswers,hcount',fun s hs hok => ?_,?_⟩
  · obtain ⟨a,-,rfl⟩ := List.mem_map.mp hs
    exact reported_eq_ok hok
  · have hall : (b.p4rtUpdates.all fun u => (statusAt statuses ((b.p4rtResults.lookup u.key).getD 0)).isOk) =
        answered.all Status.isOk := by
      rw [Bool.eq_iff_iff,List.all_eq_true,List.all_eq_true]
      constructor
      · intro h s hs
        obtain ⟨j,hj,rfl⟩ := List.mem_iff_getElem.mp hs
        have hu := h _ (List.getElem_mem (show j < b.p4rtUpdates.length by omega))
        rw [hresults,queue_lookup hkeys (by omega),Option.getD_some,hat j hj] at hu
        simpa [statusAt,List.getD_eq_getElem?_getD,hj] using hu
      · intro h u hu
        obtain ⟨j,hj,rfl⟩ := List.mem_iff_getElem.mp hu
        rw [hresults,queue_lookup hkeys hj,Option.getD_some,hat j (by omega)]
        have hs := h _ (List.getElem_mem (show j < answered.length by omega))
        simpa [statusAt,List.getD_eq_getElem?_getD,show j < answered.length by omega] using hs
    rw [performAppDbP4rtUpdates,if_neg (by simpa using hne),hr,hresults,hget]
    simp only [bind,Except.bind,hupdate]
    rw [← hresults,hall,hafter]

private theorem single_each (calls : Nat) (u : AppDbUpdate) : ∃ status,(SentRequest.single u).answers lower calls = [some status] ∧
    performAppDbTableUpdate lower calls u = .ok status ∧ (status.isOk → status = .okStatus) := by
  obtain ⟨a,ha,hkey,message,rest,hvalues⟩ := hlower.notification calls u
  set status : Status := ⟨swssToP4RTErrorCode a.status,cHexEscape message⟩ with hstatus
  refine ⟨reported status,?_,?_,reported_eq_ok⟩
  · rw [SentRequest.answers,ha,Option.bind_some,hvalues]
    rfl
  · have hget : getAppDbResponse (lower.notification calls u) = .ok [(u.update.key,status)] := by
      rw [ha,getAppDbResponse,hvalues]
      simp [hkey,hstatus]
    have hmerge : mergeResponses [(u.update.key,0)] [(u.update.key,status)] [.okStatus] = _ := mergeResponses_eq rfl _
    rw [performAppDbTableUpdate,hget]
    simp only [bind,Except.bind,updateResponses,hmerge]
    cases h : status.isOk <;> simp [copyFailures,statusAt,reported,h]

end Sending
section Loop
variable {lower : LowerLayer}

def p4rtKeys (updates : List AppDbUpdate) : List String :=
  (updates.filter fun u => u.table = .p4rt).map fun u => u.update.key

def sentUpdates (sent : List SentRequest) : List AppDbUpdate := sent.flatMap SentRequest.updates

/-- How far the loop is: it queues and sends while everything succeeds, and stops for good at the
first request that fails. -/
inductive Stage (lower : LowerLayer) (done : List AppDbUpdate) (rest : List Status) (b : AppDbBatch) : Prop
  | running (going : b.failed = false) (order : sentUpdates b.sent ++ b.p4rtUpdates.map (fun row => ⟨.p4rt,row⟩) = done)
    (answers : allAnswers lower 0 b.sent = List.replicate (sentUpdates b.sent).length (some .okStatus))
    (statuses : b.statuses = List.replicate done.length .okStatus ++ rest)
    (results : b.p4rtResults = queueResults (sentUpdates b.sent).length b.p4rtUpdates) : Stage lower done rest b
  | stopped (failed : b.failed = true) (answered : List Status) (skipped : List AppDbUpdate)
    (order : sentUpdates b.sent ++ skipped = done) (answers : allAnswers lower 0 b.sent = answered.map some)
    (length : answered.length = (sentUpdates b.sent).length)
    (statuses : b.statuses = answered ++ List.replicate skipped.length notAttempted ++ rest) (last : OnlyLastFails lower 0 b.sent)
    (failure : ∃ s ∈ answered,s.isOk = false) : Stage lower done rest b

theorem sentUpdates_append (sent more : List SentRequest) :
    sentUpdates (sent ++ more) = sentUpdates sent ++ sentUpdates more := List.flatMap_append

theorem sentUpdates_queued (b : AppDbBatch) : sentUpdates (queuedRequest b) = b.p4rtUpdates.map fun row => ⟨.p4rt,row⟩ := by
  unfold queuedRequest
  split
  · rename_i h
    rw [List.isEmpty_iff.mp h]
    rfl
  · simp [sentUpdates,SentRequest.updates]

private theorem onlyLastFails_of_all {sent : List SentRequest} (h : ∀ s ∈ allAnswers lower n sent,s = some .okStatus) :
    OnlyLastFails lower n sent := by
  induction sent generalizing n with
  | nil => trivial
  | cons request sent ih =>
    obtain ⟨hfirst,hrest⟩ := List.forall_mem_append.mp h
    exact ⟨fun _ => hfirst,ih hrest⟩

theorem queuedKeys_nodup {before : List AppDbUpdate}
    (h : before ++ b.p4rtUpdates.map (fun row => ⟨.p4rt,row⟩) = done) (hkeys : (p4rtKeys done).Nodup) : (queuedKeys b).Nodup := by
  have hqueue : p4rtKeys (b.p4rtUpdates.map fun row => ⟨.p4rt,row⟩) = queuedKeys b := by
    simp [p4rtKeys,queuedKeys,List.filter_map,Function.comp_def]
  rw [← h,p4rtKeys,List.filter_append,List.map_append] at hkeys
  rw [← hqueue]
  exact (List.nodup_append.mp hkeys).2.1

variable (hlower : lower.AnswersEach)
include hlower

/-- Sending the queue while everything succeeded so far. -/
theorem flush_running (hkeys : (queuedKeys b).Nodup)
    (answers : allAnswers lower 0 b.sent = List.replicate (sentUpdates b.sent).length (some .okStatus))
    (statuses : b.statuses = List.replicate ((sentUpdates b.sent).length + b.p4rtUpdates.length) .okStatus ++ rest)
    (results : b.p4rtResults = queueResults (sentUpdates b.sent).length b.p4rtUpdates) :
    ∃ answered,answered.length = b.p4rtUpdates.length ∧ (∀ s ∈ answered,s.isOk → s = .okStatus) ∧
      allAnswers lower 0 (b.sent ++ queuedRequest b) =
        (List.replicate (sentUpdates b.sent).length .okStatus ++ answered).map some ∧
      OnlyLastFails lower 0 (b.sent ++ queuedRequest b) ∧
      performAppDbP4rtUpdates lower b = .ok (answered.all Status.isOk,{ b with
        statuses := List.replicate (sentUpdates b.sent).length .okStatus ++ answered ++ rest,
        sent := b.sent ++ queuedRequest b }) := by
  have hall : ∀ s ∈ allAnswers lower 0 b.sent,s = some .okStatus := by
    rw [answers]
    exact fun s hs => List.eq_of_mem_replicate hs
  by_cases hne : b.p4rtUpdates = []
  · have hqueued : queuedRequest b = [] := by rw [queuedRequest,hne]; rfl
    refine ⟨[],by rw [hne]; rfl,by simp,?_,?_,?_⟩
    · rw [hqueued,List.append_nil,answers,List.append_nil,List.map_replicate]
    · rw [hqueued,List.append_nil]
      exact onlyLastFails_of_all hall
    · rw [hne] at statuses
      rw [performAppDbP4rtUpdates,if_pos (by rw [hne]; rfl),hqueued,List.append_nil,List.append_nil]
      simp only [List.length_nil,Nat.add_zero] at statuses
      rw [← statuses]
      rfl
  · have hqueued : queuedRequest b = [.batch b.p4rtUpdates] := by rw [queuedRequest,if_neg (by simpa using hne)]
    rw [List.replicate_add] at statuses
    obtain ⟨answered,hanswers,hlength,hok,hflush⟩ := flush_each hlower hne
      (show b.p4rtResults = queueResults (List.replicate (sentUpdates b.sent).length Status.okStatus).length b.p4rtUpdates by
        rw [List.length_replicate]
        exact results) hkeys statuses
    refine ⟨answered,hlength,hok,?_,?_,?_⟩
    · rw [hqueued,allAnswers_append,answers,allAnswers,allAnswers,Nat.zero_add,hanswers,List.append_nil,List.map_append,
        List.map_replicate]
    · rw [hqueued]
      exact onlyLastFails_of_succeeds hall _
    · rw [hflush,hqueued]

omit hlower in
theorem set_at_length {before after : List Status} {s t : Status} (h : n = before.length) :
    (before ++ s :: after).set n t = before ++ t :: after := by
  subst h
  simp

omit hlower in
private theorem replicate_snoc (n : Nat) (rest : List Status) : List.replicate n .okStatus ++ Status.okStatus :: rest =
    List.replicate (n + 1) .okStatus ++ rest := by
  rw [List.replicate_succ',List.append_assoc]
  rfl

omit hlower in
/-- A stopped loop gives up the next update. -/
theorem step_stopped {answered : List Status}
    {skipped : List AppDbUpdate} (u : AppDbUpdate) (failed : b.failed = true) (order : sentUpdates b.sent ++ skipped = done)
    (answers : allAnswers lower 0 b.sent = answered.map some) (length : answered.length = (sentUpdates b.sent).length)
    (statuses : b.statuses = answered ++ List.replicate skipped.length notAttempted ++ .okStatus :: rest)
    (last : OnlyLastFails lower 0 b.sent) (failure : ∃ s ∈ answered,s.isOk = false) :
    ∃ b',performAppDbUpdate lower b u done.length = .ok b' ∧ Stage lower (done ++ [u]) rest b' := by
  refine ⟨{ b with statuses := b.statuses.set done.length notAttempted },by rw [performAppDbUpdate,if_pos failed],?_⟩
  refine .stopped failed answered (skipped ++ [u]) (by rw [← List.append_assoc,order]) answers length ?_ last failure
  show b.statuses.set done.length notAttempted = _
  rw [statuses,set_at_length (by rw [← order]; simp [length]),List.length_append,List.length_singleton,List.replicate_succ',
    List.append_assoc,List.append_assoc,List.append_assoc]
  rfl

omit hlower in
/-- An update of the P4RT table is queued. -/
theorem step_queued (htable : u.table = .p4rt) (going : b.failed = false)
    (order : sentUpdates b.sent ++ b.p4rtUpdates.map (fun row => ⟨.p4rt,row⟩) = done)
    (answers : allAnswers lower 0 b.sent = List.replicate (sentUpdates b.sent).length (some .okStatus))
    (statuses : b.statuses = List.replicate done.length .okStatus ++ .okStatus :: rest)
    (results : b.p4rtResults = queueResults (sentUpdates b.sent).length b.p4rtUpdates) :
    ∃ b',performAppDbUpdate lower b u done.length = .ok b' ∧ Stage lower (done ++ [u]) rest b' := by
  have hu : (⟨.p4rt,u.update⟩ : AppDbUpdate) = u := by rw [← htable]
  refine ⟨_,by rw [performAppDbUpdate,if_neg (by simp [going]),if_pos htable],?_⟩
  refine .running going ?_ answers ?_ ?_
  · rw [List.map_append,List.map_singleton,hu,← List.append_assoc,order]
  · rw [List.length_append,List.length_singleton,← replicate_snoc]
    exact statuses
  · have hlength := congrArg List.length order
    rw [List.length_append,List.length_map] at hlength
    show assign u.update.key done.length b.p4rtResults = _
    rw [results,queueResults_append,hlength]

/-- An update of another table is sent after the queue, if that succeeds. -/
theorem step_single (htable : u.table ≠ .p4rt) (going : b.failed = false)
    (order : sentUpdates b.sent ++ b.p4rtUpdates.map (fun row => ⟨.p4rt,row⟩) = done) (hkeys : (p4rtKeys done).Nodup)
    (answers : allAnswers lower 0 b.sent = List.replicate (sentUpdates b.sent).length (some .okStatus))
    (statuses : b.statuses = List.replicate done.length .okStatus ++ .okStatus :: rest)
    (results : b.p4rtResults = queueResults (sentUpdates b.sent).length b.p4rtUpdates) :
    ∃ b',performAppDbUpdate lower b u done.length = .ok b' ∧ Stage lower (done ++ [u]) rest b' := by
  have hdone : (sentUpdates b.sent).length + b.p4rtUpdates.length = done.length := by
    rw [← order,List.length_append,List.length_map]
  obtain ⟨answered,hlength,hok,hanswers,hlast,hflush⟩ :=
    flush_running hlower (queuedKeys_nodup order hkeys) answers (hdone ▸ statuses) results
  have hsent : sentUpdates (b.sent ++ queuedRequest b) = done := by rw [sentUpdates_append,sentUpdates_queued,order]
  have hanswered : (List.replicate (sentUpdates b.sent).length Status.okStatus ++ answered).length = done.length := by
    rw [List.length_append,List.length_replicate,hlength,hdone]
  cases hall : answered.all Status.isOk with
  | false =>
    have hset : (List.replicate (sentUpdates b.sent).length Status.okStatus ++ answered ++ .okStatus :: rest).set done.length
        notAttempted = List.replicate (sentUpdates b.sent).length .okStatus ++ answered ++ List.replicate [u].length notAttempted ++
          rest := by
      rw [set_at_length hanswered.symm,List.append_assoc _ _ rest]
      rfl
    have hstep : performAppDbUpdate lower b u done.length = .ok { b with
        p4rtUpdates := [],p4rtResults := [],failed := true,
        statuses := List.replicate (sentUpdates b.sent).length .okStatus ++ answered ++ List.replicate [u].length notAttempted ++ rest,
        sent := b.sent ++ queuedRequest b } := by
      rw [performAppDbUpdate,if_neg (by simp [going]),if_neg htable,hflush,hall,← hset]
      rfl
    refine ⟨_,hstep,.stopped rfl _ [u] (by rw [hsent]) hanswers (by rw [hanswered,hsent]) rfl hlast ?_⟩
    obtain ⟨s,hs,hfailed⟩ := List.all_eq_false.mp hall
    exact ⟨s,List.mem_append_right _ hs,by simpa using hfailed⟩
  | true =>
    have hsucceeded : answered = List.replicate b.p4rtUpdates.length .okStatus :=
      List.eq_replicate_iff.mpr ⟨hlength,fun s hs => hok s hs (List.all_eq_true.mp hall s hs)⟩
    have hreplicate : List.replicate (sentUpdates b.sent).length Status.okStatus ++ answered =
        List.replicate done.length .okStatus := by
      rw [hsucceeded,← List.replicate_add,hdone]
    obtain ⟨status,hanswer,hsend,hstatus⟩ := single_each hlower (b.sent ++ queuedRequest b).length u
    have hsent' : sentUpdates (b.sent ++ queuedRequest b ++ [.single u]) = done ++ [u] := by
      rw [sentUpdates_append,hsent]
      rfl
    rw [hreplicate] at hanswers hflush
    have hanswers' : allAnswers lower 0 (b.sent ++ queuedRequest b ++ [.single u]) =
        (List.replicate done.length Status.okStatus ++ [status]).map some := by
      rw [allAnswers_append,hanswers,allAnswers,allAnswers,Nat.zero_add,hanswer,List.append_nil,List.map_append]
      rfl
    have hset : (List.replicate done.length Status.okStatus ++ .okStatus :: rest).set done.length status =
        List.replicate done.length .okStatus ++ [status] ++ rest := by
      rw [set_at_length (by simp),List.append_assoc]
      rfl
    have hstep : performAppDbUpdate lower b u done.length = .ok { b with
        p4rtUpdates := [],p4rtResults := [],failed := !status.isOk,
        statuses := List.replicate done.length .okStatus ++ [status] ++ rest,sent := b.sent ++ queuedRequest b ++ [.single u] } := by
      rw [performAppDbUpdate,if_neg (by simp [going]),if_neg htable,hflush,hall]
      simp only [bind,Except.bind,Bool.not_true,Bool.false_eq_true,if_false,clearQueue]
      rw [hsend]
      simp only [hset]
    refine ⟨_,hstep,?_⟩
    cases hfailed : status.isOk with
    | true =>
      have hone : List.replicate done.length Status.okStatus ++ [status] = List.replicate (done ++ [u]).length .okStatus := by
        rw [hstatus hfailed,List.length_append,List.length_singleton,List.replicate_succ']
      refine .running rfl (by rw [hsent']; simp) ?_ (by rw [← hone]) rfl
      rw [hanswers',hone,hsent',List.map_replicate]
    | false =>
      refine .stopped rfl (List.replicate done.length .okStatus ++ [status]) [] (by rw [hsent',List.append_nil]) hanswers'
        (by rw [hsent']; simp) (by simp) (onlyLastFails_of_succeeds ?_ _) ⟨status,by simp,hfailed⟩
      rw [hanswers,List.map_replicate]
      exact fun s hs => List.eq_of_mem_replicate hs

private theorem stage_step (hkeys : (p4rtKeys done).Nodup) (h : Stage lower done (.okStatus :: rest) b) :
    ∃ b',performAppDbUpdate lower b u done.length = .ok b' ∧ Stage lower (done ++ [u]) rest b' := by
  cases h with
  | running going order answers statuses results =>
    by_cases htable : u.table = .p4rt
    · exact step_queued htable going order answers statuses results
    · exact step_single hlower htable going order hkeys answers statuses results
  | stopped failed answered skipped order answers length statuses last failure =>
    exact step_stopped u failed order answers length statuses last failure

/-- The updates are sent in their order, and none is after the first request that failed. Updates
that were sent have the status that they were answered with, the others were not attempted. -/
structure FailsOnFirst (lower : LowerLayer) (updates : List AppDbUpdate) (succeeded : Bool) (statuses : List Status)
    (sent : List SentRequest) : Prop where
  order : ∃ skipped,sentUpdates sent ++ skipped = updates ∧
    statuses.map some = allAnswers lower 0 sent ++ List.replicate skipped.length (some notAttempted)
  last : OnlyLastFails lower 0 sent
  complete : sentUpdates sent = updates ∨ ∃ s ∈ allAnswers lower 0 sent,s ≠ some .okStatus
  succeeded : succeeded = true ↔ ∀ s ∈ statuses,s.isOk = true

omit hlower in
private theorem all_of_failure {answered skipped : List Status} (h : ∃ s ∈ answered,s.isOk = false) :
    false = true ↔ ∀ s ∈ answered ++ skipped,s.isOk = true := by
  obtain ⟨s,hs,hfailed⟩ := h
  constructor
  · intro h
    cases h
  · intro hall
    rw [hall s (List.mem_append_left _ hs)] at hfailed
    cases hfailed

private theorem stage_end {updates : List AppDbUpdate} {others : List Status}
    (hkeys : (p4rtKeys updates).Nodup) (h : Stage lower updates others b) :
    ∃ succeeded statuses sent,runAppDbUpdates lower [] b = .ok (succeeded,statuses ++ others,sent) ∧
      FailsOnFirst lower updates succeeded statuses sent := by
  cases h with
  | running going order answers statuses results =>
    have hdone : (sentUpdates b.sent).length + b.p4rtUpdates.length = updates.length := by
      rw [← order,List.length_append,List.length_map]
    obtain ⟨answered,hlength,hok,hanswers,hlast,hflush⟩ :=
      flush_running hlower (queuedKeys_nodup order hkeys) answers (hdone ▸ statuses) results
    have hsent : sentUpdates (b.sent ++ queuedRequest b) = updates := by rw [sentUpdates_append,sentUpdates_queued,order]
    refine ⟨answered.all Status.isOk,_,b.sent ++ queuedRequest b,by rw [runAppDbUpdates,if_neg (by simp [going]),hflush]; rfl,
      ⟨[],by rw [hsent,List.append_nil],by rw [hanswers]; simp⟩,hlast,.inl hsent,?_⟩
    rw [List.all_eq_true]
    constructor
    · intro hall s hs
      rcases List.mem_append.mp hs with hs | hs
      · rw [List.eq_of_mem_replicate hs]
        rfl
      · exact hall s hs
    · exact fun hall s hs => hall s (List.mem_append_right _ hs)
  | stopped failed answered skipped order answers length statuses last failure =>
    refine ⟨false,answered ++ List.replicate skipped.length notAttempted,b.sent,?_,?_⟩
    · rw [runAppDbUpdates,if_pos failed,statuses]
    · refine ⟨⟨skipped,order,by rw [answers]; simp⟩,last,.inr ?_,all_of_failure failure⟩
      obtain ⟨s,hs,hfailed⟩ := failure
      refine ⟨some s,by rw [answers]; exact List.mem_map_of_mem hs,fun h => ?_⟩
      rw [Option.some.inj h] at hfailed
      cases hfailed

private theorem runAppDbUpdates_from {done updates : List AppDbUpdate} {others : List Status} {b : AppDbBatch}
    (hkeys : (p4rtKeys (done ++ updates)).Nodup) (h : Stage lower done (List.replicate updates.length .okStatus ++ others) b) :
    ∃ succeeded statuses sent,runAppDbUpdates lower (updates.zipIdx done.length) b = .ok (succeeded,statuses ++ others,sent) ∧
      FailsOnFirst lower (done ++ updates) succeeded statuses sent := by
  induction updates generalizing done b with
  | nil =>
    rw [List.append_nil] at hkeys ⊢
    exact stage_end hlower hkeys h
  | cons u updates ih =>
    have hdone : (p4rtKeys done).Nodup := by
      rw [p4rtKeys,List.filter_append,List.map_append] at hkeys
      exact (List.nodup_append.mp hkeys).1
    obtain ⟨b',hb',hstage⟩ := stage_step hlower (u := u) hdone h
    rw [show done ++ u :: updates = done ++ [u] ++ updates by simp] at hkeys ⊢
    obtain ⟨succeeded,statuses,sent,hrun,hresult⟩ := ih hkeys hstage
    refine ⟨succeeded,statuses,sent,?_,hresult⟩
    rw [List.zipIdx_cons,runAppDbUpdates,hb']
    rw [List.length_append,List.length_singleton] at hrun
    exact hrun

/-- However OrchAgent answers, a request fails on its first failure across all tables. -/
theorem sent_until_first_failure (updates : List AppDbUpdate) (hkeys : (p4rtKeys updates).Nodup) (others : List Status) :
    ∃ succeeded statuses sent,
      performAppDbUpdates lower updates.zipIdx (List.replicate updates.length .okStatus ++ others) =
        .ok (succeeded,statuses ++ others,sent) ∧ FailsOnFirst lower updates succeeded statuses sent := by
  have hstart : Stage lower [] (List.replicate updates.length .okStatus ++ others)
      { statuses := List.replicate updates.length .okStatus ++ others } := .running rfl rfl rfl rfl rfl
  exact @runAppDbUpdates_from lower hlower [] updates others _ hkeys hstart

end Loop

def refuseVrfs : LowerLayer where
  zmq := acceptAll.zmq
  notification _ u := some ⟨if u.table = .vrfTable then .full else .success,u.update.key,[("err_str",[])]⟩

private theorem refuseVrfs_answersEach : refuseVrfs.AnswersEach where
  zmq n batch hkeys := by
    refine ⟨_,rfl,rfl,rfl,_,List.Perm.refl _,?_⟩
    clear hkeys
    induction batch with
    | nil => exact .nil
    | cons u batch ih => exact .cons ⟨rfl,List.cons_ne_nil _ _⟩ ih
  notification n u := ⟨_,rfl,rfl,_,_,rfl⟩

def vrfBetween : List AppDbUpdate :=
  [⟨.p4rt,⟨"FIXED_L3_ADMIT_TABLE:a",.set,[]⟩⟩,⟨.vrfTable,⟨"vrf-1",.set,[]⟩⟩,⟨.p4rt,⟨"FIXED_L3_ADMIT_TABLE:b",.set,[]⟩⟩]

theorem vrfBetween_sent : ∃ succeeded statuses sent,
    performAppDbUpdates refuseVrfs vrfBetween.zipIdx (List.replicate vrfBetween.length .okStatus ++ []) =
      .ok (succeeded,statuses ++ [],sent) ∧ FailsOnFirst refuseVrfs vrfBetween succeeded statuses sent :=
  sent_until_first_failure refuseVrfs_answersEach vrfBetween (by decide) []

/-- The last update is not attempted. -/
example : ((performAppDbUpdates refuseVrfs vrfBetween.zipIdx (List.replicate 3 .okStatus)).map fun r => (r.1,r.2.1)).toOption =
    some (false,[.okStatus,⟨.resourceExhausted,""⟩,notAttempted]) := by decide

end SonicPins.Sonic
