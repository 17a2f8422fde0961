import Mathlib.Data.List.Zip
import SonicPins.Sonic.AppDbManager

/-! The statuses of a request after its AppDb updates, when OrchAgent processes
every batch in order and stops at its first failure. -/
namespace SonicPins.Sonic
open Lib Pdpi P4rtApp

variable {start i : Nat} {statuses : List Status} {queue : List KeyOpFieldsValues} {b : AppDbBatch}

/-- Successes, then at most one error, then updates that were not executed. -/
def FailOnFirst (codes : List SwssStatusCode) : Prop :=
  ∃ succeeded rest,codes = List.replicate succeeded .success ++ rest ∧
    (rest = [] ∨ ∃ error skipped,error ≠ .success ∧ rest = error :: List.replicate skipped .notExecuted)

def responseCode (values : List (SwssStatusCode × Bytes)) : SwssStatusCode := (values.head?.map Prod.fst).getD .other

/-- Every key of a batch is answered once, in any order; in the order of the batch
the answers fail on first. -/
def AnswersBatch (batch : List KeyOpFieldsValues) (r : ZmqResponse) : Prop :=
  r.dbName = "APPL_DB" ∧ r.tableName = p4rtTableName ∧
  ∃ answers,answers.Perm r.kfvs ∧ List.Forall₂ (fun u a => a.1 = u.key ∧ a.2 ≠ []) batch answers ∧
    FailOnFirst (answers.map fun a => responseCode a.2)

def AnswersUpdate (u : AppDbUpdate) (n : Notification) : Prop :=
  n.key = u.update.key ∧ ∃ message rest,n.values = ("err_str",message) :: rest

/-- OrchAgent answers everything it is sent. -/
structure LowerLayer.WellBehaved (lower : LowerLayer) : Prop where
  zmq : ∀ n batch,∃ r,lower.zmq n batch = some r ∧ AnswersBatch batch r
  notification : ∀ n u,∃ a,lower.notification n u = some a ∧ AnswersUpdate u a

/-- The lower layers that accept everything. -/
def acceptAll : LowerLayer where
  zmq _ batch := some ⟨"APPL_DB",p4rtTableName,batch.map fun u => (u.key,[(.success,[])])⟩
  notification _ u := some ⟨.success,u.update.key,[("err_str",[])]⟩

private theorem acceptAll_codes (batch : List KeyOpFieldsValues) :
    ((batch.map fun u => (u.key,[(SwssStatusCode.success,([] : Bytes))])).map fun a => responseCode a.2) =
      List.replicate batch.length .success := by
  induction batch with
  | nil => rfl
  | cons u batch ih => simpa [responseCode,List.replicate_succ] using ih

theorem acceptAll_wellBehaved : acceptAll.WellBehaved where
  zmq n batch := by
    refine ⟨_,rfl,rfl,rfl,_,List.Perm.refl _,?_,batch.length,[],?_,.inl rfl⟩
    · induction batch with
      | nil => exact .nil
      | cons u batch ih => exact .cons ⟨rfl,by simp⟩ ih
    · simpa using acceptAll_codes batch
  notification n u := ⟨_,rfl,rfl,_,_,rfl⟩

/-- The status of a response, as it is reported. -/
def responseStatus (values : List (SwssStatusCode × Bytes)) : Status :=
  ⟨swssToP4RTErrorCode (responseCode values),cHexEscape ((values.head?.map Prod.snd).getD [])⟩

private theorem collectResponses_eq {kfvs : List (String × List (SwssStatusCode × Bytes))} (acc : List (String × Status))
    (hvalues : ∀ x ∈ kfvs,x.2 ≠ []) (hkeys : (kfvs.map Prod.fst).Nodup) (hacc : ∀ x ∈ kfvs,acc.lookup x.1 = none) :
    collectResponses acc kfvs = .ok (kfvs.foldl (fun m x => assign x.1 (responseStatus x.2) m) acc) := by
  induction kfvs generalizing acc with
  | nil => rfl
  | cons x kfvs ih =>
    obtain ⟨key,values⟩ := x
    obtain ⟨hkey,hrest⟩ := List.nodup_cons.mp hkeys
    cases values with
    | nil => exact absurd rfl (hvalues (key,[]) (by simp))
    | cons v vs =>
      have hnone : acc.lookup key = none := hacc (key,v :: vs) (by simp)
      rw [collectResponses,hnone]
      simp only [Option.isSome_none,Bool.false_eq_true,if_false,List.foldl_cons]
      refine ih _ (fun x hx => hvalues x (by simp [hx])) hrest fun x hx => ?_
      rw [lookup_assign,if_neg,hacc x (by simp [hx])]
      rintro rfl
      exact hkey (List.mem_map.mpr ⟨x,hx,rfl⟩)

/-- The failures among matched responses, copied to the positions of their keys. -/
def copyFailures (matched : List ((String × Nat) × (String × Status))) (statuses : List Status) : List Status :=
  matched.foldl (fun st x => if x.2.2.isOk then st else st.set x.1.2 x.2.2) statuses

theorem mergeResponses_eq {expected : List (String × Nat)} {responses : List (String × Status)}
    (h : expected.map Prod.fst = responses.map Prod.fst) (statuses : List Status) :
    mergeResponses expected responses statuses = (copyFailures (expected.zip responses) statuses,[]) := by
  induction expected generalizing responses statuses with
  | nil =>
    obtain rfl : responses = [] := by simpa using h.symm
    rfl
  | cons e expected ih =>
    cases responses with
    | nil => simp at h
    | cons r responses =>
      obtain ⟨key,position⟩ := e
      obtain ⟨key',status⟩ := r
      obtain ⟨hkey,hrest⟩ : key = key' ∧ expected.map Prod.fst = responses.map Prod.fst := by simpa using h
      subst hkey
      rw [mergeResponses,mergeResponse,if_neg (lt_irrefl key),if_neg (lt_irrefl key),ih hrest]
      rfl

@[simp] theorem length_copyFailures (matched : List ((String × Nat) × (String × Status))) (statuses : List Status) :
    (copyFailures matched statuses).length = statuses.length := by
  induction matched generalizing statuses with
  | nil => rfl
  | cons x matched ih =>
    rw [copyFailures,List.foldl_cons]
    refine (ih _).trans ?_
    split <;> simp

theorem statusAt_set (statuses : List Status) (p q : Nat) (s : Status) :
    statusAt (statuses.set p s) q = if p = q ∧ q < statuses.length then s else statusAt statuses q := by
  unfold statusAt
  rw [List.getD_eq_getElem?_getD,List.getElem?_set,List.getD_eq_getElem?_getD]
  by_cases hpq : p = q
  · subst hpq
    by_cases hp : p < statuses.length
    · simp [hp]
    · simp [hp]
  · simp [hpq]

theorem statusAt_copyFailures_of_notMem {matched : List ((String × Nat) × (String × Status))} {p : Nat}
    (h : ∀ x ∈ matched,x.1.2 ≠ p) (statuses : List Status) :
    statusAt (copyFailures matched statuses) p = statusAt statuses p := by
  induction matched generalizing statuses with
  | nil => rfl
  | cons x matched ih =>
    rw [copyFailures,List.foldl_cons]
    refine (ih (fun y hy => h y (by simp [hy])) _).trans ?_
    split
    · rfl
    · rw [statusAt_set,if_neg fun hx => h x (by simp) hx.1]

theorem statusAt_copyFailures {matched : List ((String × Nat) × (String × Status))}
    (hnodup : (matched.map fun x => x.1.2).Nodup) {x : (String × Nat) × (String × Status)} (hx : x ∈ matched)
    (statuses : List Status) (hlt : x.1.2 < statuses.length) :
    statusAt (copyFailures matched statuses) x.1.2 =
      if x.2.2.isOk then statusAt statuses x.1.2 else x.2.2 := by
  induction matched generalizing statuses with
  | nil => simp at hx
  | cons y matched ih =>
    obtain ⟨hy,hnodup⟩ := List.nodup_cons.mp hnodup
    rw [copyFailures,List.foldl_cons]
    rcases List.mem_cons.mp hx with rfl | hx
    · refine (statusAt_copyFailures_of_notMem (fun z hz hp => hy ?_) _).trans ?_
      · exact List.mem_map.mpr ⟨z,hz,hp⟩
      · split
        · rfl
        · rw [statusAt_set,if_pos ⟨rfl,hlt⟩]
    · have hne : y.1.2 ≠ x.1.2 := fun hp => hy (List.mem_map.mpr ⟨x,hx,hp.symm⟩)
      refine (ih hnodup hx _ (by split <;> simpa using hlt)).trans ?_
      split
      · split
        · rfl
        · rw [statusAt_set,if_neg fun h => hne h.1]
      · rfl

/-- The status pointers of queued updates whose statuses start at a position. -/
def queueResults (start : Nat) (queue : List KeyOpFieldsValues) : List (String × Nat) :=
  (queue.zipIdx start).foldl (fun m x => assign x.1.key x.2 m) []

theorem queueResults_append (start : Nat) (queue : List KeyOpFieldsValues) (u : KeyOpFieldsValues) :
    queueResults start (queue ++ [u]) = assign u.key (start + queue.length) (queueResults start queue) := by
  simp [queueResults,List.zipIdx_append]

theorem ordered_queueResults (start : Nat) (queue : List KeyOpFieldsValues) : Ordered (queueResults start queue) :=
  ordered_foldl_assign _ _ _ ordered_nil

theorem zipIdx_keys (start : Nat) (queue : List KeyOpFieldsValues) :
    (queue.zipIdx start).map (fun x => x.1.key) = queue.map KeyOpFieldsValues.key := by
  have h : (queue.zipIdx start).map Prod.fst = queue := List.zipIdx_map_fst start queue
  conv_rhs => rw [← h,List.map_map]
  rfl

/-- Statuses that failed from `k` on up to `i`, and are unchanged elsewhere. -/
structure FailedFrom (before : List Status) (k i : Nat) (after : List Status) : Prop where
  length : after.length = before.length
  unchanged : ∀ p,p < k ∨ i ≤ p → statusAt after p = statusAt before p
  failed : ∀ p,k ≤ p → p < i → (statusAt after p).isOk = false ∧ (statusAt after p).code ≠ .unauthenticated

private theorem failOnFirst_position {codes : List SwssStatusCode} (h : FailOnFirst codes) :
    ∃ k ≤ codes.length,∀ j (hj : j < codes.length),codes[j] = .success ↔ j < k := by
  obtain ⟨k,rest,rfl,hrest⟩ := h
  refine ⟨k,by simp,fun j hj => ?_⟩
  by_cases hk : j < k
  · simp [hk]
  · simp only [List.getElem_append,List.length_replicate,hk,dite_false,iff_false]
    rcases hrest with rfl | ⟨error,skipped,herror,rfl⟩
    · simp at hj; omega
    · rw [List.getElem_cons]
      split
      · exact herror
      · simp

private theorem swssToP4RTErrorCode_ok (c : SwssStatusCode) : swssToP4RTErrorCode c = .ok ↔ c = .success := by
  cases c <;> decide

theorem responseStatus_isOk (values : List (SwssStatusCode × Bytes)) :
    (responseStatus values).isOk = true ↔ responseCode values = .success := by
  simp only [responseStatus,Status.isOk,decide_eq_true_eq,swssToP4RTErrorCode_ok]

private theorem responseStatus_code (values : List (SwssStatusCode × Bytes)) :
    (responseStatus values).code ≠ .unauthenticated := by
  simp only [responseStatus]
  cases responseCode values <;> decide

private theorem queue_positions
    (hkeys : (queue.map KeyOpFieldsValues.key).Nodup) {e : String × Nat} (he : e ∈ queueResults start queue) :
    ∃ j,∃ hj : j < queue.length,e = (queue[j].key,start + j) := by
  have hkey : e.1 ∈ (queueResults start queue).map Prod.fst := List.mem_map.mpr ⟨e,he,rfl⟩
  rw [queueResults,mem_keys_foldl_assign (fun x : KeyOpFieldsValues × Nat => x.1.key)] at hkey
  obtain ⟨x,hx,hxe⟩ := List.mem_map.mp (hkey.resolve_right (by simp))
  have hlookup : (queueResults start queue).lookup x.1.key = some x.2 :=
    lookup_foldl_assign (fun x : KeyOpFieldsValues × Nat => x.1.key) Prod.snd (by rwa [zipIdx_keys]) [] hx
  rw [hxe,(ordered_queueResults start queue).lookup_eq_some.mpr he] at hlookup
  obtain ⟨hlo,hhi,hget⟩ := List.mem_zipIdx hx
  refine ⟨x.2 - start,by omega,Prod.ext ?_ ?_⟩
  · rw [← hxe,hget]
  · rw [Option.some.inj hlookup]
    simp only
    omega

theorem queue_lookup (hkeys : (queue.map KeyOpFieldsValues.key).Nodup) {j : Nat} (hj : j < queue.length) :
    (queueResults start queue).lookup queue[j].key = some (start + j) := by
  have hx : (queue[j],start + j) ∈ queue.zipIdx start := by
    rw [List.mem_iff_getElem]
    exact ⟨j,by simpa using hj,by simp [List.getElem_zipIdx]⟩
  exact lookup_foldl_assign (fun x : KeyOpFieldsValues × Nat => x.1.key) Prod.snd (by rwa [zipIdx_keys]) [] hx

theorem answers_keys {answers : List (String × List (SwssStatusCode × Bytes))}
    (h : List.Forall₂ (fun u a => a.1 = u.key ∧ a.2 ≠ []) queue answers) :
    answers.map Prod.fst = queue.map KeyOpFieldsValues.key ∧ ∀ a ∈ answers,a.2 ≠ [] := by
  induction h with
  | nil => simp
  | cons hua _ ih =>
    obtain ⟨hkeys,hvalues⟩ := ih
    refine ⟨by simp [hkeys,hua.1],fun a ha => ?_⟩
    rcases List.mem_cons.mp ha with rfl | ha
    · exact hua.2
    · exact hvalues a ha

/-- Answers to a batch with distinct keys are merged position by position. -/
theorem merge_each (hne : queue ≠ []) {r : ZmqResponse} (hdb : r.dbName = "APPL_DB")
    (htable : r.tableName = p4rtTableName) {answers : List (String × List (SwssStatusCode × Bytes))} (hperm : answers.Perm r.kfvs)
    (hanswers : List.Forall₂ (fun u a => a.1 = u.key ∧ a.2 ≠ []) queue answers)
    (hkeys : (queue.map KeyOpFieldsValues.key).Nodup)
    (hlen : start + queue.length ≤ statuses.length) :
    ∃ responses after,getZmqResponses (queueResults start queue).length (some r) = .ok responses ∧
      updateResponses (queueResults start queue) responses statuses = .ok after ∧
      after.length = statuses.length ∧ answers.length = queue.length ∧
      (∀ p,p < start ∨ start + queue.length ≤ p → statusAt after p = statusAt statuses p) ∧
      ∀ j (hj : j < answers.length),statusAt after (start + j) =
        if (responseStatus (answers[j]).2).isOk then statusAt statuses (start + j) else responseStatus (answers[j]).2 := by
  obtain ⟨hakeys,hvalues⟩ := answers_keys hanswers
  have hlength : answers.length = queue.length := hanswers.length_eq.symm
  have hrkeys : (r.kfvs.map Prod.fst).Nodup := by
    rw [← (hperm.map Prod.fst).nodup_iff,hakeys]
    exact hkeys
  have hcount : (queueResults start queue).length = queue.length := by
    have h := (length_foldl_assign (fun x : KeyOpFieldsValues × Nat => x.1.key) Prod.snd (queue.zipIdx start)).2.mpr
      (by rwa [zipIdx_keys])
    rw [queueResults,h,List.length_zipIdx]
  have hcollect := collectResponses_eq [] (fun x hx => hvalues x (hperm.mem_iff.mpr hx)) hrkeys (by simp)
  set responses := r.kfvs.foldl (fun m x => assign x.1 (responseStatus x.2) m) [] with hresponses
  have hget : getZmqResponses (queueResults start queue).length (some r) = .ok responses := by
    have hpos : queue.length ≠ 0 := by simpa using hne
    rw [getZmqResponses,hcount,if_neg hpos]
    simp only [← hperm.length_eq,hlength,ne_eq,not_true_eq_false,if_false,hdb,htable,or_self]
    exact hcollect
  have hlookup (j : Nat) (hj : j < queue.length) :
      responses.lookup queue[j].key = some (responseStatus (answers[j]).2) := by
    have hmem : answers[j] ∈ r.kfvs := hperm.mem_iff.mp (List.getElem_mem _)
    have hkey : (answers[j]).1 = queue[j].key := by
      have h := List.getElem_of_eq hakeys (i := j) (by simpa [hlength] using hj)
      simpa using h
    rw [← hkey]
    exact lookup_foldl_assign Prod.fst (fun x : String × List (SwssStatusCode × Bytes) => responseStatus x.2) hrkeys [] hmem
  have hexpected : (queueResults start queue).map Prod.fst = responses.map Prod.fst := by
    refine (ordered_queueResults start queue).keys_eq (ordered_foldl_assign _ _ _ ordered_nil) fun k => ?_
    rw [queueResults,mem_keys_foldl_assign (fun x : KeyOpFieldsValues × Nat => x.1.key),zipIdx_keys,
      mem_keys_foldl_assign Prod.fst (fun x : String × List (SwssStatusCode × Bytes) => responseStatus x.2),
      ← (hperm.map Prod.fst).mem_iff,hakeys]
    simp
  have hmatched (j : Nat) (hj : j < queue.length) : ((queue[j].key,start + j),(queue[j].key,responseStatus (answers[j]).2)) ∈
      (queueResults start queue).zip responses := by
    have hlengths : (queueResults start queue).length = responses.length := by
      simpa using congrArg List.length hexpected
    obtain ⟨i,hi,hie⟩ := List.mem_iff_getElem.mp
      ((ordered_queueResults start queue).lookup_eq_some.mp (queue_lookup hkeys hj))
    have hkey : (responses[i]).1 = queue[j].key := by
      have h := List.getElem_of_eq hexpected (i := i) (by simpa using hi)
      simpa [hie] using h.symm
    have hvalue : (responses[i]).2 = responseStatus (answers[j]).2 := by
      have hmem : (queue[j].key,(responses[i]).2) ∈ responses := by
        rw [← hkey]
        exact List.getElem_mem _
      have h := (ordered_foldl_assign _ _ _ ordered_nil : Ordered responses).lookup_eq_some.mpr hmem
      rw [hlookup j hj] at h
      exact (Option.some.inj h).symm
    refine List.mem_iff_getElem.mpr ⟨i,by simp [hi,← hlengths],?_⟩
    rw [List.getElem_zip,hie,← hkey,← hvalue]
  have hpositions : (((queueResults start queue).zip responses).map fun x => x.1.2).Nodup := by
    have hfst : ((queueResults start queue).zip responses).map Prod.fst = queueResults start queue := by
      refine List.map_fst_zip ?_
      simpa using (congrArg List.length hexpected).le
    rw [show (fun x : (String × Nat) × (String × Status) => x.1.2) = Prod.snd ∘ Prod.fst from rfl,← List.map_map,hfst]
    refine List.Nodup.map_on (fun x hx y hy hxy => ?_) (List.Nodup.of_map _ (ordered_queueResults start queue).nodupKeys)
    obtain ⟨i,hi,rfl⟩ := queue_positions hkeys hx
    obtain ⟨j,hj,rfl⟩ := queue_positions hkeys hy
    obtain rfl : i = j := by simpa using hxy
    rfl
  refine ⟨responses,_,hget,by rw [updateResponses,mergeResponses_eq hexpected],length_copyFailures _ _,hlength,?_,?_⟩
  · intro p hp
    refine statusAt_copyFailures_of_notMem (fun x hx hxp => ?_) _
    obtain ⟨j,hj,hxj⟩ := queue_positions hkeys (List.of_mem_zip hx).1
    rw [hxj] at hxp
    simp only at hxp
    omega
  · intro j hj
    have hj : j < queue.length := by omega
    exact statusAt_copyFailures hpositions (hmatched j hj) statuses (by simp only; omega)

/-- A well behaved answer to a batch with distinct keys is merged position by position. -/
theorem merge_batch (hne : queue ≠ []) {r : ZmqResponse} (hr : AnswersBatch queue r)
    (hkeys : (queue.map KeyOpFieldsValues.key).Nodup)
    (hlen : start + queue.length ≤ statuses.length) :
    ∃ responses after,getZmqResponses (queueResults start queue).length (some r) = .ok responses ∧
      updateResponses (queueResults start queue) responses statuses = .ok after ∧
      after.length = statuses.length ∧
      (∀ p,p < start ∨ start + queue.length ≤ p → statusAt after p = statusAt statuses p) ∧
      ∃ codes : List SwssStatusCode,codes.length = queue.length ∧ FailOnFirst codes ∧
        (∀ c ∈ codes,∃ x ∈ r.kfvs,responseCode x.2 = c) ∧
        ∀ j (hj : j < codes.length),
          (codes[j] = .success → statusAt after (start + j) = statusAt statuses (start + j)) ∧
          (codes[j] ≠ .success → (statusAt after (start + j)).isOk = false ∧
            (statusAt after (start + j)).code ≠ .unauthenticated) := by
  obtain ⟨hdb,htable,answers,hperm,hanswers,hfail⟩ := hr
  obtain ⟨responses,after,hget,hupdate,hafter,hlength,hout,heach⟩ :=
    merge_each hne hdb htable hperm hanswers hkeys hlen
  refine ⟨responses,after,hget,hupdate,hafter,hout,_,by simpa using hlength,hfail,?_,?_⟩
  · intro c hc
    obtain ⟨a,ha,rfl⟩ := List.mem_map.mp hc
    exact ⟨a,hperm.mem_iff.mp ha,rfl⟩
  · intro j hj
    have hj : j < answers.length := by simpa using hj
    have hstatus := heach j hj
    simp only [List.getElem_map]
    refine ⟨fun hsuccess => ?_,fun hfailed => ?_⟩
    · rw [hstatus,if_pos ((responseStatus_isOk _).mpr hsuccess)]
    · have hnot : (responseStatus (answers[j]).2).isOk = false := by
        rw [Bool.eq_false_iff,Ne,responseStatus_isOk]
        exact hfailed
      rw [hstatus,hnot]
      exact ⟨hnot,responseStatus_code _⟩

/-- Sending the queue fails from some position of it on, and only there. -/
theorem flush_spec {lower : LowerLayer} (hlower : lower.WellBehaved)
    (hresults : b.p4rtResults = queueResults start b.p4rtUpdates)
    (hkeys : (b.p4rtUpdates.map KeyOpFieldsValues.key).Nodup)
    (hlen : start + b.p4rtUpdates.length ≤ b.statuses.length)
    (hok : ∀ p,start ≤ p → p < start + b.p4rtUpdates.length → (statusAt b.statuses p).isOk = true) :
    ∃ k after sent,start ≤ k ∧ k ≤ start + b.p4rtUpdates.length ∧
      (lower = acceptAll → k = start + b.p4rtUpdates.length) ∧
      performAppDbP4rtUpdates lower b = .ok (decide (k = start + b.p4rtUpdates.length),
        { b with statuses := after,sent := sent }) ∧
      FailedFrom b.statuses k (start + b.p4rtUpdates.length) after := by
  by_cases hne : b.p4rtUpdates = []
  · refine ⟨start,b.statuses,b.sent,le_rfl,by simp,by simp [hne],?_,rfl,fun p _ => rfl,fun p hlo hhi => ?_⟩
    · have hall : decide (start = start + b.p4rtUpdates.length) = true := by simp [hne]
      rw [performAppDbP4rtUpdates,if_pos (by simp [hne]),hall]
    · simp [hne] at hhi
      omega
  obtain ⟨r,hr,hanswers⟩ := hlower.zmq b.sent.length b.p4rtUpdates
  obtain ⟨responses,after,hget,hupdate,hafter,hout,codes,hcodes,hfail,hmem,hposition⟩ :=
    merge_batch hne hanswers hkeys hlen
  obtain ⟨k,hk,hsuccess⟩ := failOnFirst_position hfail
  have hstatus (j : Nat) (hj : j < b.p4rtUpdates.length) :
      (statusAt after (start + j)).isOk = true ↔ j < k := by
    have hj' : j < codes.length := by omega
    rw [← hsuccess j hj']
    refine ⟨fun h => ?_,fun h => ?_⟩
    · by_contra hne
      rw [((hposition j hj').2 hne).1] at h
      cases h
    · rw [(hposition j hj').1 h]
      exact hok _ (by omega) (by omega)
  refine ⟨start + k,after,b.sent ++ [.batch b.p4rtUpdates],by omega,by omega,?_,?_,hafter,?_,?_⟩
  · rintro rfl
    have hall : ∀ j (hj : j < codes.length),codes[j] = .success := by
      intro j hj
      obtain ⟨x,hx,hxc⟩ := hmem codes[j] (List.getElem_mem hj)
      rw [← Option.some.inj hr] at hx
      obtain ⟨u,-,rfl⟩ := List.mem_map.mp hx
      exact hxc.symm
    rcases Nat.lt_or_ge k codes.length with hlt | hge
    · exact absurd ((hsuccess k hlt).mp (hall k hlt)) (lt_irrefl k)
    · omega
  · have hall : (b.p4rtUpdates.all fun u => (statusAt after ((b.p4rtResults.lookup u.key).getD 0)).isOk) =
        decide (start + k = start + b.p4rtUpdates.length) := by
      rw [Bool.eq_iff_iff,List.all_eq_true,decide_eq_true_iff]
      refine ⟨fun h => ?_,fun h u hu => ?_⟩
      · by_contra hlt
        have hk' : k < b.p4rtUpdates.length := by omega
        have hu := h _ (List.getElem_mem hk')
        rw [hresults,queue_lookup hkeys hk',Option.getD_some,hstatus k hk'] at hu
        exact lt_irrefl k hu
      · obtain ⟨j,hj,rfl⟩ := List.mem_iff_getElem.mp hu
        rw [hresults,queue_lookup hkeys hj,Option.getD_some,hstatus j hj]
        omega
    rw [performAppDbP4rtUpdates,if_neg (by simpa using hne),hr,hresults,hget]
    simp only [bind,Except.bind,hupdate]
    rw [← hresults,hall]
  · intro p hp
    rcases hp with hp | hp
    · rcases Nat.lt_or_ge p start with hlo | hlo
      · exact hout p (.inl hlo)
      · obtain ⟨j,rfl⟩ := Nat.exists_eq_add_of_le hlo
        have hj : j < codes.length := by omega
        exact (hposition j hj).1 ((hsuccess j hj).mpr (by omega))
    · exact hout p (.inr hp)
  · intro p hlo hhi
    obtain ⟨j,rfl⟩ := Nat.exists_eq_add_of_le (show start ≤ p by omega)
    have hj : j < codes.length := by omega
    refine (hposition j hj).2 fun h => ?_
    have := (hsuccess j hj).mp h
    omega

theorem flush_collision {lower : LowerLayer} (hlower : lower.WellBehaved)
    (hresults : b.p4rtResults = queueResults start b.p4rtUpdates)
    (hkeys : ¬ (b.p4rtUpdates.map KeyOpFieldsValues.key).Nodup) :
    ∃ failure,performAppDbP4rtUpdates lower b = .error failure := by
  have hne : b.p4rtUpdates ≠ [] := fun h => hkeys (by simp [h])
  obtain ⟨r,hr,-,-,answers,hperm,hanswers,-⟩ := hlower.zmq b.sent.length b.p4rtUpdates
  have hcount := length_foldl_assign (fun x : KeyOpFieldsValues × Nat => x.1.key) Prod.snd (b.p4rtUpdates.zipIdx start)
  rw [zipIdx_keys,List.length_zipIdx] at hcount
  have hdiffer : r.kfvs.length ≠ b.p4rtResults.length := by
    rw [← hperm.length_eq,← hanswers.length_eq,hresults]
    exact fun h => hkeys (hcount.2.mp h.symm)
  have hpos : b.p4rtResults.length ≠ 0 := by
    intro h
    obtain ⟨u,rest,hu⟩ := List.exists_cons_of_ne_nil hne
    have hmem : u.key ∈ b.p4rtResults.map Prod.fst := by
      rw [hresults,queueResults,mem_keys_foldl_assign (fun x : KeyOpFieldsValues × Nat => x.1.key),zipIdx_keys]
      exact .inl (by simp [hu])
    rw [List.length_eq_zero_iff.mp h] at hmem
    simp at hmem
  have herror : ∃ status,getZmqResponses b.p4rtResults.length (some r) = .error status := by
    rw [getZmqResponses,if_neg hpos]
    simp only [ne_eq,hdiffer,not_false_eq_true,if_true]
    exact ⟨_,rfl⟩
  obtain ⟨status,herror⟩ := herror
  refine ⟨(status,b.sent ++ [.batch b.p4rtUpdates]),?_⟩
  rw [performAppDbP4rtUpdates,if_neg (by simpa using hne),hr,herror]
  rfl

section Loop

/-- The keys that are queued together before each flush are distinct. -/
def BatchKeysDistinct : List String → List AppDbUpdate → Prop
  | queued,[] => queued.Nodup
  | queued,u :: updates =>
    if u.table = .p4rt then BatchKeysDistinct (queued ++ [u.update.key]) updates
    else queued.Nodup ∧ BatchKeysDistinct [] updates

instance decidableBatchKeysDistinct : ∀ queued updates,Decidable (BatchKeysDistinct queued updates)
  | queued,[] => inferInstanceAs (Decidable queued.Nodup)
  | queued,u :: updates =>
    haveI := decidableBatchKeysDistinct (queued ++ [u.update.key]) updates
    haveI := decidableBatchKeysDistinct [] updates
    inferInstanceAs (Decidable (if u.table = .p4rt then _ else _ ∧ _))

/-- After `i` updates: either nothing failed and the queue holds the last ones, or
the statuses failed from some position on. -/
structure Progress (statuses : List Status) (i : Nat) (b : AppDbBatch) : Prop where
  queue : b.failed = false → b.statuses = statuses ∧ ∃ start,start + b.p4rtUpdates.length = i ∧
    b.p4rtResults = queueResults start b.p4rtUpdates
  failure : b.failed = true → ∃ k < i,FailedFrom statuses k i b.statuses

variable {lower : LowerLayer} (hlower : lower.WellBehaved)
include hlower

private theorem performAppDbTableUpdate_spec (calls : Nat) (u : AppDbUpdate) :
    ∃ status,performAppDbTableUpdate lower calls u = .ok status ∧ (status.isOk = true → status = .okStatus) ∧
      status.code ≠ .unauthenticated ∧ (lower = acceptAll → status = .okStatus) := by
  obtain ⟨n,hn,hkey,message,rest,hvalues⟩ := hlower.notification calls u
  have hget : getAppDbResponse (lower.notification calls u) =
      .ok [(u.update.key,⟨swssToP4RTErrorCode n.status,cHexEscape message⟩)] := by
    rw [hn,getAppDbResponse,hvalues]
    simp [hkey]
  set status : Status := ⟨swssToP4RTErrorCode n.status,cHexEscape message⟩ with hstatus
  refine ⟨if status.isOk then .okStatus else status,?_,?_,?_,?_⟩
  · rw [performAppDbTableUpdate,hget]
    have hmerge : mergeResponses [(u.update.key,0)] [(u.update.key,status)] [.okStatus] = _ := mergeResponses_eq rfl _
    simp only [bind,Except.bind,updateResponses,hmerge]
    cases h : status.isOk <;> simp [copyFailures,statusAt,h]
  · cases h : status.isOk <;> simp [h]
  · split
    · decide
    · simp only [hstatus]
      cases n.status <;> decide
  · rintro rfl
    have hsuccess : n.status = .success := by rw [← Option.some.inj hn]
    rw [if_pos]
    simp only [hstatus,hsuccess]
    rfl

def queuedKeys (b : AppDbBatch) : List String := b.p4rtUpdates.map KeyOpFieldsValues.key

omit hlower in
private theorem progress_failed {k : Nat} (hk : k < i)
    (h : FailedFrom statuses k i b.statuses) (hlen : i < statuses.length) :
    FailedFrom statuses k (i + 1) (b.statuses.set i notAttempted) where
  length := by rw [List.length_set,h.length]
  unchanged p hp := by
    rw [statusAt_set,if_neg (by omega)]
    exact h.unchanged p (by omega)
  failed p hlo hhi := by
    rw [statusAt_set]
    split
    · decide
    · exact h.failed p hlo (by rw [h.length] at *; omega)

omit hlower in
private theorem failedFrom_set {status : Status} (hlen : i < statuses.length)
    (hfailed : status.isOk = false) (hcode : status.code ≠ .unauthenticated) :
    FailedFrom statuses i (i + 1) (statuses.set i status) where
  length := List.length_set
  unchanged p hp := by rw [statusAt_set,if_neg (by omega)]
  failed p hlo hhi := by
    rw [statusAt_set,if_pos (by omega)]
    exact ⟨hfailed,hcode⟩

omit hlower in
private theorem FailedFrom.eq_of_le {before after : List Status} {k : Nat} (h : FailedFrom before k i after) (hk : i ≤ k) :
    after = before := by
  refine List.ext_getElem h.length fun p hp hp' => ?_
  have hp := h.unchanged p (by omega)
  simpa [statusAt,List.getD_eq_getElem?_getD, *] using hp

theorem tableUpdate_progress {u : AppDbUpdate}
    (h : Progress statuses i b) (hfailed : b.failed = false) (htable : u.table ≠ .p4rt) (hlen : i < statuses.length)
    (hok : ∀ p ≤ i,statusAt statuses p = .okStatus) (hkeys : (queuedKeys b).Nodup) :
    ∃ b',performAppDbUpdate lower b u i = .ok b' ∧ Progress statuses (i + 1) b' ∧ queuedKeys b' = [] ∧
      (lower = acceptAll → b'.failed = false) := by
  obtain ⟨hstatuses,start,hstart,hresults⟩ := h.queue hfailed
  obtain ⟨k,after,sent,hlo,hhi,haccept,hflush,hfrom⟩ := flush_spec hlower hresults hkeys
    (by rw [hstatuses]; omega) (by rw [hstatuses]; intro p _ hp; rw [hok p (by omega)]; rfl)
  rw [hstart] at hhi haccept hflush hfrom
  rw [hstatuses] at hfrom
  rcases Nat.lt_or_ge k i with hk | hk
  · have hne : decide (k = i) = false := decide_eq_false (by omega)
    refine ⟨{ b with
        p4rtUpdates := [],p4rtResults := [],failed := true,statuses := after.set i notAttempted,sent := sent },
      ?_,⟨fun h => (by cases h),fun _ => ?_⟩,rfl,fun hall => ?_⟩
    · rw [performAppDbUpdate,if_neg (by simp [hfailed]),if_neg htable,hflush,hne]
      rfl
    · exact ⟨k,by omega,progress_failed (b := { b with statuses := after }) hk hfrom hlen⟩
    · have := haccept hall
      omega
  · obtain rfl : k = i := by omega
    obtain rfl := hfrom.eq_of_le le_rfl
    obtain ⟨status,hstatus,hexact,hcode,hall⟩ := performAppDbTableUpdate_spec hlower sent.length u
    refine ⟨{ b with
        p4rtUpdates := [],p4rtResults := [],failed := !status.isOk,statuses := after.set k status,
        sent := sent ++ [.single u] },
      ?_,⟨fun hb => ?_,fun hb => ?_⟩,rfl,fun h => ?_⟩
    · rw [performAppDbUpdate,if_neg (by simp [hfailed]),if_neg htable,hflush]
      simp only [bind,Except.bind,decide_true,Bool.not_true,Bool.false_eq_true,if_false,clearQueue,hstatus]
    · refine ⟨?_,k + 1,rfl,rfl⟩
      have hget : after[k] = Status.okStatus := by
        have h := hok k le_rfl
        simpa [statusAt,List.getD_eq_getElem?_getD,hlen] using h
      rw [hexact (by simpa using hb),← hget,List.set_getElem_self]
    · exact ⟨k,by omega,failedFrom_set hlen (by simpa using hb) hcode⟩
    · rw [hall h]
      rfl

variable (lower) in
omit hlower in
theorem queue_progress {u : AppDbUpdate} (h : Progress statuses i b)
    (hfailed : b.failed = false) (htable : u.table = .p4rt) :
    ∃ b',performAppDbUpdate lower b u i = .ok b' ∧ Progress statuses (i + 1) b' ∧ b'.failed = false ∧
      queuedKeys b' = queuedKeys b ++ [u.update.key] := by
  obtain ⟨hstatuses,start,hstart,hresults⟩ := h.queue hfailed
  have hstep : performAppDbUpdate lower b u i = .ok { b with
      p4rtUpdates := b.p4rtUpdates ++ [u.update],
      p4rtResults := assign u.update.key i b.p4rtResults } := by
    rw [performAppDbUpdate,if_neg (by simp [hfailed]),if_pos htable]
  refine ⟨_,hstep,⟨fun _ => ?_,fun h => ?_⟩,hfailed,?_⟩
  · refine ⟨hstatuses,start,?_,?_⟩
    · simp only [List.length_append,List.length_cons,List.length_nil]
      omega
    · simp only
      rw [queueResults_append,hresults,hstart]
  · rw [hfailed] at h
    cases h
  · simp [queuedKeys]

variable (lower) in
omit hlower in
private theorem failed_progress (u : AppDbUpdate) (h : Progress statuses i b)
    (hfailed : b.failed = true) (hlen : i < statuses.length) :
    ∃ b',performAppDbUpdate lower b u i = .ok b' ∧ Progress statuses (i + 1) b' ∧ b'.failed = true := by
  obtain ⟨k,hk,hfrom⟩ := h.failure hfailed
  have hstep : performAppDbUpdate lower b u i = .ok { b with statuses := b.statuses.set i notAttempted } := by
    rw [performAppDbUpdate,if_pos hfailed]
  refine ⟨_,hstep,⟨fun h => ?_,fun _ => ?_⟩,hfailed⟩
  · rw [hfailed] at h
    cases h
  · exact ⟨k,by omega,progress_failed hk hfrom hlen⟩

private theorem performAppDbUpdates_from (updates : List AppDbUpdate)
    (h : Progress statuses i b) (hlen : i + updates.length ≤ statuses.length)
    (hok : ∀ p < i + updates.length,statusAt statuses p = .okStatus)
    (hkeys : b.failed = false → BatchKeysDistinct (queuedKeys b) updates) :
    ∃ k ≤ i + updates.length,∃ succeeded after sent,runAppDbUpdates lower (updates.zipIdx i) b = .ok (succeeded,after,sent) ∧
      FailedFrom statuses k (i + updates.length) after := by
  induction updates generalizing i b with
  | nil =>
    cases hfailed : b.failed with
    | true =>
      obtain ⟨k,hk,hfrom⟩ := h.failure hfailed
      exact ⟨k,by simpa using hk.le,false,b.statuses,b.sent,by simp [runAppDbUpdates,hfailed],hfrom⟩
    | false =>
      obtain ⟨hstatuses,start,hstart,hresults⟩ := h.queue hfailed
      simp only [List.length_nil,Nat.add_zero] at hlen hok ⊢
      obtain ⟨k,after,sent,hlo,hhi,-,hflush,hfrom⟩ := flush_spec hlower hresults (hkeys hfailed)
        (by rw [hstatuses]; omega) (by rw [hstatuses]; intro p _ hp; rw [hok p (by omega)]; rfl)
      rw [hstart] at hhi hfrom
      rw [hstatuses] at hfrom
      exact ⟨k,hhi,decide (k = start + b.p4rtUpdates.length),after,sent,by simp [runAppDbUpdates,hfailed,hflush,Except.map],hfrom⟩
  | cons u updates ih =>
    rw [List.length_cons] at hlen hok
    have hstep : ∃ b',performAppDbUpdate lower b u i = .ok b' ∧ Progress statuses (i + 1) b' ∧
        (b'.failed = false → BatchKeysDistinct (queuedKeys b') updates) := by
      cases hfailed : b.failed with
      | true =>
        obtain ⟨b',hb',hprogress,hfailed'⟩ := failed_progress lower u h hfailed (by omega)
        exact ⟨b',hb',hprogress,fun h => by rw [hfailed'] at h; cases h⟩
      | false =>
        have hdistinct := hkeys hfailed
        rw [BatchKeysDistinct] at hdistinct
        by_cases htable : u.table = .p4rt
        · obtain ⟨b',hb',hprogress,-,hqueue⟩ := queue_progress lower h hfailed htable
          rw [if_pos htable,← hqueue] at hdistinct
          exact ⟨b',hb',hprogress,fun _ => hdistinct⟩
        · rw [if_neg htable] at hdistinct
          obtain ⟨b',hb',hprogress,hqueue,-⟩ := tableUpdate_progress hlower h hfailed htable (by omega)
            (fun p hp => hok p (by omega)) hdistinct.1
          exact ⟨b',hb',hprogress,fun _ => hqueue ▸ hdistinct.2⟩
    obtain ⟨b',hb',hprogress,hdistinct⟩ := hstep
    obtain ⟨k,hk,succeeded,after,sent,hrest,hfrom⟩ := ih hprogress (by omega) (fun p hp => hok p (by omega)) hdistinct
    refine ⟨k,by rw [List.length_cons]; omega,succeeded,after,sent,?_,?_⟩
    · rw [List.zipIdx_cons,runAppDbUpdates,hb']
      exact hrest
    · rw [List.length_cons,show i + (updates.length + 1) = i + 1 + updates.length by omega]
      exact hfrom

theorem performAppDbUpdates_spec {updates : List AppDbUpdate}
    (hlen : updates.length ≤ statuses.length) (hok : ∀ p < updates.length,statusAt statuses p = .okStatus)
    (hkeys : BatchKeysDistinct [] updates) :
    ∃ k ≤ updates.length,∃ succeeded after sent,performAppDbUpdates lower updates.zipIdx statuses = .ok (succeeded,after,sent) ∧
      FailedFrom statuses k updates.length after := by
  have hstart : Progress statuses 0 { statuses := statuses } :=
    ⟨fun _ => ⟨rfl,0,rfl,rfl⟩,fun h => (by cases h)⟩
  have h := performAppDbUpdates_from hlower updates hstart (by omega) (by simpa using hok) fun _ => hkeys
  simpa only [performAppDbUpdates,Nat.zero_add] using h

end Loop

private theorem performAppDbUpdates_collision_from (updates : List AppDbUpdate)
    (h : Progress statuses i b) (hfailed : b.failed = false)
    (hlen : i + updates.length ≤ statuses.length) (hok : ∀ p < i + updates.length,statusAt statuses p = .okStatus)
    (hkeys : ¬ BatchKeysDistinct (queuedKeys b) updates) :
    ∃ failure,runAppDbUpdates acceptAll (updates.zipIdx i) b = .error failure := by
  induction updates generalizing i b with
  | nil =>
    obtain ⟨hstatuses,start,hstart,hresults⟩ := h.queue hfailed
    obtain ⟨failure,hfailure⟩ := flush_collision acceptAll_wellBehaved hresults hkeys
    exact ⟨failure,by simp [runAppDbUpdates,hfailed,hfailure,Except.map]⟩
  | cons u updates ih =>
    rw [List.length_cons] at hlen hok
    rw [BatchKeysDistinct] at hkeys
    rw [List.zipIdx_cons,runAppDbUpdates]
    by_cases htable : u.table = .p4rt
    · obtain ⟨b',hb',hprogress,hfailed',hqueue⟩ := queue_progress acceptAll h hfailed htable
      rw [if_pos htable,← hqueue] at hkeys
      obtain ⟨failure,hfailure⟩ := ih hprogress hfailed' (by omega) (fun p hp => hok p (by omega)) hkeys
      refine ⟨failure,?_⟩
      rw [hb']
      exact hfailure
    · rw [if_neg htable,not_and] at hkeys
      by_cases hqueued : (queuedKeys b).Nodup
      · obtain ⟨b',hb',hprogress,hqueue,haccepted⟩ := tableUpdate_progress acceptAll_wellBehaved h hfailed htable
          (by omega) (fun p hp => hok p (by omega)) hqueued
        obtain ⟨failure,hfailure⟩ := ih hprogress (haccepted rfl) (by omega) (fun p hp => hok p (by omega))
          (hqueue ▸ hkeys hqueued)
        refine ⟨failure,?_⟩
        rw [hb']
        exact hfailure
      · obtain ⟨-,start,-,hresults⟩ := h.queue hfailed
        obtain ⟨failure,hfailure⟩ := flush_collision acceptAll_wellBehaved hresults hqueued
        refine ⟨failure,?_⟩
        rw [performAppDbUpdate,if_neg (by simp [hfailed]),if_neg htable,hfailure]
        rfl

theorem performAppDbUpdates_collision {updates : List AppDbUpdate}
    (hlen : updates.length ≤ statuses.length) (hok : ∀ p < updates.length,statusAt statuses p = .okStatus)
    (hkeys : ¬ BatchKeysDistinct [] updates) :
    ∃ failure,performAppDbUpdates acceptAll updates.zipIdx statuses = .error failure := by
  have hstart : Progress statuses 0 { statuses := statuses } :=
    ⟨fun _ => ⟨rfl,0,rfl,rfl⟩,fun h => (by cases h)⟩
  exact performAppDbUpdates_collision_from updates hstart rfl (by omega) (by simpa using hok) hkeys
end SonicPins.Sonic
