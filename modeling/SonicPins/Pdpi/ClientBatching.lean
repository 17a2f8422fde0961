import SonicPins.Pdpi.DependencySorting
import SonicPins.Pdpi.WriteRequests

/-! The client's two loops that split updates into write requests, and what they send. -/
namespace SonicPins.Pdpi
open Lib References

/-- The parts of a session that go into its requests. -/
structure P4RuntimeSession where
  deviceId : UInt64
  role : String
  electionId : Uint128
  deriving DecidableEq

def setMetadata (session : P4RuntimeSession) (request : WriteRequest) : WriteRequest :=
  { request with deviceId := session.deviceId,role := session.role,electionId := some session.electionId }

/-- The requests that are sent, and the status. A switch answers a request after those before it. -/
def sendPiWriteRequests (session : P4RuntimeSession) (answer : List WriteRequest → WriteRequest → Status) :
    List WriteRequest → List WriteRequest → List WriteRequest × Status
  | sent,[] => (sent,.okStatus)
  | sent,request :: requests =>
    let status := answer sent (setMetadata session request)
    if status.isOk then sendPiWriteRequests session answer (sent ++ [setMetadata session request]) requests
    else (sent ++ [setMetadata session request],status.annotate (" during request at index #" ++ natText sent.length))

def sendBuilt (session : P4RuntimeSession) (answer : List WriteRequest → WriteRequest → Status)
    (requests : StatusOr (List WriteRequest)) : List WriteRequest × Status :=
  match requests with
  | .error status => ([],status)
  | .ok requests => sendPiWriteRequests session answer [] requests

def batchSizeError (maxBatchSize : Option Int) : Status :=
  invalidArgument ("Max batch size must be > 0. Max batch size: " ++ decimal (maxBatchSize.getD 0))

/-- The loop of `SendPiUpdates`, which looks at the size after an update was added. -/
def addUpdates (maxBatchSize : Option Int) : List Update → List WriteRequest → WriteRequest → List WriteRequest
  | [],requests,request => requests ++ [request]
  | update :: updates,requests,request =>
    let request := request.addUpdate update
    if maxBatchSize.any fun m => m ≤ (request.updates.length : Int) then addUpdates maxBatchSize updates (requests ++ [request]) {}
    else addUpdates maxBatchSize updates requests request

def piUpdateRequests (updates : List Update) (maxBatchSize : Option Int) : StatusOr (List WriteRequest) :=
  if maxBatchSize.any fun m => m ≤ 0 then .error (batchSizeError maxBatchSize)
  else .ok (addUpdates maxBatchSize updates [] {})

def sendPiUpdates (session : P4RuntimeSession) (answer : List WriteRequest → WriteRequest → Status) (updates : List Update)
    (maxBatchSize : Option Int) : List WriteRequest × Status :=
  sendBuilt session answer (piUpdateRequests updates maxBatchSize)

/-- The loop of `SplitSortedUpdatesIntoBatchesAndSend`, which looks at the size before an update is added. -/
def addRankedUpdates (info : IrP4Info) (maxBatchSize : Option Int) : List Update → List WriteRequest → WriteRequest → Option Int →
    StatusOr (List WriteRequest)
  | [],requests,request,_ => .ok (requests ++ [request])
  | update :: updates,requests,request,lastRank => do
    let rank ← entityRank info update.entity
    if lastRank.any (fun last => last ≠ rank) || maxBatchSize.any (fun m => m < (request.updates.length : Int)) then
      addRankedUpdates info maxBatchSize updates (requests ++ [request]) (WriteRequest.addUpdate {} update) (some rank)
    else addRankedUpdates info maxBatchSize updates requests (request.addUpdate update) (some rank)

def rankedUpdateRequests (info : IrP4Info) (updates : List Update) (maxBatchSize : Option Int) : StatusOr (List WriteRequest) :=
  if maxBatchSize.any fun m => m ≤ 0 then .error (batchSizeError maxBatchSize)
  else addRankedUpdates info maxBatchSize updates [] {} none

def splitSortedUpdatesIntoBatchesAndSend (session : P4RuntimeSession) (answer : List WriteRequest → WriteRequest → Status)
    (info : IrP4Info) (updates : List Update) (maxBatchSize : Option Int) : List WriteRequest × Status :=
  sendBuilt session answer (rankedUpdateRequests info updates maxBatchSize)

section Sent
variable {session : P4RuntimeSession} {answer : List WriteRequest → WriteRequest → Status}

/-- A first part of the requests is sent, all of them if the status is OK. -/
theorem sendPiWriteRequests_spec (sent requests : List WriteRequest) : ∃ front back,requests = front ++ back ∧
    (sendPiWriteRequests session answer sent requests).1 = sent ++ front.map (setMetadata session) ∧
    ((sendPiWriteRequests session answer sent requests).2.isOk = true → back = []) := by
  induction requests generalizing sent with
  | nil => exact ⟨[],[],rfl,by simp [sendPiWriteRequests],fun _ => rfl⟩
  | cons request requests ih =>
    rw [sendPiWriteRequests]
    by_cases hok : (answer sent (setMetadata session request)).isOk = true
    · rw [if_pos hok]
      obtain ⟨front,back,hrequests,hsent,hall⟩ := ih (sent ++ [setMetadata session request])
      exact ⟨request :: front,back,by rw [hrequests,List.cons_append],by rw [hsent]; simp,hall⟩
    · rw [if_neg hok]
      exact ⟨[request],requests,rfl,rfl,fun h => absurd h hok⟩

theorem sent_mem {requests sent : List WriteRequest} {r : WriteRequest} (h : r ∈ (sendPiWriteRequests session answer sent requests).1) :
    r ∈ sent ∨ ∃ request ∈ requests,r = setMetadata session request := by
  obtain ⟨front,back,rfl,hsent,-⟩ := @sendPiWriteRequests_spec session answer sent requests
  rw [hsent] at h
  refine (List.mem_append.mp h).imp_right fun h => ?_
  obtain ⟨request,hrequest,rfl⟩ := List.mem_map.mp h
  exact ⟨request,List.mem_append_left back hrequest,rfl⟩

private theorem sent_of_accepting {requests sent : List WriteRequest} :
    (sendPiWriteRequests session (fun _ _ => .okStatus) sent requests).1 = sent ++ requests.map (setMetadata session) := by
  induction requests generalizing sent with
  | nil => simp [sendPiWriteRequests]
  | cons request requests ih =>
    unfold sendPiWriteRequests
    simp only [Status.okStatus_isOk,if_true]
    rw [ih,List.map_cons,List.append_assoc]
    rfl

/-- At least one and at most `m` updates. -/
def FitsBatch (m : Nat) (request : WriteRequest) : Prop := 1 ≤ request.updates.length ∧ request.updates.length ≤ m

/-- What is sent fits, whatever the switch answers. -/
def SendsFittingBatches (m : Nat) (send : P4RuntimeSession → (List WriteRequest → WriteRequest → Status) → List WriteRequest × Status) :
    Prop := ∀ session answer,∀ r ∈ (send session answer).1,FitsBatch m r

theorem sendsFittingBatches_iff {m : Nat} {requests : List WriteRequest} :
    SendsFittingBatches m (fun session answer => sendBuilt session answer (.ok requests)) ↔ ∀ r ∈ requests,FitsBatch m r := by
  constructor
  · intro h r hr
    have hsent : ∀ x ∈ (sendPiWriteRequests ⟨0,"",{}⟩ (fun _ _ => .okStatus) [] requests).1,FitsBatch m x :=
      h ⟨0,"",{}⟩ fun _ _ => .okStatus
    rw [sent_of_accepting] at hsent
    exact hsent (setMetadata ⟨0,"",{}⟩ r) (List.mem_append_right _ (List.mem_map_of_mem hr))
  · intro h session answer r hr
    obtain ⟨request,hrequest,rfl⟩ := (sent_mem hr).resolve_left List.not_mem_nil
    exact h request hrequest

end Sent

/-! ### The batches of the first loop -/

section Sizes
variable {m : Nat}

private theorem addUpdates_full (hm : 0 < m) (updates : List Update) (requests : List WriteRequest) (request : WriteRequest)
    (hfull : ∀ r ∈ requests,r.updates.length = m) (hroom : request.updates.length < m) :
    ∃ front last,addUpdates (some (m : Int)) updates requests request = front ++ [last] ∧
      (∀ r ∈ front,r.updates.length = m) ∧ last.updates.length < m ∧
      (front ++ [last]).flatMap WriteRequest.updates = requests.flatMap WriteRequest.updates ++ request.updates ++ updates := by
  induction updates generalizing requests request with
  | nil => exact ⟨requests,request,rfl,hfull,hroom,by simp⟩
  | cons update updates ih =>
    have hlength : (request.addUpdate update).updates.length = request.updates.length + 1 := by simp [WriteRequest.addUpdate]
    by_cases hreached : m ≤ (request.addUpdate update).updates.length
    · have heq : addUpdates (some (m : Int)) (update :: updates) requests request =
          addUpdates (some (m : Int)) updates (requests ++ [request.addUpdate update]) {} := by
        rw [addUpdates]
        exact if_pos (by simpa using hreached)
      have hfull' : ∀ r ∈ requests ++ [request.addUpdate update],r.updates.length = m := by
        intro r hr
        rcases List.mem_append.mp hr with hr | hr
        · exact hfull r hr
        · rw [List.mem_singleton.mp hr]
          omega
      obtain ⟨front,last,hrun,hfront,hlast,hall⟩ := ih (requests ++ [request.addUpdate update]) {} hfull' hm
      refine ⟨front,last,heq.trans hrun,hfront,hlast,?_⟩
      rw [hall,List.flatMap_append]
      simp [WriteRequest.addUpdate]
    · have heq : addUpdates (some (m : Int)) (update :: updates) requests request =
          addUpdates (some (m : Int)) updates requests (request.addUpdate update) := by
        rw [addUpdates]
        exact if_neg (by simpa using hreached)
      obtain ⟨front,last,hrun,hfront,hlast,hall⟩ := ih requests (request.addUpdate update) hfull (by omega)
      refine ⟨front,last,heq.trans hrun,hfront,hlast,?_⟩
      rw [hall]
      simp [WriteRequest.addUpdate]

theorem piUpdateRequests_eq (hm : 0 < m) (updates : List Update) :
    piUpdateRequests updates (some (m : Int)) = .ok (addUpdates (some (m : Int)) updates [] {}) := by
  rw [piUpdateRequests]
  exact if_neg (by simpa using hm.ne')

theorem addUpdates_fit_iff (hm : 0 < m) (updates : List Update) :
    (addUpdates (some (m : Int)) updates [] {}).flatMap WriteRequest.updates = updates ∧
    ((∀ r ∈ addUpdates (some (m : Int)) updates [] {},FitsBatch m r) ↔ ¬ m ∣ updates.length) := by
  obtain ⟨front,last,hrun,hfront,hlast,hall⟩ := addUpdates_full hm updates [] {} (by simp) hm
  rw [hrun,hall]
  refine ⟨by simp,?_⟩
  have hlength : updates.length = front.length * m + last.updates.length := by
    have hmap : ∀ us ∈ front.map WriteRequest.updates,us.length = m := by
      intro us hus
      obtain ⟨r,hr,rfl⟩ := List.mem_map.mp hus
      exact hfront r hr
    have hcount := congrArg List.length hall
    rw [List.flatMap_append,List.flatMap_def,List.length_append,length_flatten_full hmap] at hcount
    simpa using hcount.symm
  have hdvd : m ∣ updates.length ↔ last.updates.length = 0 := by
    rw [hlength,Nat.dvd_add_right (Nat.dvd_mul_left m front.length)]
    exact ⟨fun h => Nat.eq_zero_of_dvd_of_lt h hlast,fun h => h ▸ Nat.dvd_zero m⟩
  rw [hdvd]
  constructor
  · intro h hempty
    have hfits := (h last (by simp)).1
    omega
  · intro hne r hr
    rcases List.mem_append.mp hr with hr | hr
    · exact ⟨(hfront r hr).symm ▸ hm,(hfront r hr).le⟩
    · rw [List.mem_singleton.mp hr]
      exact ⟨Nat.one_le_iff_ne_zero.mpr hne,hlast.le⟩

end Sizes

/-! ### The batches of the second loop -/

section Ranks
variable {α : Type} (rank : α → Int) (m : Nat)

/-- The batches from an open one on: a new one starts at another rank, or after more than `m` items. -/
def rankedBatches : List α → List α → List (List α)
  | open_,[] => [open_]
  | open_,a :: rest =>
    if (open_.getLast?.any fun last => rank last ≠ rank a) || decide (m < open_.length) then open_ :: rankedBatches [a] rest
    else rankedBatches (open_ ++ [a]) rest

def SameRank (l : List α) : Prop := ∀ a ∈ l,∀ b ∈ l,rank a = rank b

variable {rank m} {a : α} {current rest : List α}

theorem SameRank.concat (h : SameRank rank current) (hlast : ∀ last ∈ current.getLast?,rank last = rank a) :
    SameRank rank (current ++ [a]) := by
  have hall : ∀ b ∈ current,rank b = rank a := by
    intro b hb
    have hne := List.ne_nil_of_mem hb
    rw [h b hb (current.getLast hne) (List.getLast_mem hne)]
    exact hlast _ (List.getLast?_eq_some_getLast hne)
  intro x hx y hy
  rcases List.mem_append.mp hx with hx | hx <;> rcases List.mem_append.mp hy with hy | hy
  · exact h x hx y hy
  · rw [List.mem_singleton.mp hy]
    exact hall x hx
  · rw [List.mem_singleton.mp hx]
    exact (hall y hy).symm
  · rw [List.mem_singleton.mp hx,List.mem_singleton.mp hy]

private theorem sameRank_of_goes_on (h : ¬ ((current.getLast?.any fun last => rank last ≠ rank a) || decide (m < current.length)) = true) :
    (∀ last ∈ current.getLast?,rank last = rank a) ∧ current.length ≤ m := by
  rw [Bool.or_eq_true,not_or] at h
  refine ⟨fun last hlast => ?_,by simpa using h.2⟩
  by_contra hne
  refine h.1 ?_
  rw [Option.mem_def.mp hlast]
  simpa using hne

theorem rankedBatches_flatten : (rankedBatches rank m current rest).flatten = current ++ rest := by
  induction rest generalizing current with
  | nil => simp [rankedBatches]
  | cons a rest ih =>
    rw [rankedBatches]
    split_ifs
    · rw [List.flatten_cons,ih]
      rfl
    · rw [ih]
      simp

theorem rankedBatches_sameRank (h : SameRank rank current) : ∀ batch ∈ rankedBatches rank m current rest,SameRank rank batch := by
  induction rest generalizing current with
  | nil => simpa [rankedBatches] using h
  | cons a rest ih =>
    rw [rankedBatches]
    split_ifs with hnew
    · refine List.forall_mem_cons.mpr ⟨h,ih ?_⟩
      intro x hx y hy
      rw [List.mem_singleton.mp hx,List.mem_singleton.mp hy]
    · exact ih (h.concat (sameRank_of_goes_on hnew).1)

private theorem rankedBatches_ne_nil (h : current ≠ []) : ∀ batch ∈ rankedBatches rank m current rest,batch ≠ [] := by
  induction rest generalizing current with
  | nil => simpa [rankedBatches] using h
  | cons a rest ih =>
    rw [rankedBatches]
    split_ifs
    · exact List.forall_mem_cons.mpr ⟨h,ih (by simp)⟩
    · exact ih (by simp)

private theorem exists_batch_from (rank : α → Int) (m : Nat) (current rest : List α) : ∃ batch ∈ rankedBatches rank m current rest,
    current.length ≤ batch.length := by
  induction rest generalizing current with
  | nil => exact ⟨current,by simp [rankedBatches],le_rfl⟩
  | cons a rest ih =>
    rw [rankedBatches]
    split_ifs
    · exact ⟨current,List.mem_cons_self,le_rfl⟩
    · obtain ⟨batch,hbatch,hle⟩ := ih (current ++ [a])
      exact ⟨batch,hbatch,le_trans (by simp) hle⟩

theorem exists_long_batch (current after : List α) {run : List α} (hne : current ≠ [])
    (hrun : ∀ last ∈ current.getLast?,∀ a ∈ run,rank last = rank a)
    (hlong : m < current.length + run.length) : ∃ batch ∈ rankedBatches rank m current (run ++ after),m < batch.length := by
  induction run generalizing current with
  | nil =>
    obtain ⟨batch,hbatch,hle⟩ := exists_batch_from rank m current after
    exact ⟨batch,hbatch,lt_of_lt_of_le (by simpa using hlong) hle⟩
  | cons a run ih =>
    obtain ⟨last,hlast⟩ : ∃ last,current.getLast? = some last := ⟨_,List.getLast?_eq_some_getLast hne⟩
    rw [List.cons_append,rankedBatches]
    split_ifs with hnew
    · refine ⟨current,List.mem_cons_self,?_⟩
      rw [hlast,Bool.or_eq_true] at hnew
      rcases hnew with hnew | hnew
      · exact absurd (hrun last hlast a List.mem_cons_self) (by simpa using hnew)
      · exact of_decide_eq_true hnew
    · refine ih (current ++ [a]) (by simp) (fun last' hlast' b hb => ?_) ?_
      · obtain rfl : a = last' := by simpa using hlast'
        rw [← hrun last hlast a List.mem_cons_self]
        exact hrun last hlast b (List.mem_cons_of_mem a hb)
      · simp only [List.length_append,List.length_cons,List.length_nil] at hlong ⊢
        omega

theorem exists_long_batch_of_infix (current before after : List α) {run : List α} (hsame : SameRank rank run) (hlong : m < run.length) :
    ∃ batch ∈ rankedBatches rank m current (before ++ (run ++ after)),m < batch.length := by
  induction before generalizing current with
  | nil =>
    cases run with
    | nil => simp at hlong
    | cons a run =>
      have hrun : ∀ last ∈ (current ++ [a]).getLast?,∀ b ∈ run,rank last = rank b := by
        intro last hlast b hb
        obtain rfl : a = last := by simpa using hlast
        exact hsame a List.mem_cons_self b (List.mem_cons_of_mem a hb)
      rw [List.nil_append,List.cons_append,rankedBatches]
      split_ifs
      · obtain ⟨batch,hbatch,hm⟩ := exists_long_batch [a] after (by simp)
          (fun last hlast => hrun last (by simpa using hlast)) (by simpa [Nat.add_comm] using hlong)
        exact ⟨batch,List.mem_cons_of_mem current hbatch,hm⟩
      · refine exists_long_batch (current ++ [a]) after (by simp) hrun ?_
        simp only [List.length_append,List.length_cons,List.length_nil] at hlong ⊢
        omega
  | cons b before ih =>
    rw [List.cons_append,rankedBatches]
    split_ifs
    · obtain ⟨batch,hbatch,hm⟩ := ih [b]
      exact ⟨batch,List.mem_cons_of_mem current hbatch,hm⟩
    · exact ih (current ++ [b])

private theorem rankedBatches_length_iff (rank : α → Int) (m : Nat) (l : List α) :
    (∀ batch ∈ rankedBatches rank m [] l,batch.length ≤ m) ↔ ∀ run,run <:+: l → SameRank rank run → run.length ≤ m := by
  constructor
  · rintro h run ⟨before,after,rfl⟩ hsame
    by_contra hlong
    rw [List.append_assoc] at h
    obtain ⟨batch,hbatch,hm⟩ := exists_long_batch_of_infix [] before after hsame (not_le.mp hlong)
    exact absurd (h batch hbatch) (not_le.mpr hm)
  · intro h batch hbatch
    refine h batch ?_ (rankedBatches_sameRank (by simp [SameRank]) batch hbatch)
    have hflatten : (rankedBatches rank m [] l).flatten = l := rankedBatches_flatten
    rw [← hflatten]
    exact List.infix_of_mem_flatten hbatch

end Ranks

section Ranked
variable {info : IrP4Info} {m : Nat}

def updateRank (info : IrP4Info) (update : Update) : Int := (entityRank info update.entity).toOption.getD 0

private theorem entityRank_eq {update : Update} (h : HasKnownTable info update.entity) : entityRank info update.entity =
    .ok (updateRank info update) := by
  obtain ⟨rank,hrank⟩ := h
  rw [updateRank,hrank]
  rfl

theorem addRankedUpdates_eq (updates : List Update) (hranks : ∀ u ∈ updates,HasKnownTable info u.entity) (requests : List WriteRequest)
    (current : List Update) : addRankedUpdates info (some (m : Int)) updates requests { updates := current }
        (current.getLast?.map (updateRank info)) =
      .ok (requests ++ requestsWith {} (rankedBatches (updateRank info) m current updates)) := by
  induction updates generalizing requests current with
  | nil => rfl
  | cons update updates ih =>
    obtain ⟨hrank,hrest⟩ := List.forall_mem_cons.mp hranks
    have hnew : ((current.getLast?.map (updateRank info)).any (fun last => last ≠ updateRank info update) ||
        (some (m : Int)).any (fun m => m < (current.length : Int))) =
        ((current.getLast?.any fun last => updateRank info last ≠ updateRank info update) || decide (m < current.length)) := by
      cases current.getLast? <;> simp
    rw [addRankedUpdates,entityRank_eq hrank,rankedBatches]
    change (if _ then _ else _) = _
    rw [hnew]
    split_ifs
    · have hstep := ih hrest (requests ++ [{ updates := current }]) [update]
      rw [List.append_assoc] at hstep
      exact hstep
    · have hstep := ih hrest requests (current ++ [update])
      rw [List.getLast?_concat] at hstep
      exact hstep

/-- No more than `m` updates of one rank follow each other. -/
def HasShortRuns (info : IrP4Info) (m : Nat) (updates : List Update) : Prop :=
  ∀ run,run <:+: updates → SameRank (updateRank info) run → run.length ≤ m

theorem rankedUpdateRequests_eq (hm : 0 < m) {updates : List Update} (hranks : ∀ u ∈ updates,HasKnownTable info u.entity) :
    rankedUpdateRequests info updates (some (m : Int)) = .ok (requestsWith {} (rankedBatches (updateRank info) m [] updates)) := by
  rw [rankedUpdateRequests]
  exact (if_neg (by simpa using hm.ne')).trans (addRankedUpdates_eq updates hranks [] [])

theorem addRankedUpdates_error (maxBatchSize : Option Int) {updates : List Update} (h : ∃ u ∈ updates,¬ HasKnownTable info u.entity)
    (requests : List WriteRequest) (request : WriteRequest) (lastRank : Option Int) :
    ∃ e,addRankedUpdates info maxBatchSize updates requests request lastRank = .error e := by
  induction updates generalizing requests request lastRank with
  | nil =>
    obtain ⟨u,hu,-⟩ := h
    exact absurd hu List.not_mem_nil
  | cons update updates ih =>
    cases hrank : entityRank info update.entity with
    | error e => exact ⟨e,by rw [addRankedUpdates,hrank]; rfl⟩
    | ok rank =>
      have hrest : ∃ u ∈ updates,¬ HasKnownTable info u.entity := by
        obtain ⟨u,hu,hunknown⟩ := h
        refine ⟨u,(List.mem_cons.mp hu).resolve_left ?_,hunknown⟩
        rintro rfl
        exact hunknown ⟨rank,hrank⟩
      rw [addRankedUpdates,hrank]
      by_cases hnew : (lastRank.any (fun last => last ≠ rank) || maxBatchSize.any fun m => m < (request.updates.length : Int)) = true
      · obtain ⟨e,he⟩ := ih hrest (requests ++ [request]) (WriteRequest.addUpdate {} update) (some rank)
        exact ⟨e,(if_pos hnew).trans he⟩
      · obtain ⟨e,he⟩ := ih hrest requests (request.addUpdate update) (some rank)
        exact ⟨e,(if_neg hnew).trans he⟩

private theorem rankedBatches_fit_iff (updates : List Update) :
    (∀ r ∈ requestsWith {} (rankedBatches (updateRank info) m [] updates),FitsBatch m r) ↔
      updates ≠ [] ∧ HasShortRuns info m updates := by
  have hlength := rankedBatches_length_iff (updateRank info) m updates
  have hfits : (∀ r ∈ requestsWith {} (rankedBatches (updateRank info) m [] updates),FitsBatch m r) ↔
      (∀ batch ∈ rankedBatches (updateRank info) m [] updates,batch ≠ []) ∧
        ∀ batch ∈ rankedBatches (updateRank info) m [] updates,batch.length ≤ m := by
    simp only [requestsWith,List.forall_mem_map,FitsBatch,Nat.one_le_iff_ne_zero,ne_eq,List.length_eq_zero_iff,forall_and]
  have hne : (∀ batch ∈ rankedBatches (updateRank info) m [] updates,batch ≠ []) ↔ updates ≠ [] := by
    cases updates with
    | nil => simp [rankedBatches]
    | cons u updates =>
      have hstart : rankedBatches (updateRank info) m [] (u :: updates) = rankedBatches (updateRank info) m [u] updates := by
        simp [rankedBatches]
      rw [hstart]
      exact iff_of_true (rankedBatches_ne_nil (by simp)) (by simp)
  rw [hfits,hne,hlength]
  rfl

/-- What the client's two loops build holds the updates in order and mixes no ranks; what they send
fits exactly where no empty request is left at the end, and no run of one rank is too long. -/
theorem client_batching_iff (hm : 0 < m) (updates : List Update) :
    (∃ requests,piUpdateRequests updates (some (m : Int)) = .ok requests ∧ requests.flatMap WriteRequest.updates = updates ∧
      (SendsFittingBatches m (fun session answer => sendPiUpdates session answer updates (some (m : Int))) ↔ ¬ m ∣ updates.length)) ∧
    ((∀ u ∈ updates,HasKnownTable info u.entity) → ∃ requests,rankedUpdateRequests info updates (some (m : Int)) = .ok requests ∧
      requests.flatMap WriteRequest.updates = updates ∧ (∀ r ∈ requests,SameRank (updateRank info) r.updates) ∧
      (SendsFittingBatches m (fun session answer => splitSortedUpdatesIntoBatchesAndSend session answer info updates (some (m : Int))) ↔
        updates ≠ [] ∧ HasShortRuns info m updates)) ∧
    ((∃ u ∈ updates,¬ HasKnownTable info u.entity) → ∃ e,rankedUpdateRequests info updates (some (m : Int)) = .error e) := by
  refine ⟨?_,?_,fun hunknown => ?_⟩
  · obtain ⟨hall,hfits⟩ := addUpdates_fit_iff hm updates
    refine ⟨_,piUpdateRequests_eq hm updates,hall,?_⟩
    unfold sendPiUpdates
    rw [piUpdateRequests_eq hm,sendsFittingBatches_iff,hfits]
  · intro hranks
    refine ⟨_,rankedUpdateRequests_eq hm hranks,?_,?_,?_⟩
    · rw [requestsWith,List.flatMap_map]
      exact List.flatMap_id'.trans rankedBatches_flatten
    · intro r hr
      obtain ⟨batch,hbatch,rfl⟩ := List.mem_map.mp hr
      exact rankedBatches_sameRank (by simp [SameRank]) batch hbatch
    · unfold splitSortedUpdatesIntoBatchesAndSend
      rw [rankedUpdateRequests_eq hm hranks,sendsFittingBatches_iff,rankedBatches_fit_iff]
  · rw [rankedUpdateRequests,if_neg (by simpa using hm.ne')]
    exact addRankedUpdates_error _ hunknown [] {} none

end Ranked

def insertGroup (id : UInt32) : Update := ⟨.insert,.packetReplicationEngineEntry (.multicastGroupEntry { multicastGroupId := id })⟩

def groupInfo : IrP4Info := { dependencyRankByTableName := [(getMulticastGroupTableName,0)] }

def threeGroups : List Update := [insertGroup 1,insertGroup 2,insertGroup 3]

def acceptRequests : List WriteRequest → WriteRequest → Status := fun _ _ => .okStatus

/-- Three updates of one rank fit into requests of four. -/
theorem three_groups_in_fours :
    SendsFittingBatches 4 (fun session answer => sendPiUpdates session answer threeGroups (some (4 : Nat))) ∧
    ∃ requests,rankedUpdateRequests groupInfo threeGroups (some (4 : Nat)) = .ok requests ∧
      SendsFittingBatches 4 (fun session answer =>
        splitSortedUpdatesIntoBatchesAndSend session answer groupInfo threeGroups (some (4 : Nat))) := by
  have hknown : ∀ u ∈ threeGroups,HasKnownTable groupInfo u.entity := by
    intro u hu
    have hu : u = insertGroup 1 ∨ u = insertGroup 2 ∨ u = insertGroup 3 := by simpa [threeGroups] using hu
    rcases hu with rfl | rfl | rfl <;> exact ⟨0,by decide⟩
  obtain ⟨⟨-,-,-,hsend⟩,hranked,-⟩ := @client_batching_iff groupInfo 4 (by decide) threeGroups
  obtain ⟨requests,hrequests,-,-,hsplit⟩ := hranked hknown
  refine ⟨hsend.mpr (by decide),requests,hrequests,hsplit.mpr ⟨by decide,fun run hrun _ => ?_⟩⟩
  exact hrun.length_le.trans (by decide)

/-- A request that is too long, and one without updates. -/
theorem three_groups_misfit :
    (∃ r ∈ (splitSortedUpdatesIntoBatchesAndSend ⟨1,"",{}⟩ acceptRequests groupInfo threeGroups (some 2)).1,r.updates.length = 3) ∧
    (∃ r ∈ (sendPiUpdates ⟨1,"",{}⟩ acceptRequests threeGroups (some 3)).1,r.updates = []) ∧
    ¬ ∀ (info : IrP4Info) (updates : List Update) (m : Nat),0 < m → (∀ u ∈ updates,HasKnownTable info u.entity) →
      SendsFittingBatches m (fun session answer => sendPiUpdates session answer updates (some (m : Int))) ∧
      SendsFittingBatches m (fun session answer => splitSortedUpdatesIntoBatchesAndSend session answer info updates (some (m : Int))) := by
  have hempty : ∃ r ∈ (sendPiUpdates ⟨1,"",{}⟩ acceptRequests threeGroups (some 3)).1,r.updates = [] := by decide
  refine ⟨by decide,hempty,fun h => ?_⟩
  have hknown : ∀ u ∈ threeGroups,HasKnownTable groupInfo u.entity := by
    intro u hu
    have hu : u = insertGroup 1 ∨ u = insertGroup 2 ∨ u = insertGroup 3 := by simpa [threeGroups] using hu
    rcases hu with rfl | rfl | rfl <;> exact ⟨0,by decide⟩
  obtain ⟨r,hr,hupdates⟩ := hempty
  have hfits := ((h groupInfo threeGroups 3 (by decide) hknown).1 ⟨1,"",{}⟩ acceptRequests r hr).1
  rw [hupdates] at hfits
  exact absurd hfits (by decide)

end SonicPins.Pdpi
