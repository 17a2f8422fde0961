import SonicPins.Lib.Chunks
import SonicPins.Pdpi.SequencingOrder

/-! Write requests that are split to a maximum number of updates, and those made of the
batches of a sequence of updates. -/
namespace SonicPins.Pdpi
open Lib

structure Uint128 where
  high : UInt64 := 0
  low : UInt64 := 0
  deriving DecidableEq

inductive Atomicity where
  | continueOnError | rollbackOnError | dataplaneAtomic
  | unknown (number : Int32)
  deriving DecidableEq

structure WriteRequest where
  deviceId : UInt64 := 0
  roleId : UInt64 := 0
  role : String := ""
  electionId : Option Uint128 := none
  updates : List Update := []
  atomicity : Atomicity := .continueOnError
  deriving DecidableEq

/-- `*request.add_updates() = u`. -/
def WriteRequest.addUpdate (r : WriteRequest) (u : Update) : WriteRequest := { r with updates := r.updates ++ [u] }

/-- A new request for further updates of `w`. -/
def requestFor (w : WriteRequest) : WriteRequest where
  role := w.role
  deviceId := w.deviceId
  -- `mutable_election_id` sets the field also where `w` has none
  electionId := some (w.electionId.getD {})

/-- The loop over the updates from index `i` on. -/
def extractUpdates (w : WriteRequest) (maxSize : Int) : Nat → List Update → List WriteRequest → List WriteRequest
  | _,[],requests => requests
  | i,u :: us,requests =>
    let requests := if (i : Int) % maxSize = 0 then requests ++ [requestFor w] else requests
    extractUpdates w maxSize (i + 1) us (requests.modifyLast fun r => r.addUpdate u)

def extractWriteRequests (w : WriteRequest) (maxWriteRequestSize : Option Int) : StatusOr (List WriteRequest) :=
  match maxWriteRequestSize with
  | none => .ok [w]
  | some maxSize =>
    if w.updates.length ≤ maxSize then .ok [w]
    else if maxSize < 1 then .error (invalidArgument ("Max update size must be > 0. Max update size: " ++ decimal maxSize))
    else .ok (extractUpdates w maxSize 0 w.updates [])

/-- The loop over one batch, whose last request stays open. -/
def batchRequests (maxBatchSize : Option Int) : List Update → List WriteRequest → WriteRequest → List WriteRequest
  | [],requests,request => requests ++ [request]
  | u :: us,requests,request =>
    if maxBatchSize.any fun m => m ≤ (request.updates.length : Int) then
      batchRequests maxBatchSize us (requests ++ [request]) (WriteRequest.addUpdate {} u)
    else batchRequests maxBatchSize us requests (request.addUpdate u)

def updatesOf (updates : List Update) (batch : List Nat) : List Update := batch.filterMap fun i => updates[i]?

def sequencePiUpdatesIntoWriteRequests (rounds : Nat) (info : IrP4Info) (updates : List Update) (maxBatchSize : Option Int) :
    Option (StatusOr (List WriteRequest)) :=
  if maxBatchSize.any fun m => m ≤ 0 then
    some (.error (invalidArgument ("Max batch size must be > 0. Max batch size: " ++ decimal (maxBatchSize.getD 0))))
  else (sequencePiUpdatesInPlace rounds info updates).map fun result => result.map fun batches =>
    batches.flatMap fun batch => batchRequests maxBatchSize (updatesOf updates batch) [] {}

/-- As many requests as needed, each with at least one update and at most `m`, that hold the
updates in order. -/
structure SplitsUpdates (m : Nat) (updates : List Update) (requests : List WriteRequest) : Prop where
  count : requests.length = (updates.length + m - 1) / m
  bounds : ∀ r ∈ requests,1 ≤ r.updates.length ∧ r.updates.length ≤ m
  updates : requests.flatMap WriteRequest.updates = updates

/-- The requests hold the updates of `w` and go to the same device under the same election id,
role and atomicity. -/
structure SplitsRequest (m : Nat) (w : WriteRequest) (requests : List WriteRequest) : Prop
    extends SplitsUpdates m w.updates requests where
  header : ∀ r ∈ requests,r.deviceId = w.deviceId ∧ r.role = w.role ∧ r.atomicity = w.atomicity ∧ r.electionId = w.electionId

section Chunks
variable {m : Nat}

/-- Requests with one header for the chunks of some updates. -/
def requestsWith (header : WriteRequest) (chunks : List (List Update)) : List WriteRequest :=
  chunks.map fun us => { header with updates := us }

theorem splitsUpdates_of_chunks (hm : 0 < m) {updates : List Update} {chunks : List (List Update)} (h : Chunks m updates chunks)
    (header : WriteRequest) : SplitsUpdates m updates (requestsWith header chunks) where
  count := (List.length_map _).trans (h.length_eq hm)
  bounds r hr := by
    obtain ⟨us,hus,rfl⟩ := List.mem_map.mp hr
    exact h.bounds hm us hus
  updates := by
    rw [← h.flatten,requestsWith,List.flatMap_map]
    exact List.flatMap_id'

theorem extractUpdates_chunks (hm : 0 < m) (w : WriteRequest) (rest : List Update) {done : List Update} {chunks : List (List Update)}
    (h : Chunks m done chunks) : ∃ chunks',Chunks m (done ++ rest) chunks' ∧
      extractUpdates w m done.length rest (requestsWith (requestFor w) chunks) = requestsWith (requestFor w) chunks' := by
  induction rest generalizing done chunks with
  | nil => exact ⟨chunks,by simpa using h,rfl⟩
  | cons u us ih =>
    have hstep : ∃ chunks',Chunks m (done ++ [u]) chunks' ∧
        (if (done.length : Int) % m = 0 then requestsWith (requestFor w) chunks ++ [requestFor w]
          else requestsWith (requestFor w) chunks).modifyLast (fun r => r.addUpdate u) = requestsWith (requestFor w) chunks' := by
      have hmod : (done.length : Int) % m = 0 ↔ ∀ c ∈ chunks,c.length = m := by
        rw [← h.mod_eq_zero_iff]
        omega
      by_cases hfull : ∀ c ∈ chunks,c.length = m
      · refine ⟨_,h.start hm hfull u,?_⟩
        rw [if_pos (hmod.mpr hfull),List.modifyLast_concat]
        simp [requestsWith,requestFor,WriteRequest.addUpdate]
      · rw [if_neg (hmod.not.mpr hfull)]
        cases h with
        | nil => simp at hfull
        | last front c hfront hne hle =>
          have hroom : c.length < m := by
            refine Nat.lt_of_le_of_ne hle fun hc => hfull fun d hd => ?_
            rcases List.mem_append.mp hd with hd | hd
            · exact hfront d hd
            · rw [List.mem_singleton.mp hd,hc]
          refine ⟨_,(Chunks.last front c hfront hne hle).extend hroom u,?_⟩
          rw [requestsWith,List.map_append,List.map_singleton,List.modifyLast_concat]
          simp [requestsWith,WriteRequest.addUpdate]
    obtain ⟨chunks',hchunks',heq⟩ := hstep
    obtain ⟨final,hfinal,hrest⟩ := ih hchunks'
    refine ⟨final,by simpa using hfinal,?_⟩
    rw [extractUpdates,heq,← hrest]
    simp

private theorem batchRequests_chunks (hm : 0 < m) (rest : List Update) {done : List Update} {front : List (List Update)} {c : List Update}
    (h : Chunks m done (front ++ [c])) : ∃ chunks,Chunks m (done ++ rest) chunks ∧
      batchRequests (some m) rest (requestsWith {} front) { updates := c } = requestsWith {} chunks := by
  induction rest generalizing done front c with
  | nil => exact ⟨front ++ [c],by simpa using h,by simp [batchRequests,requestsWith]⟩
  | cons u us ih =>
    have hstep : ∃ front' c',Chunks m (done ++ [u]) (front' ++ [c']) ∧
        batchRequests (some m) (u :: us) (requestsWith {} front) { updates := c } =
          batchRequests (some m) us (requestsWith {} front') { updates := c' } := by
      by_cases hfull : m ≤ c.length
      · have hall : ∀ d ∈ front ++ [c],d.length = m := by
          intro d hd
          rcases List.mem_append.mp hd with hd | hd
          · exact h.front_full.1 d hd
          · rw [List.mem_singleton.mp hd]
            exact Nat.le_antisymm h.front_full.2 hfull
        refine ⟨front ++ [c],[u],h.start hm hall u,?_⟩
        rw [batchRequests,if_pos (by simpa using hfull),requestsWith,requestsWith,List.map_append]
        rfl
      · refine ⟨front,c ++ [u],h.extend (Nat.lt_of_not_le hfull) u,?_⟩
        rw [batchRequests,if_neg (by simpa using hfull)]
        rfl
    obtain ⟨front',c',hchunks',heq⟩ := hstep
    obtain ⟨final,hfinal,hrest⟩ := ih hchunks'
    exact ⟨final,by simpa using hfinal,heq.trans hrest⟩

private theorem batchRequests_splits (hm : 0 < m) {us : List Update} (hne : us ≠ []) :
    SplitsUpdates m us (batchRequests (some m) us [] {}) := by
  cases us with
  | nil => exact absurd rfl hne
  | cons u us =>
    have hfirst : Chunks m [u] ([] ++ [[u]]) := Chunks.single (by simp) hm
    obtain ⟨chunks,hchunks,heq⟩ := batchRequests_chunks hm us hfirst
    have hstart : batchRequests (some m) (u :: us) [] {} = batchRequests (some m) us (requestsWith {} []) { updates := [u] } := by
      rw [batchRequests,if_neg (by simpa using hm.ne')]
      rfl
    rw [hstart,heq]
    exact splitsUpdates_of_chunks hm hchunks {}

end Chunks

section Sequenced
variable {info : IrP4Info} {updates : List Update} {rounds : Nat}

private theorem buildDependencyGraph_lt {graph : Finset (Nat × Nat)} (h : buildDependencyGraph info updates = .ok graph) :
    ∀ i j,(i,j) ∈ graph → i < updates.length ∧ j < updates.length := by
  obtain ⟨indices,hindices,h⟩ := bind_eq_ok.mp h
  obtain ⟨edges,hedges,h⟩ := bind_eq_ok.mp h
  cases h
  have hlt {u : Update × Nat} (hu : u ∈ updates.zipIdx) : u.2 < updates.length :=
    (List.getElem?_eq_some_iff.mp (List.mem_zipIdx_iff_getElem?.mp hu)).1
  intro i j hij
  rw [List.mem_toFinset] at hij
  obtain ⟨u,hu,es,hes,hmem⟩ := (mem_flatten_of_mapM hedges).mp hij
  obtain ⟨values,-,rfl⟩ := map_eq_ok.mp hes
  obtain ⟨value,-,hvalue⟩ := List.mem_flatMap.mp hmem
  obtain ⟨referred,hreferred,hedge⟩ := mem_recordDependencies.mp hvalue
  have hother : referred < updates.length := by
    obtain ⟨v,hv,ws,hws,hmem⟩ := (mem_flatten_of_mapM hindices).mp hreferred
    obtain ⟨values,-,rfl⟩ := map_eq_ok.mp hws
    obtain ⟨x,-,hx⟩ := List.mem_map.mp hmem
    rw [← (Prod.mk.inj hx).2]
    exact hlt hv
  rcases dependencyEdge_eq_some.mp hedge with ⟨-,-,rfl,rfl⟩ | ⟨-,-,rfl,rfl⟩
  · exact ⟨hother,hlt hu⟩
  · exact ⟨hlt hu,hother⟩

private theorem sequencePiUpdatesInPlace_batches {batches : List (List Nat)}
    (h : sequencePiUpdatesInPlace rounds info updates = some (.ok batches)) :
    ∀ batch ∈ batches,batch ≠ [] ∧ ∀ i ∈ batch,i < updates.length := by
  unfold sequencePiUpdatesInPlace at h
  split at h
  · cases h
  · next graph hgraph =>
    obtain ⟨r,hr,hbatches⟩ := Option.map_eq_some_iff.mp h
    split at hbatches
    · cases hbatches
    · cases hbatches
      intro batch hbatch
      obtain ⟨hne,hmem⟩ := peel_layers hr batch hbatch
      refine ⟨hne,fun i hi => ?_⟩
      rcases hmem i hi with hroot | ⟨u,hu⟩
      · exact List.mem_range.mp (List.mem_filter.mp hroot).1
      · exact (buildDependencyGraph_lt hgraph u i hu).2

private theorem updatesOf_ne_nil {batch : List Nat} (hne : batch ≠ []) (hlt : ∀ i ∈ batch,i < updates.length) :
    updatesOf updates batch ≠ [] := by
  cases batch with
  | nil => exact absurd rfl hne
  | cons i is =>
    have hi : updates[i]? = some (updates.get ⟨i,hlt i (by simp)⟩) := List.getElem?_eq_getElem _
    rw [updatesOf,List.filterMap_cons,hi]
    simp

private theorem sequencePiUpdatesIntoWriteRequests_spec {m : Nat} (hm : 0 < m) {batches : List (List Nat)}
    (h : sequencePiUpdatesInPlace rounds info updates = some (.ok batches)) :
    ∃ groups,sequencePiUpdatesIntoWriteRequests rounds info updates (some m) = some (.ok groups.flatten) ∧
      List.Forall₂ (fun batch group => (∀ i ∈ batch,i < updates.length) ∧ SplitsUpdates m (updatesOf updates batch) group)
        batches groups := by
  refine ⟨batches.map fun batch => batchRequests (some m) (updatesOf updates batch) [] {},?_,?_⟩
  · have hpos : ¬ ((some (m : Int)).any fun m => m ≤ 0) := by simpa using hm.ne'
    rw [sequencePiUpdatesIntoWriteRequests,if_neg hpos,h,← List.flatMap_def]
    rfl
  · rw [List.forall₂_map_right_iff,List.forall₂_same]
    intro batch hbatch
    obtain ⟨hne,hlt⟩ := sequencePiUpdatesInPlace_batches h batch hbatch
    exact ⟨hlt,batchRequests_splits hm (updatesOf_ne_nil hne hlt)⟩

end Sequenced

theorem extractWriteRequests_iff {w : WriteRequest} (hw : w.updates ≠ []) {m : Nat} (hm : 0 < m) :
    (∃ requests,extractWriteRequests w (some m) = .ok requests ∧ SplitsRequest m w requests) ↔
      w.updates.length ≤ m ∨ (w.electionId.isSome ∧ w.atomicity = .continueOnError) := by
  by_cases hle : w.updates.length ≤ m
  · have hone : extractWriteRequests w (some m) = .ok [w] := by
      rw [extractWriteRequests]
      exact if_pos (by exact_mod_cast hle)
    have hsplit := splitsUpdates_of_chunks hm (Chunks.single hw hle) w
    exact iff_of_true ⟨[w],hone,hsplit,by simp⟩ (.inl hle)
  · obtain ⟨chunks,hchunks,heq⟩ := extractUpdates_chunks hm w w.updates Chunks.nil
    rw [List.nil_append] at hchunks
    have hmany : extractWriteRequests w (some m) = .ok (requestsWith (requestFor w) chunks) := by
      rw [extractWriteRequests]
      refine (if_neg (by exact_mod_cast hle)).trans ((if_neg (by omega)).trans (congrArg Except.ok ?_))
      exact heq
    have hsplit := splitsUpdates_of_chunks hm hchunks (requestFor w)
    have hheader : (∃ requests,extractWriteRequests w (some m) = .ok requests ∧ SplitsRequest m w requests) ↔
        some (w.electionId.getD {}) = w.electionId ∧ Atomicity.continueOnError = w.atomicity := by
      constructor
      · rintro ⟨requests,hrequests,h⟩
        cases hmany.symm.trans hrequests
        cases hchunks' : chunks with
        | nil =>
          rw [← hchunks.flatten,hchunks'] at hw
          exact absurd rfl hw
        | cons c rest =>
          obtain ⟨-,-,hatomicity,helection⟩ := h.header { requestFor w with updates := c } (by simp [requestsWith,hchunks'])
          exact ⟨helection,hatomicity⟩
      · rintro ⟨helection,hatomicity⟩
        refine ⟨_,hmany,hsplit,fun r hr => ?_⟩
        obtain ⟨us,-,rfl⟩ := List.mem_map.mp hr
        exact ⟨rfl,rfl,hatomicity,helection⟩
    rw [hheader,or_iff_right hle]
    refine and_congr ?_ eq_comm
    cases w.electionId <;> simp

/-- Splitting keeps the order and the header of the updates, unless a request is split that has
no election id or asks for atomicity. The batches of a sequence are always split on their own. -/
theorem requests_split_iff {m : Nat} (hm : 0 < m) :
    (∀ w : WriteRequest,w.updates ≠ [] →
      ((∃ requests,extractWriteRequests w (some m) = .ok requests ∧ SplitsRequest m w requests) ↔
        w.updates.length ≤ m ∨ (w.electionId.isSome ∧ w.atomicity = .continueOnError))) ∧
    ∀ (rounds : Nat) (info : IrP4Info) (updates : List Update) (batches : List (List Nat)),
      sequencePiUpdatesInPlace rounds info updates = some (.ok batches) →
        ∃ groups,sequencePiUpdatesIntoWriteRequests rounds info updates (some m) = some (.ok groups.flatten) ∧
          List.Forall₂ (fun batch group => (∀ i ∈ batch,i < updates.length) ∧
            SplitsUpdates m (updatesOf updates batch) group) batches groups :=
  ⟨fun _ hw => extractWriteRequests_iff hw hm,fun _ _ _ _ h => sequencePiUpdatesIntoWriteRequests_spec hm h⟩

def plainUpdate : Update := ⟨.insert,.other "extern_entry"⟩

/-- Two updates, to be sent one at a time by a client without an election id. -/
theorem election_id_made_up :
    ¬ ∀ (w : WriteRequest) (m : Nat),w.updates ≠ [] → 0 < m →
      ∃ requests,extractWriteRequests w (some m) = .ok requests ∧ SplitsRequest m w requests := by
  intro h
  have hfailing := h { deviceId := 1,updates := [plainUpdate,plainUpdate] } 1 (by simp) (by decide)
  exact absurd ((extractWriteRequests_iff (by simp) (by decide)).mp hfailing) (by decide)

/-- Three updates of a primary controller in two requests, and the two batches of a chain. -/
theorem three_updates_in_two_requests :
    (∃ requests,extractWriteRequests { electionId := some ⟨0,1⟩,updates := [plainUpdate,plainUpdate,plainUpdate] } (some 2) =
      .ok requests ∧ SplitsRequest 2 { electionId := some ⟨0,1⟩,updates := [plainUpdate,plainUpdate,plainUpdate] } requests) ∧
    ∃ groups,sequencePiUpdatesIntoWriteRequests 3 chainInfo chainUpdates (some 5) = some (.ok groups.flatten) ∧
      List.Forall₂ (fun batch group => (∀ i ∈ batch,i < chainUpdates.length) ∧
        SplitsUpdates 5 (updatesOf chainUpdates batch) group) [[1],[0]] groups :=
  ⟨((requests_split_iff (by decide)).1 _ (by simp)).mpr (.inr ⟨rfl,rfl⟩),
    (requests_split_iff (by decide)).2 3 chainInfo chainUpdates [[1],[0]] (by decide +kernel)⟩

end SonicPins.Pdpi
