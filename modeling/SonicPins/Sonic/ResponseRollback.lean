import SonicPins.Sonic.AppDbReading
import SonicPins.Sonic.FailOnFirst

/-! Matching OrchAgent's responses to the keys that wait for one, and bringing the AppDb
back to the AppStateDb where OrchAgent failed. -/
namespace SonicPins.Sonic
open Lib Pdpi P4rtApp

variable {count : Nat} {delivered : List Notification} {acc responses : List (String × Status)}

/-- What a response says about its key. -/
def Notification.result (n : Notification) : String × Status :=
  (n.key,⟨swssToP4RTErrorCode n.status,cHexEscape ((n.values.head?.map Prod.snd).getD [])⟩)

/-- Waits for as many responses as expected; running out of them is a timeout. -/
def getAppDbResponses : Nat → List Notification → List (String × Status) → StatusOr (List (String × Status))
  | 0,_,keyToStatusMap => .ok keyToStatusMap
  | _ + 1,[],_ => .error ⟨.internal,
      "[OrchAgent] P4RT App timed out or failed waiting on a AppDB response from the OrchAgent."⟩
  | expectedResponseCount + 1,n :: delivered,keyToStatusMap => match n.values with
    | [] => .error ⟨.internal,"Notification response for '" ++ n.key ++ "' should not be empty."⟩
    | (field,_) :: _ =>
      if field ≠ "err_str" then
        .error ⟨.internal,"[OrchAgent] responded with '" ++ field ++
          "' as its first value, but P4RT App was expecting 'err_str'."⟩
      else if (keyToStatusMap.lookup n.key).isSome then
        .error ⟨.internal,"[P4RT App] The response path received a duplicate key from the AppDb: " ++ n.key⟩
      else getAppDbResponses expectedResponseCount delivered (assign n.result.1 n.result.2 keyToStatusMap)

theorem getAppDbResponses_single (n : Option Notification) : getAppDbResponses 1 n.toList [] = getAppDbResponse n := by
  cases n with
  | none => rfl
  | some n =>
    obtain ⟨status,key,values⟩ := n
    cases values with
    | nil => rfl
    | cons v values =>
      simp only [Option.toList_some,getAppDbResponses,getAppDbResponse]
      split <;> rfl

def Notification.Readable (n : Notification) : Prop := ∃ v ∈ n.values.head?,v.1 = "err_str"

/-- The map holds the responses that were waited for, all of them readable and with different keys. -/
structure Collected (count : Nat) (delivered : List Notification) (responses : List (String × Status)) : Prop where
  enough : count ≤ delivered.length
  readable : ∀ n ∈ delivered.take count,n.Readable
  distinct : ((delivered.take count).map Notification.key).Nodup
  ordered : Ordered responses
  perm : responses.Perm ((delivered.take count).map Notification.result)

private theorem getAppDbResponses_step {n : Notification} :
    getAppDbResponses (count + 1) (n :: delivered) acc = .ok responses ↔
      n.Readable ∧ acc.lookup n.key = none ∧
        getAppDbResponses count delivered (assign n.result.1 n.result.2 acc) = .ok responses := by
  rw [getAppDbResponses]
  unfold Notification.Readable
  cases n.values with
  | nil => simp
  | cons v values =>
    obtain ⟨field,message⟩ := v
    by_cases hfield : field = "err_str"
    · cases hlookup : acc.lookup n.key with
      | none => simp [hfield]
      | some status => simp [hfield]
    · simp [hfield]

private theorem getAppDbResponses_eq : getAppDbResponses count delivered acc = .ok responses ↔
      count ≤ delivered.length ∧ (∀ n ∈ delivered.take count,n.Readable) ∧
        ((delivered.take count).map Notification.key).Nodup ∧ (∀ n ∈ delivered.take count,acc.lookup n.key = none) ∧
        responses = ((delivered.take count).map Notification.result).foldl (fun m x => assign x.1 x.2 m) acc := by
  induction count generalizing delivered acc with
  | zero =>
    rw [getAppDbResponses]
    refine ⟨fun h => ?_,fun ⟨_,_,_,_,h⟩ => h ▸ rfl⟩
    cases h
    simp
  | succ count ih =>
    cases delivered with
    | nil =>
      rw [getAppDbResponses]
      simp
    | cons n delivered =>
      rw [getAppDbResponses_step,ih]
      simp only [List.take_succ_cons,List.forall_mem_cons,List.map_cons,List.nodup_cons,List.foldl_cons,
        List.length_cons,Nat.add_le_add_iff_right,lookup_assign]
      have hkey : n.result.1 = n.key := rfl
      constructor
      · rintro ⟨hreadable,hnone,hcount,hrest,hnodup,hacc,hresponses⟩
        have hfresh (m : Notification) (hm : m ∈ delivered.take count) : m.key ≠ n.key ∧ acc.lookup m.key = none := by
          have h := hacc m hm
          split at h
          · cases h
          · rename_i hne
            exact ⟨hne,h⟩
        refine ⟨hcount,⟨hreadable,hrest⟩,⟨fun hmem => ?_,hnodup⟩,⟨hnone,fun m hm => (hfresh m hm).2⟩,hresponses⟩
        obtain ⟨m,hm,hmkey⟩ := List.mem_map.mp hmem
        exact (hfresh m hm).1 hmkey
      · rintro ⟨hcount,⟨hreadable,hrest⟩,⟨hnew,hnodup⟩,⟨hnone,hacc⟩,hresponses⟩
        refine ⟨hreadable,hnone,hcount,hrest,hnodup,fun m hm => ?_,hresponses⟩
        rw [if_neg,hacc m hm]
        intro hmkey
        exact hnew (List.mem_map.mpr ⟨m,hm,hmkey⟩)

theorem getAppDbResponses_collected :
    getAppDbResponses count delivered [] = .ok responses ↔ Collected count delivered responses := by
  rw [getAppDbResponses_eq]
  have hkeys : ((delivered.take count).map Notification.result).map Prod.fst = (delivered.take count).map Notification.key := by
    rw [List.map_map]
    rfl
  constructor
  · rintro ⟨hcount,hreadable,hnodup,-,rfl⟩
    exact ⟨hcount,hreadable,hnodup,ordered_foldl_assign Prod.fst Prod.snd _ ordered_nil,
      perm_foldl_assign (by rwa [hkeys])⟩
  · rintro ⟨hcount,hreadable,hnodup,hordered,hperm⟩
    refine ⟨hcount,hreadable,hnodup,by simp,?_⟩
    have hfilled := ordered_foldl_assign Prod.fst Prod.snd ((delivered.take count).map Notification.result)
      (m := []) ordered_nil
    refine hordered.ext hfilled fun key => Option.ext fun status => ?_
    rw [hordered.lookup_eq_some,hfilled.lookup_eq_some,hperm.mem_iff,
      (perm_foldl_assign (by rwa [hkeys])).mem_iff]

/-- The row becomes that of the AppStateDb. -/
def restoreApplDb (appDb stateDb : DbTable) (key : String) : DbTable :=
  match getRow stateDb key with
  | [] => appDb.erase key
  | value :: values => (appDb.erase key).insert key (value :: values)

/-- Without both tables nothing is restored. -/
def restoreIn (stateDb : Option DbTable) (key : String) : Option DbTable → Option DbTable
  | some appDb => some (match stateDb with
    | some stateDb => restoreApplDb appDb stateDb key
    | none => appDb)
  | none => none

/-- What the loop over the two maps has written so far; a key whose status object is missing ends it. -/
structure ResponseState where
  statuses : List Status
  appDb : Option DbTable
  errorMessages : List String := []
  missingStatus : Option String := none

namespace ResponseState

def mismatch (s : ResponseState) (message : String) : ResponseState :=
  { s with errorMessages := s.errorMessages ++ [message] }

/-- The response for an expected key; a failure is copied and taken back in the AppDb. -/
def answered (stateDb : Option DbTable) (key : String) (position : Nat) (response : Status) (s : ResponseState) :
    ResponseState :=
  if response.isOk then s
  else { s with statuses := s.statuses.set position response,appDb := restoreIn stateDb key s.appDb }

/-- What is returned at the end. -/
def status (s : ResponseState) : Status :=
  match s.missingStatus with
  | some key => ⟨.internal,"Response path is missing status object for key: " ++ key⟩
  | none => if s.errorMessages = [] then .okStatus
    else ⟨.internal,"Got unexpected responses:\n  " ++ String.intercalate "\n  " s.errorMessages⟩

end ResponseState

/-- One expected key against the remaining responses; `next` continues with the keys after it. -/
def answerExpected (stateDb : Option DbTable) (key : String) (pointer : Option Nat)
    (next : List (String × Status) → ResponseState → ResponseState) : List (String × Status) → ResponseState → ResponseState
  | [],s => next [] (s.mismatch (missingResponse key))
  | (key',response) :: responses,s =>
    if key < key' then next ((key',response) :: responses) (s.mismatch (missingResponse key))
    else if key' < key then answerExpected stateDb key pointer next responses (s.mismatch (extraResponse key'))
    else match pointer with
      | none => { s with missingStatus := some key }
      | some position => next responses (s.answered stateDb key position response)

/-- `UpdateResponsesAndRestoreState`; a status pointer may be null. -/
def updateResponsesAndRestoreState (stateDb : Option DbTable) : List (String × Option Nat) → List (String × Status) →
    ResponseState → ResponseState
  | [],responses,s => responses.foldl (fun s r => s.mismatch (extraResponse r.1)) s
  | (key,pointer) :: expected,responses,s =>
    answerExpected stateDb key pointer (fun rs s => updateResponsesAndRestoreState stateDb expected rs s) responses s

section Matching
variable {stateDb : Option DbTable}

/-- The expected keys with their responses. -/
def matchedResponses (expected : List (String × Nat)) (responses : List (String × Status)) :
    List ((String × Nat) × (String × Status)) :=
  expected.filterMap fun e => (responses.lookup e.1).map fun response => (e,(e.1,response))

/-- The rows of the failures among matched responses are restored. -/
def restoreFailures (stateDb : Option DbTable) (matched : List ((String × Nat) × (String × Status))) (appDb : Option DbTable) :
    Option DbTable :=
  matched.foldl (fun db x => if x.2.2.isOk then db else restoreIn stateDb x.1.1 db) appDb

/-- A state after matched responses and messages about the others. -/
def ResponseState.after (stateDb : Option DbTable) (s : ResponseState) (matched : List ((String × Nat) × (String × Status)))
    (messages : List String) : ResponseState :=
  { s with
    statuses := copyFailures matched s.statuses,
    appDb := restoreFailures stateDb matched s.appDb,
    errorMessages := s.errorMessages ++ messages }

theorem ResponseState.after_mismatch (s : ResponseState) (message : String)
    (matched : List ((String × Nat) × (String × Status))) (messages : List String) :
    (s.mismatch message).after stateDb matched messages = s.after stateDb matched (message :: messages) := by
  simp [ResponseState.after,ResponseState.mismatch]

theorem ResponseState.after_answered (s : ResponseState) (key : String) (position : Nat) (response : Status)
    (matched : List ((String × Nat) × (String × Status))) (messages : List String) :
    (s.answered stateDb key position response).after stateDb matched messages =
      s.after stateDb (((key,position),(key,response)) :: matched) messages := by
  unfold ResponseState.after ResponseState.answered copyFailures restoreFailures
  split
  · rename_i hok
    simp [hok]
  · rename_i hfailed
    simp [hfailed]

theorem matchedResponses_drop {expected : List (String × Nat)} {key' : String} (h : ∀ x ∈ expected,key' < x.1)
    (response : Status) (responses : List (String × Status)) :
    matchedResponses expected ((key',response) :: responses) = matchedResponses expected responses := by
  refine List.filterMap_congr fun e he => ?_
  rw [lookup_cons_ite,if_neg (h e he).ne']

def pointers (expected : List (String × Nat)) : List (String × Option Nat) := expected.map fun e => (e.1,some e.2)

theorem update_cons (key : String) (position : Nat) (expected : List (String × Nat)) (responses : List (String × Status))
    (s : ResponseState) : updateResponsesAndRestoreState stateDb (pointers ((key,position) :: expected)) responses s =
      answerExpected stateDb key (some position)
        (fun rs s => updateResponsesAndRestoreState stateDb (pointers expected) rs s) responses s := rfl

theorem extra_responses (s : ResponseState) (responses : List (String × Status)) :
    responses.foldl (fun s r => s.mismatch (extraResponse r.1)) s =
      s.after stateDb [] (responses.map fun r => extraResponse r.1) := by
  induction responses generalizing s with
  | nil => simp [ResponseState.after,copyFailures,restoreFailures]
  | cons r responses ih => rw [List.foldl_cons,ih,ResponseState.after_mismatch,List.map_cons]

private theorem update_run {expected : List (String × Nat)} (hexpected : Ordered expected) {responses : List (String × Status)}
    (hresponses : Ordered responses) (s : ResponseState) :
    ∃ messages,updateResponsesAndRestoreState stateDb (pointers expected) responses s =
        s.after stateDb (matchedResponses expected responses) messages ∧
      (messages = [] ↔ expected.map Prod.fst = responses.map Prod.fst) := by
  induction expected generalizing responses s with
  | nil =>
    refine ⟨_,extra_responses s responses,?_⟩
    cases responses <;> simp
  | cons e expected ih =>
    obtain ⟨key,position⟩ := e
    obtain ⟨hfirst,hrest⟩ := List.pairwise_cons.mp hexpected
    simp only [update_cons]
    induction responses generalizing s with
    | nil =>
      obtain ⟨messages,hrun,-⟩ := ih hrest ordered_nil (s.mismatch (missingResponse key))
      refine ⟨missingResponse key :: messages,?_,by simp⟩
      rw [answerExpected]
      rw [hrun,ResponseState.after_mismatch]
      rfl
    | cons r responses ihr =>
      obtain ⟨key',response⟩ := r
      obtain ⟨hfirst',hrest'⟩ := List.pairwise_cons.mp hresponses
      rw [answerExpected]
      split_ifs with hlt hgt
      · obtain ⟨messages,hrun,-⟩ := ih hrest hresponses (s.mismatch (missingResponse key))
        refine ⟨missingResponse key :: messages,?_,?_⟩
        · have hnone : ((key',response) :: responses).lookup key = none := by
            refine lookup_eq_none_of_lt fun x hx => ?_
            rcases List.mem_cons.mp hx with rfl | hx
            · exact hlt
            · exact hlt.trans (hfirst' x hx)
          rw [hrun,ResponseState.after_mismatch]
          congr 1
          rw [matchedResponses,matchedResponses,List.filterMap_cons,hnone]
          rfl
        · simp [hlt.ne]
      · obtain ⟨messages,hrun,-⟩ := ihr hrest' (s.mismatch (extraResponse key'))
        refine ⟨extraResponse key' :: messages,?_,?_⟩
        · rw [hrun,ResponseState.after_mismatch,matchedResponses_drop]
          intro x hx
          rcases List.mem_cons.mp hx with rfl | hx
          · exact hgt
          · exact hgt.trans (hfirst x hx)
        · simp [hgt.ne']
      · obtain rfl : key = key' := le_antisymm (not_lt.mp hgt) (not_lt.mp hlt)
        obtain ⟨messages,hrun,hnil⟩ := ih hrest hrest' (s.answered stateDb key position response)
        refine ⟨messages,?_,by simp [hnil]⟩
        have hmatched : matchedResponses ((key,position) :: expected) ((key,response) :: responses) =
            ((key,position),(key,response)) :: matchedResponses expected responses := by
          have hdrop := @matchedResponses_drop expected key hfirst response responses
          rw [← hdrop,matchedResponses,matchedResponses,List.filterMap_cons]
          simp
        exact hrun.trans (by rw [hmatched,ResponseState.after_answered])

private theorem restoreIn_none (key : String) (appDb : Option DbTable) : restoreIn none key appDb = appDb := by
  cases appDb <;> rfl

private theorem answerExpected_merge {key : String} {position : Nat} {next : List (String × Status) → ResponseState → ResponseState}
    {merge : List (String × Status) → List Status → List Status × List String}
    (hnext : ∀ rs s,next rs s =
      { s with statuses := (merge rs s.statuses).1,errorMessages := s.errorMessages ++ (merge rs s.statuses).2 })
    (responses : List (String × Status)) (s : ResponseState) :
    answerExpected none key (some position) next responses s =
      { s with statuses := (mergeResponse key position merge responses s.statuses).1,
               errorMessages := s.errorMessages ++ (mergeResponse key position merge responses s.statuses).2 } := by
  induction responses generalizing s with
  | nil =>
    rw [answerExpected,hnext]
    simp [ResponseState.mismatch,mergeResponse]
  | cons r responses ih =>
    obtain ⟨key',response⟩ := r
    rw [answerExpected,mergeResponse]
    split_ifs with hlt hgt hok
    · rw [hnext]
      simp [ResponseState.mismatch]
    · rw [ih]
      simp [ResponseState.mismatch]
    · simp [hnext,ResponseState.answered,hok]
    · simp [hnext,ResponseState.answered,hok,restoreIn_none]

private theorem update_merge (expected : List (String × Nat)) (responses : List (String × Status)) (s : ResponseState) :
    updateResponsesAndRestoreState none (pointers expected) responses s =
      { s with statuses := (mergeResponses expected responses s.statuses).1,
               errorMessages := s.errorMessages ++ (mergeResponses expected responses s.statuses).2 } := by
  induction expected generalizing responses s with
  | nil =>
    refine (@extra_responses none s responses).trans ?_
    simp [ResponseState.after,copyFailures,restoreFailures,mergeResponses]
  | cons e expected ih =>
    rw [update_cons,mergeResponses]
    exact answerExpected_merge ih responses s

theorem updateResponses_eq (expected : List (String × Nat)) (responses : List (String × Status)) (statuses : List Status) :
    updateResponses expected responses statuses =
      let s := updateResponsesAndRestoreState none (pointers expected) responses { statuses := statuses,appDb := none }
      if s.status.isOk then .ok s.statuses else .error s.status := by
  rw [update_merge,updateResponses]
  obtain ⟨merged,messages⟩ := mergeResponses expected responses statuses
  cases messages with
  | nil => rfl
  | cons message messages => rfl

end Matching

private theorem lookup_restoreApplDb_self (appDb stateDb : DbTable) (key : String) :
    (restoreApplDb appDb stateDb key).lookup key = if getRow stateDb key = [] then none else some (getRow stateDb key) := by
  unfold restoreApplDb
  cases hrow : getRow stateDb key with
  | nil => simp
  | cons value values => simp

theorem lookup_restoreApplDb_ne (appDb stateDb : DbTable) {key key' : String} (h : key' ≠ key) :
    (restoreApplDb appDb stateDb key).lookup key' = appDb.lookup key' := by
  unfold restoreApplDb
  split
  · rw [AList.lookup_erase_ne h]
  · rw [AList.lookup_insert_ne h,AList.lookup_erase_ne h]

private theorem lookup_restoreFailures (appDb stateDb : DbTable) (matched : List ((String × Nat) × (String × Status))) :
    ∃ after,restoreFailures (some stateDb) matched (some appDb) = some after ∧
      (∀ x ∈ matched,x.2.2.isOk = false → after.lookup x.1.1 =
        if getRow stateDb x.1.1 = [] then none else some (getRow stateDb x.1.1)) ∧
      ∀ key,(∀ x ∈ matched,x.1.1 = key → x.2.2.isOk = true) → after.lookup key = appDb.lookup key := by
  induction matched using List.reverseRecOn with
  | nil => exact ⟨appDb,rfl,by simp,fun _ _ => rfl⟩
  | append_singleton matched x ih =>
    obtain ⟨after,hafter,hrestored,hkept⟩ := ih
    have hfold : restoreFailures (some stateDb) (matched ++ [x]) (some appDb) =
        if x.2.2.isOk then some after else some (restoreApplDb after stateDb x.1.1) := by
      rw [restoreFailures] at hafter ⊢
      rw [List.foldl_append,hafter]
      rfl
    cases hok : x.2.2.isOk with
    | true =>
      refine ⟨after,by rw [hfold,hok]; rfl,fun y hy hfailed => ?_,fun key h => hkept key fun y hy => h y (by simp [hy])⟩
      rcases List.mem_append.mp hy with hy | hy
      · exact hrestored y hy hfailed
      · rw [List.mem_singleton.mp hy,hok] at hfailed
        cases hfailed
    | false =>
      refine ⟨restoreApplDb after stateDb x.1.1,by rw [hfold,hok]; rfl,fun y hy hfailed => ?_,fun key h => ?_⟩
      · by_cases hkey : y.1.1 = x.1.1
        · rw [hkey,lookup_restoreApplDb_self]
        · rw [lookup_restoreApplDb_ne _ _ hkey]
          rcases List.mem_append.mp hy with hy | hy
          · exact hrestored y hy hfailed
          · exact absurd (by rw [List.mem_singleton.mp hy]) hkey
      · have hne : key ≠ x.1.1 := by
          rintro rfl
          exact Bool.noConfusion (hok.symm.trans (h x (by simp) rfl))
        rw [lookup_restoreApplDb_ne _ _ hne]
        exact hkept key fun y hy => h y (by simp [hy])

/-- The statuses of a request and, for each expected key, the one it points to. -/
structure PendingStatuses where
  statuses : List Status
  keyToStatusMap : List (String × Nat)
  ordered : Ordered keyToStatusMap
  distinct : (keyToStatusMap.map Prod.snd).Nodup
  inRange : ∀ x ∈ keyToStatusMap,x.2 < statuses.length

structure ResponseMap where
  responses : List (String × Status)
  ordered : Ordered responses

def PendingStatuses.update (p : PendingStatuses) (appDb stateDb : DbTable) (responses : List (String × Status)) : ResponseState :=
  updateResponsesAndRestoreState (some stateDb) (pointers p.keyToStatusMap) responses { statuses := p.statuses,appDb := some appDb }

def getAndProcessResponseNotification (p : PendingStatuses) (appDb stateDb : DbTable) (delivered : List Notification) :
    Status × List Status × Option DbTable :=
  match getAppDbResponses p.keyToStatusMap.length delivered [] with
  | .error status => (status,p.statuses,some appDb)
  | .ok responses =>
    let s := p.update appDb stateDb responses
    (s.status,s.statuses,s.appDb)

def PendingStatuses.FailedKey (p : PendingStatuses) (responses : List (String × Status)) (key : String) : Prop :=
  key ∈ p.keyToStatusMap.map Prod.fst ∧ ∃ response,(key,response) ∈ responses ∧ response.isOk = false

/-- Statuses and rows after the responses to the expected keys. -/
structure MatchedAndRestored (p : PendingStatuses) (appDb stateDb : DbTable) (responses : List (String × Status))
    (s : ResponseState) : Prop where
  ok_iff : s.status.isOk = true ↔ ∀ key,key ∈ p.keyToStatusMap.map Prod.fst ↔ key ∈ responses.map Prod.fst
  statuses : s.status.isOk = true → (∀ x ∈ p.statuses,x.isOk = true) → ∀ x ∈ p.keyToStatusMap,
    ∃ response,(x.1,response) ∈ responses ∧ ((statusAt s.statuses x.2).isOk = true ↔ response.isOk = true) ∧
      (response.isOk = false → statusAt s.statuses x.2 = response)
  rows : ∃ after,s.appDb = some after ∧
    (∀ key,p.FailedKey responses key → getRow after key = getRow stateDb key ∧ (key ∈ after ↔ getRow stateDb key ≠ [])) ∧
    ∀ key,¬ p.FailedKey responses key → after.lookup key = appDb.lookup key

theorem mem_matchedResponses {expected : List (String × Nat)} (h : Ordered responses)
    {x : (String × Nat) × (String × Status)} :
    x ∈ matchedResponses expected responses ↔ x.1 ∈ expected ∧ (x.1.1,x.2.2) ∈ responses ∧ x.2.1 = x.1.1 := by
  obtain ⟨e,key,response⟩ := x
  simp only [matchedResponses,List.mem_filterMap,Option.map_eq_some_iff,h.lookup_eq_some]
  constructor
  · rintro ⟨e',he,response',hresponse,heq⟩
    cases heq
    exact ⟨he,hresponse,rfl⟩
  · rintro ⟨he,hresponse,rfl⟩
    exact ⟨e,he,response,hresponse,rfl⟩

private theorem matchedResponses_positions {expected : List (String × Nat)} (h : (expected.map Prod.snd).Nodup)
    (responses : List (String × Status)) : ((matchedResponses expected responses).map fun x => x.1.2).Nodup := by
  have hsublist : ((matchedResponses expected responses).map Prod.fst).Sublist expected := by
    unfold matchedResponses
    induction expected with
    | nil => exact List.Sublist.refl _
    | cons e expected ih =>
      rw [List.filterMap_cons]
      cases responses.lookup e.1 with
      | none => exact (ih h.of_cons).cons e
      | some response => exact (ih h.of_cons).cons_cons e
  have hpositions := (hsublist.map Prod.snd).nodup h
  rwa [List.map_map] at hpositions

theorem ResponseState.status_isOk {s : ResponseState} (h : s.missingStatus = none) :
    s.status.isOk = true ↔ s.errorMessages = [] := by
  unfold ResponseState.status
  rw [h]
  simp only
  split
  · rename_i hnil
    simp [hnil]
  · rename_i hmessages
    simp [hmessages,Status.isOk]

private theorem update_matched (p : PendingStatuses) (appDb stateDb : DbTable) (m : ResponseMap) :
    MatchedAndRestored p appDb stateDb m.responses (p.update appDb stateDb m.responses) := by
  obtain ⟨messages,hrun,hnil⟩ := @update_run (some stateDb) _ p.ordered _ m.ordered
    { statuses := p.statuses,appDb := some appDb }
  have hupdate : p.update appDb stateDb m.responses = _ := hrun
  rw [hupdate]
  have hok : (ResponseState.after (some stateDb) { statuses := p.statuses,appDb := some appDb }
      (matchedResponses p.keyToStatusMap m.responses) messages).status.isOk = true ↔
      ∀ key,key ∈ p.keyToStatusMap.map Prod.fst ↔ key ∈ m.responses.map Prod.fst := by
    refine (ResponseState.status_isOk rfl).trans (hnil.trans ⟨fun h key => by rw [h],p.ordered.keys_eq m.ordered⟩)
  refine ⟨hok,fun hstatus hbefore x hx => ?_,?_⟩
  · obtain ⟨⟨key,response⟩,hresponse,hkey⟩ := List.mem_map.mp ((hok.mp hstatus x.1).mp (List.mem_map_of_mem hx))
    obtain rfl : key = x.1 := hkey
    have hmem : (x,(x.1,response)) ∈ matchedResponses p.keyToStatusMap m.responses :=
      (mem_matchedResponses m.ordered).mpr ⟨hx,hresponse,rfl⟩
    have hat := statusAt_copyFailures (matchedResponses_positions p.distinct m.responses) hmem p.statuses (p.inRange x hx)
    have hpresent : (statusAt p.statuses x.2).isOk = true := by
      rw [statusAt,List.getD_eq_getElem?_getD,List.getElem?_eq_getElem (p.inRange x hx)]
      exact hbefore _ (List.getElem_mem _)
    refine ⟨response,hresponse,?_⟩
    show ((statusAt (copyFailures _ p.statuses) x.2).isOk = true ↔ _) ∧ (_ → statusAt (copyFailures _ p.statuses) x.2 = _)
    rw [hat]
    cases hresult : response.isOk with
    | true => simp [hpresent]
    | false => simp [hresult]
  · obtain ⟨after,hafter,hrestored,hkept⟩ := lookup_restoreFailures appDb stateDb (matchedResponses p.keyToStatusMap m.responses)
    refine ⟨after,hafter,?_,fun key hkey => hkept key fun x hx hxkey => ?_⟩
    · rintro key ⟨hexpected,response,hresponse,hfailed⟩
      obtain ⟨e,he,rfl⟩ := List.mem_map.mp hexpected
      have hrow := hrestored (e,(e.1,response)) ((mem_matchedResponses m.ordered).mpr ⟨he,hresponse,rfl⟩) hfailed
      rw [← AList.lookup_isSome,getRow,hrow]
      by_cases hempty : getRow stateDb e.1 = []
      · simp [hempty]
      · simp [hempty]
    · obtain ⟨he,hresponse,-⟩ := (mem_matchedResponses m.ordered).mp hx
      rw [← Bool.not_eq_false]
      intro hfailed
      exact hkey ⟨List.mem_map.mpr ⟨x.1,he,hxkey⟩,x.2.2,hxkey ▸ hresponse,hfailed⟩

private theorem getAppDbResponses_error {status : Status}
    (h : getAppDbResponses count delivered acc = .error status) : status.isOk = false := by
  induction count generalizing delivered acc with
  | zero => cases h
  | succ count ih =>
    cases delivered with
    | nil =>
      cases h
      rfl
    | cons n delivered =>
      rw [getAppDbResponses] at h
      split at h
      · cases h
        rfl
      · split_ifs at h
        · cases h
          rfl
        · cases h
          rfl
        · exact ih h

/-- With any map of responses the statuses and rows of the expected keys follow their responses. The map is exactly what
was delivered, and nothing is touched if that is not a readable response to different keys, as many as expected. -/
theorem responses_matched_and_restored (p : PendingStatuses) (appDb stateDb : DbTable) :
    (∀ m : ResponseMap,MatchedAndRestored p appDb stateDb m.responses (p.update appDb stateDb m.responses)) ∧
      ∀ delivered : List Notification,let processed := getAndProcessResponseNotification p appDb stateDb delivered
        (∀ responses,Collected p.keyToStatusMap.length delivered responses →
          processed = ((p.update appDb stateDb responses).status,(p.update appDb stateDb responses).statuses,
            (p.update appDb stateDb responses).appDb)) ∧
        ((∀ responses,¬ Collected p.keyToStatusMap.length delivered responses) →
          processed.1.isOk = false ∧ processed.2 = (p.statuses,some appDb)) := by
  refine ⟨update_matched p appDb stateDb,fun delivered => ⟨fun responses hcollected => ?_,fun hnone => ?_⟩⟩
  · rw [getAndProcessResponseNotification,getAppDbResponses_collected.mpr hcollected]
  · unfold getAndProcessResponseNotification
    cases hget : getAppDbResponses p.keyToStatusMap.length delivered [] with
    | error status => exact ⟨getAppDbResponses_error hget,rfl⟩
    | ok responses => exact absurd (getAppDbResponses_collected.mp hget) (hnone responses)

/-- Two routes wait for an answer. -/
def twoRoutesPending : PendingStatuses :=
  ⟨[.okStatus,.okStatus],[("ROUTE:10.1.0.0/16",0),("ROUTE:10.2.0.0/16",1)],by decide,by decide,by decide⟩

def threeRoutes : DbTable :=
  [("ROUTE:10.1.0.0/16",[("nexthop",[1])]),("ROUTE:10.2.0.0/16",[("nexthop",[2])]),
    ("ROUTE:10.3.0.0/16",[("nexthop",[3])])].foldl (fun t row => t.insert row.1 row.2) ∅

/-- The answers of OrchAgent arrive in the other order, and the table was full for the second route. -/
def secondRouteFull : List Notification :=
  [⟨.full,"ROUTE:10.2.0.0/16",[("err_str",[33])]⟩,⟨.success,"ROUTE:10.1.0.0/16",[("err_str",[])]⟩]

theorem responses_matched_and_restored_full :
    let processed := getAndProcessResponseNotification twoRoutesPending threeRoutes ∅ secondRouteFull
    processed.1.isOk = true ∧ (statusAt processed.2.1 0).isOk = true ∧
      statusAt processed.2.1 1 = ⟨.resourceExhausted,"!"⟩ ∧
      ∃ after,processed.2.2 = some after ∧ "ROUTE:10.2.0.0/16" ∉ after ∧
        after.lookup "ROUTE:10.1.0.0/16" = some [("nexthop",[1])] ∧
        after.lookup "ROUTE:10.3.0.0/16" = some [("nexthop",[3])] := by
  let answers : ResponseMap :=
    ⟨[("ROUTE:10.1.0.0/16",⟨.ok,""⟩),("ROUTE:10.2.0.0/16",⟨.resourceExhausted,"!"⟩)],by decide⟩
  obtain ⟨hmatched,hdelivered⟩ := responses_matched_and_restored twoRoutesPending threeRoutes ∅
  have hcollected : Collected 2 secondRouteFull answers.responses :=
    ⟨by decide,by simp [secondRouteFull,Notification.Readable],by decide,answers.ordered,by decide⟩
  have h := hmatched answers
  have hok := h.ok_iff.mpr fun key => by simp [twoRoutesPending,answers]
  have hfailed : ∀ key,twoRoutesPending.FailedKey answers.responses key ↔ key = "ROUTE:10.2.0.0/16" := fun key => by
    simp only [PendingStatuses.FailedKey,twoRoutesPending,answers,Status.isOk]
    grind
  obtain ⟨first,hfirst,hsucceeded,-⟩ := h.statuses hok (by decide) ("ROUTE:10.1.0.0/16",0) (by decide)
  obtain ⟨second,hsecond,-,hrefused⟩ := h.statuses hok (by decide) ("ROUTE:10.2.0.0/16",1) (by decide)
  obtain rfl : first = ⟨.ok,""⟩ := by simpa [answers] using hfirst
  obtain rfl : second = ⟨.resourceExhausted,"!"⟩ := by simpa [answers] using hsecond
  obtain ⟨after,hafter,hrestored,hkept⟩ := h.rows
  rw [(hdelivered secondRouteFull).1 _ hcollected]
  refine ⟨hok,hsucceeded.mpr rfl,hrefused rfl,after,hafter,?_,?_,?_⟩
  · exact fun hmem => (hrestored _ ((hfailed _).mpr rfl)).2.mp hmem rfl
  · exact hkept _ fun hfail => absurd ((hfailed _).mp hfail) (by decide)
  · exact hkept _ fun hfail => absurd ((hfailed _).mp hfail) (by decide)

end SonicPins.Sonic
