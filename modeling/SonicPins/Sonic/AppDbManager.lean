import SonicPins.Sonic.AppDbEncoding

/-! Sending updates to OrchAgent and merging its responses into the statuses of a
request. A status pointer is the position of the status in the response. -/
namespace SonicPins.Sonic
open Lib Pdpi P4rtApp

inductive SwssStatusCode where
  | success | unknown | inUse | invalidParam | deadlineExceeded | notFound | exists | permissionDenied | full
  | unimplemented | internal | noMemory | unavail | notExecuted | other
  deriving DecidableEq,Repr

def swssToP4RTErrorCode : SwssStatusCode → StatusCode
  | .success => .ok
  | .unknown => .unknown
  | .inUse => .invalidArgument
  | .invalidParam => .invalidArgument
  | .deadlineExceeded => .deadlineExceeded
  | .notFound => .notFound
  | .exists => .alreadyExists
  | .permissionDenied => .permissionDenied
  | .full => .resourceExhausted
  | .unimplemented => .unimplemented
  | .internal => .internal
  | .noMemory => .internal
  | .unavail => .unavailable
  | .notExecuted => .aborted
  | .other => .unknown

/-- What `wait` returns over ZMQ; every response holds the status codes and
messages of its field value tuples. -/
structure ZmqResponse where
  dbName : String
  tableName : String
  kfvs : List (String × List (SwssStatusCode × Bytes))

/-- What `WaitForNotificationAndPop` returns. -/
structure Notification where
  status : SwssStatusCode
  key : String
  values : List FieldValue

/-- The layers below, by the number of the call within a request; no answer is a timeout. -/
structure LowerLayer where
  zmq : Nat → List KeyOpFieldsValues → Option ZmqResponse
  notification : Nat → AppDbUpdate → Option Notification

def p4rtTableName : String := "P4RT_TABLE"

/-- The responses by key; a key may not be answered twice. -/
def collectResponses (acc : List (String × Status)) : List (String × List (SwssStatusCode × Bytes)) →
    StatusOr (List (String × Status))
  | [] => .ok acc
  | (key,values) :: kfvs => match values with
    | [] => .error ⟨.internal,"Notification response for '" ++ key ++ "' should not be empty."⟩
    | (code,message) :: _ =>
      if (acc.lookup key).isSome then
        .error ⟨.internal,"[P4RT App] The response path received a duplicate key from the AppDb: " ++ key⟩
      else collectResponses (assign key ⟨swssToP4RTErrorCode code,cHexEscape message⟩ acc) kfvs

def getZmqResponses (expectedResponseCount : Nat) (response : Option ZmqResponse) : StatusOr (List (String × Status)) :=
  if expectedResponseCount = 0 then .ok []
  else match response with
    | none => .error ⟨.internal,"[OrchAgent] P4RT App timed out on waiting for the ZMQ response from OrchAgent."⟩
    | some r =>
      if r.kfvs.length ≠ expectedResponseCount then
        .error ⟨.internal,"[OrchaAgent]P4RT App did not get expected " ++ natText expectedResponseCount ++
          " responses on the ZMQ channel from the OrchAgent but got " ++ natText r.kfvs.length⟩
      else if r.dbName ≠ "APPL_DB" ∨ r.tableName ≠ p4rtTableName then
        .error ⟨.internal,"[OrchAgent] P4RT App did not receive the correct ZMQ response from the OrchAgent." ++
          "Expected: APPL_DB table " ++ p4rtTableName ++ " but got: " ++ r.dbName ++ " table " ++ r.tableName⟩
      else collectResponses [] r.kfvs

/-- `GetAppDbResponses` for a single key. -/
def getAppDbResponse (notification : Option Notification) : StatusOr (List (String × Status)) :=
  match notification with
  | none => .error ⟨.internal,
      "[OrchAgent] P4RT App timed out or failed waiting on a AppDB response from the OrchAgent."⟩
  | some n => match n.values with
    | [] => .error ⟨.internal,"Notification response for '" ++ n.key ++ "' should not be empty."⟩
    | (field,message) :: _ =>
      if field ≠ "err_str" then
        .error ⟨.internal,"[OrchAgent] responded with '" ++ field ++
          "' as its first value, but P4RT App was expecting 'err_str'."⟩
      else .ok [(n.key,⟨swssToP4RTErrorCode n.status,cHexEscape message⟩)]

def missingResponse (key : String) : String := "Missing response for: " ++ key

def extraResponse (key : String) : String := "Extra response for: " ++ key

/-- One expected key against the remaining responses; `next` continues with the
keys after it. -/
def mergeResponse (key : String) (position : Nat)
    (next : List (String × Status) → List Status → List Status × List String) :
    List (String × Status) → List Status → List Status × List String
  | [],statuses =>
    let r := next [] statuses
    (r.1,missingResponse key :: r.2)
  | (key',status) :: responses,statuses =>
    if key < key' then
      let r := next ((key',status) :: responses) statuses
      (r.1,missingResponse key :: r.2)
    else if key' < key then
      let r := mergeResponse key position next responses statuses
      (r.1,extraResponse key' :: r.2)
    else next responses (if status.isOk then statuses else statuses.set position status)

/-- The merge of expected and received keys, with the messages about those that
do not match. Only failures are copied. -/
def mergeResponses : List (String × Nat) → List (String × Status) → List Status → List Status × List String
  | [],responses,statuses => (statuses,responses.map fun r => extraResponse r.1)
  | (key,position) :: expected,responses,statuses =>
    mergeResponse key position (fun rs st => mergeResponses expected rs st) responses statuses

def updateResponses (expected : List (String × Nat)) (responses : List (String × Status)) (statuses : List Status) :
    StatusOr (List Status) :=
  match mergeResponses expected responses statuses with
  | (statuses,[]) => .ok statuses
  | (_,messages) => .error ⟨.internal,"Got unexpected responses:\n  " ++ String.intercalate "\n  " messages⟩

def notAttempted : Status := ⟨.aborted,"Not attempted"⟩

/-- What is sent below: the queued updates of the P4RT table, or one update of another table. -/
inductive SentRequest where
  | batch (rows : List KeyOpFieldsValues)
  | single (update : AppDbUpdate)

/-- An error comes with what was sent before it. -/
abbrev Exchanged (α : Type) := Except (Status × List SentRequest) α

/-- The local variables of `PerformAppDbUpdates` and the statuses it points to, with what was sent. -/
structure AppDbBatch where
  p4rtUpdates : List KeyOpFieldsValues := []
  p4rtResults : List (String × Nat) := []
  failed : Bool := false
  statuses : List Status
  sent : List SentRequest := []

/-- The code a status pointer reads. -/
def statusAt (statuses : List Status) (position : Nat) : Status := statuses.getD position .okStatus

/-- Sends the queued updates; tells whether all of them succeeded. -/
def performAppDbP4rtUpdates (lower : LowerLayer) (b : AppDbBatch) : Exchanged (Bool × AppDbBatch) :=
  if b.p4rtUpdates.isEmpty then .ok (true,b)
  else
    let sent := b.sent ++ [.batch b.p4rtUpdates]
    let statuses := do
      let responses ← getZmqResponses b.p4rtResults.length (lower.zmq b.sent.length b.p4rtUpdates)
      updateResponses b.p4rtResults responses b.statuses
    match statuses with
    | .error status => .error (status,sent)
    | .ok statuses =>
      let succeeded := b.p4rtUpdates.all fun u =>
        (statusAt statuses ((b.p4rtResults.lookup u.key).getD 0)).isOk
      .ok (succeeded,{ b with statuses := statuses,sent := sent })

/-- `PerformAppDbVrfUpdate`, `PerformAppDbVlanUpdate` and `PerformAppDbVlanMemberUpdate`. -/
def performAppDbTableUpdate (lower : LowerLayer) (calls : Nat) (update : AppDbUpdate) : StatusOr Status := do
  let responses ← getAppDbResponse (lower.notification calls update)
  let statuses ← updateResponses [(update.update.key,0)] responses [.okStatus]
  .ok (statusAt statuses 0)

def clearQueue (b : AppDbBatch) : AppDbBatch := { b with p4rtUpdates := [],p4rtResults := [] }

def performAppDbUpdate (lower : LowerLayer) (b : AppDbBatch) (update : AppDbUpdate) (position : Nat) :
    Exchanged AppDbBatch :=
  if b.failed then .ok { b with statuses := b.statuses.set position notAttempted }
  else if update.table = .p4rt then
    .ok { b with
      p4rtUpdates := b.p4rtUpdates ++ [update.update],
      p4rtResults := assign update.update.key position b.p4rtResults }
  else do
    let (succeeded,b) ← performAppDbP4rtUpdates lower b
    let b := clearQueue b
    if !succeeded then .ok { b with statuses := b.statuses.set position notAttempted,failed := true }
    else
      let sent := b.sent ++ [.single update]
      match performAppDbTableUpdate lower b.sent.length update with
      | .error status => .error (status,sent)
      | .ok status => .ok { b with statuses := b.statuses.set position status,failed := !status.isOk,sent := sent }

/-- The loop over the updates, and the flush after it. -/
def runAppDbUpdates (lower : LowerLayer) :
    List (AppDbUpdate × Nat) → AppDbBatch → Exchanged (Bool × List Status × List SentRequest)
  | [],b =>
    if b.failed then .ok (false,b.statuses,b.sent)
    else (performAppDbP4rtUpdates lower b).map fun r => (r.1,r.2.statuses,r.2.sent)
  | (update,position) :: rest,b => do
    let b ← performAppDbUpdate lower b update position
    runAppDbUpdates lower rest b

/-- Whether all updates succeeded, their statuses, and what was sent below. -/
def performAppDbUpdates (lower : LowerLayer) (updates : List (AppDbUpdate × Nat)) (statuses : List Status) :
    Exchanged (Bool × List Status × List SentRequest) :=
  runAppDbUpdates lower updates { statuses := statuses }

end SonicPins.Sonic
