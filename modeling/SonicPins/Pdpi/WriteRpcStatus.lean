import SonicPins.Pdpi.Values

/-! The status of a Write RPC, between its IR and the gRPC status on the wire. -/
namespace SonicPins.Pdpi
open Lib

variable {s : IrWriteRpcStatus}

/-- `p4.v1.Error`, by the fields that are translated. -/
structure P4Error where
  canonicalCode : Int32
  message : String
  deriving DecidableEq

/-- `google.protobuf.Any`: a packed P4 error, or a message of another type. -/
inductive AnyMessage where
  | p4Error (e : P4Error)
  | other (typeUrl : String)
  deriving DecidableEq

structure GoogleRpc.Status where
  code : Int32 := 0
  message : String := ""
  details : List AnyMessage := []
  deriving DecidableEq

/-- The bytes of `error_details`, by what `ParseFromString` makes of them. -/
inductive ErrorDetails where
  | empty
  | malformed (bytes : Bytes)
  | rpcStatus (s : GoogleRpc.Status)
  deriving DecidableEq

structure Grpc.Status where
  errorCode : Int32 := 0
  errorMessage : String := ""
  errorDetails : ErrorDetails := .empty
  deriving DecidableEq

structure IrUpdateStatus where
  code : Int32 := 0
  message : String := ""
  deriving DecidableEq

inductive IrWriteRpcStatus where
  | notSet
  | rpcWideError (error : GoogleRpc.Status)
  | rpcResponse (statuses : List IrUpdateStatus)
  deriving DecidableEq

def isGoogleRpcCode (rpcCode : Int32) : StatusOr Unit :=
  if rpcCode < 0 ∨ rpcCode > 15 then .error (invalidArgument ("Invalid status code: " ++ decimal rpcCode.toInt ++ "."))
  else .ok ()

def validateGenericUpdateStatus (code : Int32) (message : String) : StatusOr Unit :=
  if code = 0 ∧ message ≠ "" then .error (invalidArgument "OK status should not contain error message.")
  else .ok ()

/-- The code and message that are checked on both sides. -/
def checkUpdateStatus (u : IrUpdateStatus) : StatusOr Unit := do
  validateGenericUpdateStatus u.code u.message
  isGoogleRpcCode u.code

def statusCode? (code : Int32) : Option StatusCode := StatusCode.all[code.toUInt32.toNat]?

def statusCodeToString (code : Int32) : String := ((statusCode? code).map StatusCode.name).getD ""

def irWriteResponseToReadableMessage (statuses : List IrUpdateStatus) : String :=
  "Batch failed, individual results:\n" ++ String.join (statuses.mapIdx fun i u =>
    "#" ++ natText (i + 1) ++ ": " ++ statusCodeToString u.code ++
      (if u.message.isEmpty then "" else ": " ++ u.message) ++ "\n")

def packUpdateStatus (u : IrUpdateStatus) : StatusOr AnyMessage := do
  checkUpdateStatus u
  .ok (.p4Error ⟨u.code,u.message⟩)

def irWriteResponseToGrpcStatus (statuses : List IrUpdateStatus) : StatusOr Grpc.Status := do
  let details ← statuses.mapM packUpdateStatus
  .ok ⟨2,irWriteResponseToReadableMessage statuses,.rpcStatus { code := 2,details := details }⟩

def irWriteRpcStatusToGrpcStatus : IrWriteRpcStatus → StatusOr Grpc.Status
  | .rpcResponse statuses =>
    if (statuses.all fun u => u.code = 0) && statuses.all fun u => u.message.isEmpty then .ok {}
    else irWriteResponseToGrpcStatus statuses
  | .rpcWideError e => do
    isGoogleRpcCode e.code
    if e.code = 0 then .error (invalidArgument "IR rpc-wide error should not have ok status")
    else
      validateGenericUpdateStatus e.code e.message
      .ok { errorCode := e.code,errorMessage := e.message }
  | .notSet => .error (invalidArgument "Invalid IrWriteRpcStatus: ")

def unpackUpdateStatus : AnyMessage → StatusOr IrUpdateStatus
  | .other _ => .error (invalidArgument "Can not parse google::rpc::Status contained in grpc_status: ")
  | .p4Error e => do
    isGoogleRpcCode e.canonicalCode
    validateGenericUpdateStatus e.canonicalCode e.message
    .ok ⟨e.canonicalCode,e.message⟩

def innerStatusToIr (inner : GoogleRpc.Status) (errorCode : Int32) (numberOfUpdates : Int) : StatusOr IrWriteRpcStatus :=
  if inner.code ≠ errorCode then
    .error (invalidArgument "google::rpc::Status's status code does not match with status code in grpc_status")
  else if (inner.details.length : Int) ≠ numberOfUpdates then
    .error (invalidArgument ("Number of rpc status in google::rpc::status doesn't match " ++
      "number_of_update_in_write_request. inner_rpc_status: " ++ natText inner.details.length ++
      " number_of_updates_in_write_request: " ++ decimal numberOfUpdates))
  else do
    let statuses ← inner.details.mapM unpackUpdateStatus
    if statuses.all fun u => u.code = 0 then
      .error (invalidArgument ("gRPC status should contain a mixure of successful and failed update status but all p4 " ++
        "errors are ok"))
    else .ok (.rpcResponse statuses)

def grpcStatusToIrWriteRpcStatus (grpcStatus : Grpc.Status) (numberOfUpdates : Int) : StatusOr IrWriteRpcStatus :=
  if grpcStatus.errorCode = 0 then
    if grpcStatus.errorMessage ≠ "" ∨ grpcStatus.errorDetails ≠ .empty then
      .error (invalidArgument "gRPC status can not be ok and contain an error message or error details")
    else .ok (.rpcResponse (List.replicate numberOfUpdates.toNat {}))
  else match grpcStatus.errorDetails with
    | .empty => do
      isGoogleRpcCode grpcStatus.errorCode
      validateGenericUpdateStatus grpcStatus.errorCode grpcStatus.errorMessage
      .ok (.rpcWideError { code := grpcStatus.errorCode,message := grpcStatus.errorMessage })
    | .malformed _ =>
      if grpcStatus.errorCode = 2 then .error (invalidArgument "Can not parse error_details in grpc_status")
      else .error (invalidArgument ("Only rpc-wide error and batch update status formats are supported for non-ok gRPC " ++
        "status"))
    | .rpcStatus inner =>
      if grpcStatus.errorCode = 2 then innerStatusToIr inner grpcStatus.errorCode numberOfUpdates
      else .error (invalidArgument ("Only rpc-wide error and batch update status formats are supported for non-ok gRPC " ++
        "status"))

def GoogleRpcCode (code : Int32) : Prop := 0 ≤ code ∧ code ≤ 16

/-- A failed RPC, or one status for each of `n` updates; a status that is OK has no message. -/
def IrWriteRpcStatus.Reports (n : Int) : IrWriteRpcStatus → Prop
  | .notSet => False
  | .rpcWideError e => GoogleRpcCode e.code ∧ e.code ≠ 0
  | .rpcResponse statuses => (statuses.length : Int) = n ∧
      ∀ u ∈ statuses,GoogleRpcCode u.code ∧ (u.code = 0 → u.message = "")

def IrWriteRpcStatus.RoundTrips (n : Int) (s : IrWriteRpcStatus) : Prop :=
  ∃ g,irWriteRpcStatusToGrpcStatus s = .ok g ∧ grpcStatusToIrWriteRpcStatus g n = .ok s

/-- No status is UNAUTHENTICATED, and no failed RPC has details. -/
def IrWriteRpcStatus.Encodable : IrWriteRpcStatus → Prop
  | .notSet => True
  | .rpcWideError e => e.code ≠ 16 ∧ e.details = []
  | .rpcResponse statuses => ∀ u ∈ statuses,u.code ≠ 16

theorem isGoogleRpcCode_eq_ok {code : Int32} {u : Unit} : isGoogleRpcCode code = .ok u ↔ GoogleRpcCode code ∧ code ≠ 16 := by
  unfold isGoogleRpcCode GoogleRpcCode
  split_ifs with h
  · simp only [false_iff]
    grind
  · simp only [true_iff]
    grind

theorem validateGenericUpdateStatus_eq_ok {code : Int32} {message : String} {u : Unit} :
    validateGenericUpdateStatus code message = .ok u ↔ (code = 0 → message = "") := by
  unfold validateGenericUpdateStatus
  split_ifs with h
  · simp only [false_iff]
    exact fun hempty => h.2 (hempty h.1)
  · simp only [true_iff]
    exact fun hzero => by_contra fun hne => h ⟨hzero,hne⟩

/-- What both sides accept of one update. -/
def IrUpdateStatus.Valid (u : IrUpdateStatus) : Prop := (u.code = 0 → u.message = "") ∧ GoogleRpcCode u.code ∧ u.code ≠ 16

theorem packUpdateStatus_eq_ok {u : IrUpdateStatus} {a : AnyMessage} :
    packUpdateStatus u = .ok a ↔ u.Valid ∧ a = .p4Error ⟨u.code,u.message⟩ := by
  unfold packUpdateStatus checkUpdateStatus
  simp only [then_eq_ok,validateGenericUpdateStatus_eq_ok,isGoogleRpcCode_eq_ok,Except.ok.injEq,IrUpdateStatus.Valid]
  grind

private theorem unpackUpdateStatus_eq_ok {a : AnyMessage} {u : IrUpdateStatus} :
    unpackUpdateStatus a = .ok u ↔ u.Valid ∧ a = .p4Error ⟨u.code,u.message⟩ := by
  obtain ⟨code,message⟩ := u
  cases a with
  | other typeUrl => simp [unpackUpdateStatus]
  | p4Error e =>
    obtain ⟨code',message'⟩ := e
    unfold unpackUpdateStatus
    simp only [then_eq_ok,validateGenericUpdateStatus_eq_ok,isGoogleRpcCode_eq_ok,Except.ok.injEq,IrUpdateStatus.Valid,
      IrUpdateStatus.mk.injEq,AnyMessage.p4Error.injEq,P4Error.mk.injEq]
    grind

def IrUpdateStatus.packed (u : IrUpdateStatus) : AnyMessage := .p4Error ⟨u.code,u.message⟩

theorem packed_statuses {statuses : List IrUpdateStatus} {details : List AnyMessage} :
    statuses.mapM packUpdateStatus = .ok details ↔ (∀ u ∈ statuses,u.Valid) ∧ details = statuses.map IrUpdateStatus.packed := by
  simp only [mapM_eq_ok,packUpdateStatus_eq_ok,List.forall₂_and_left]
  rw [eq_comm,← List.forall₂_eq_eq_eq (α := AnyMessage),List.forall₂_map_left_iff]
  simp only [eq_comm,IrUpdateStatus.packed]

theorem unpacked_details {details : List AnyMessage} {statuses : List IrUpdateStatus} :
    details.mapM unpackUpdateStatus = .ok statuses ↔
      (∀ u ∈ statuses,u.Valid) ∧ details = statuses.map IrUpdateStatus.packed := by
  have hsame (a : AnyMessage) (u : IrUpdateStatus) : unpackUpdateStatus a = .ok u ↔ packUpdateStatus u = .ok a := by
    rw [unpackUpdateStatus_eq_ok,packUpdateStatus_eq_ok]
  rw [← packed_statuses,mapM_eq_ok,mapM_eq_ok]
  simp only [hsame]
  exact ⟨List.Forall₂.flip,List.Forall₂.flip⟩

theorem innerStatusToIr_eq_ok {inner : GoogleRpc.Status} {code : Int32} {n : Int} :
    innerStatusToIr inner code n = .ok s ↔ inner.code = code ∧ ∃ statuses : List IrUpdateStatus,
      (∀ u ∈ statuses,u.Valid) ∧ inner.details = statuses.map IrUpdateStatus.packed ∧ (statuses.length : Int) = n ∧
        (∃ u ∈ statuses,u.code ≠ 0) ∧ s = .rpcResponse statuses := by
  unfold innerStatusToIr
  by_cases hcode : inner.code = code
  swap
  · simp [hcode]
  rw [if_neg (not_not.mpr hcode)]
  constructor
  · intro h
    split at h
    · cases h
    · next hlength =>
      obtain ⟨statuses,hstatuses,h⟩ := bind_eq_ok.mp h
      obtain ⟨hvalid,hdetails⟩ := unpacked_details.mp hstatuses
      split_ifs at h with hall
      cases h
      refine ⟨hcode,statuses,hvalid,hdetails,?_,by simpa using hall,rfl⟩
      rw [← not_not.mp hlength,hdetails,List.length_map]
  · rintro ⟨-,statuses,hvalid,hdetails,hlength,hfailed,rfl⟩
    have hcount : (inner.details.length : Int) = n := by rw [hdetails,List.length_map,hlength]
    rw [if_neg (not_not.mpr hcount)]
    refine bind_eq_ok.mpr ⟨statuses,unpacked_details.mpr ⟨hvalid,hdetails⟩,?_⟩
    rw [if_neg (by simpa using hfailed)]

/-- The gRPC statuses that are accepted for `n` updates, with their IR. -/
inductive AcceptedGrpc (n : Int) : Grpc.Status → IrWriteRpcStatus → Prop
  | ok : AcceptedGrpc n {} (.rpcResponse (List.replicate n.toNat {}))
  | rpcWide {code : Int32} {message : String} : GoogleRpcCode code → code ≠ 16 → code ≠ 0 →
      AcceptedGrpc n ⟨code,message,.empty⟩ (.rpcWideError { code := code,message := message })
  | batch {message innerMessage : String} {statuses : List IrUpdateStatus} : (∀ u ∈ statuses,u.Valid) →
      (statuses.length : Int) = n → (∃ u ∈ statuses,u.code ≠ 0) →
      AcceptedGrpc n ⟨2,message,.rpcStatus ⟨2,innerMessage,statuses.map IrUpdateStatus.packed⟩⟩ (.rpcResponse statuses)

theorem grpcStatusToIrWriteRpcStatus_eq_ok {g : Grpc.Status} {n : Int} :
    grpcStatusToIrWriteRpcStatus g n = .ok s ↔ AcceptedGrpc n g s := by
  obtain ⟨code,message,details⟩ := g
  unfold grpcStatusToIrWriteRpcStatus
  simp only
  constructor
  · intro h
    by_cases hok : code = 0
    · subst hok
      rw [if_pos rfl] at h
      split_ifs at h with hempty
      cases h
      obtain ⟨hmessage,hdetails⟩ := not_or.mp hempty
      obtain rfl := not_not.mp hmessage
      obtain rfl := not_not.mp hdetails
      exact .ok
    rw [if_neg hok] at h
    cases details with
    | empty =>
      obtain ⟨hcode,h⟩ := then_eq_ok.mp h
      obtain ⟨-,h⟩ := then_eq_ok.mp h
      cases h
      exact .rpcWide (isGoogleRpcCode_eq_ok.mp hcode).1 (isGoogleRpcCode_eq_ok.mp hcode).2 hok
    | malformed bytes => split_ifs at h
    | rpcStatus inner =>
      simp only at h
      split_ifs at h with hunknown
      subst hunknown
      obtain ⟨innerCode,innerMessage,innerDetails⟩ := inner
      obtain ⟨rfl,statuses,hvalid,rfl,hlength,hfailed,rfl⟩ := innerStatusToIr_eq_ok.mp h
      exact .batch hvalid hlength hfailed
  · rintro (_ | ⟨hcode,hsixteen,hok⟩ | ⟨hvalid,hlength,hfailed⟩)
    · rfl
    · rw [if_neg hok]
      refine then_eq_ok.mpr ⟨isGoogleRpcCode_eq_ok.mpr ⟨hcode,hsixteen⟩,then_eq_ok.mpr ⟨?_,rfl⟩⟩
      exact validateGenericUpdateStatus_eq_ok.mpr fun h => absurd h hok
    · rw [if_neg (by decide)]
      simp only [if_pos]
      exact innerStatusToIr_eq_ok.mpr ⟨rfl,_,hvalid,rfl,hlength,hfailed,rfl⟩

inductive EncodedIr : IrWriteRpcStatus → Grpc.Status → Prop
  | ok {statuses : List IrUpdateStatus} : (∀ u ∈ statuses,u = {}) → EncodedIr (.rpcResponse statuses) {}
  | rpcWide {e : GoogleRpc.Status} : GoogleRpcCode e.code → e.code ≠ 16 → e.code ≠ 0 →
      EncodedIr (.rpcWideError e) ⟨e.code,e.message,.empty⟩
  | batch {statuses : List IrUpdateStatus} : (∀ u ∈ statuses,u.Valid) → (∃ u ∈ statuses,u.code ≠ 0) →
      EncodedIr (.rpcResponse statuses) ⟨2,irWriteResponseToReadableMessage statuses,
        .rpcStatus { code := 2,details := statuses.map IrUpdateStatus.packed }⟩

theorem irWriteRpcStatusToGrpcStatus_eq_ok {g : Grpc.Status} : irWriteRpcStatusToGrpcStatus s = .ok g ↔ EncodedIr s g := by
  unfold irWriteRpcStatusToGrpcStatus
  cases s with
  | notSet => exact ⟨by rintro ⟨⟩,by rintro ⟨⟩⟩
  | rpcWideError e =>
    constructor
    · intro h
      obtain ⟨hcode,h⟩ := then_eq_ok.mp h
      split_ifs at h with hok
      obtain ⟨-,h⟩ := then_eq_ok.mp h
      cases h
      exact .rpcWide (isGoogleRpcCode_eq_ok.mp hcode).1 (isGoogleRpcCode_eq_ok.mp hcode).2 hok
    · rintro ⟨⟩
      rename_i hcode hsixteen hok
      refine then_eq_ok.mpr ⟨isGoogleRpcCode_eq_ok.mpr ⟨hcode,hsixteen⟩,?_⟩
      rw [if_neg hok]
      exact then_eq_ok.mpr ⟨validateGenericUpdateStatus_eq_ok.mpr fun h => absurd h hok,rfl⟩
  | rpcResponse statuses =>
    have hall : ((statuses.all fun u => u.code = 0) && statuses.all fun u => u.message.isEmpty) = true ↔
        ∀ u ∈ statuses,u = {} := by
      simp only [Bool.and_eq_true,List.all_eq_true,decide_eq_true_eq,String.isEmpty_iff]
      exact ⟨fun h u hu => congrArg₂ IrUpdateStatus.mk (h.1 u hu) (h.2 u hu),
        fun h => ⟨fun u hu => by rw [h u hu],fun u hu => by rw [h u hu]⟩⟩
    simp only [hall,irWriteResponseToGrpcStatus]
    constructor
    · intro h
      split_ifs at h with hempty
      · cases h
        exact .ok hempty
      · obtain ⟨details,hdetails,h⟩ := bind_eq_ok.mp h
        obtain ⟨hvalid,rfl⟩ := packed_statuses.mp hdetails
        cases h
        refine .batch hvalid ?_
        by_contra hnone
        push Not at hnone
        exact hempty fun u hu => congrArg₂ IrUpdateStatus.mk (hnone u hu) ((hvalid u hu).1 (hnone u hu))
    · rintro (hempty | _ | ⟨hvalid,⟨u,hu,hfailed⟩⟩)
      · rw [if_pos hempty]
      · rw [if_neg fun h => hfailed (by rw [h u hu])]
        exact bind_eq_ok.mpr ⟨_,packed_statuses.mpr ⟨hvalid,rfl⟩,rfl⟩

theorem AcceptedGrpc.roundTrips {n : Int} {g : Grpc.Status} (h : AcceptedGrpc n g s) : s.RoundTrips n := by
  rcases h with _ | ⟨hcode,hsixteen,hok⟩ | ⟨hvalid,hlength,hfailed⟩
  · exact ⟨{},irWriteRpcStatusToGrpcStatus_eq_ok.mpr (.ok fun _ hu => List.eq_of_mem_replicate hu),rfl⟩
  · exact ⟨_,irWriteRpcStatusToGrpcStatus_eq_ok.mpr (.rpcWide hcode hsixteen hok),
      grpcStatusToIrWriteRpcStatus_eq_ok.mpr (.rpcWide hcode hsixteen hok)⟩
  · exact ⟨_,irWriteRpcStatusToGrpcStatus_eq_ok.mpr (.batch hvalid hfailed),
      grpcStatusToIrWriteRpcStatus_eq_ok.mpr (.batch hvalid hlength hfailed)⟩

theorem AcceptedGrpc.encodable {n : Int} {g : Grpc.Status} (h : AcceptedGrpc n g s) : s.Encodable := by
  rcases h with _ | ⟨hcode,hsixteen,hok⟩ | ⟨hvalid,hlength,hfailed⟩
  · intro u hu
    rw [List.eq_of_mem_replicate hu]
    decide
  · exact ⟨hsixteen,rfl⟩
  · exact fun u hu => (hvalid u hu).2.2

private theorem reported_roundTrips {n : Int} (hs : s.Reports n) (h : s.Encodable) : s.RoundTrips n := by
  cases s with
  | notSet => exact hs.elim
  | rpcWideError e =>
    obtain ⟨code,message,details⟩ := e
    obtain ⟨hsixteen,rfl⟩ := h
    exact (AcceptedGrpc.rpcWide hs.1 hsixteen hs.2).roundTrips
  | rpcResponse statuses =>
    obtain ⟨hlength,hreported⟩ := hs
    by_cases hfailed : ∃ u ∈ statuses,u.code ≠ 0
    · have haccepted : AcceptedGrpc n ⟨2,"",.rpcStatus ⟨2,"",statuses.map IrUpdateStatus.packed⟩⟩ (.rpcResponse statuses) :=
        .batch (fun u hu => ⟨(hreported u hu).2,(hreported u hu).1,h u hu⟩) hlength hfailed
      exact haccepted.roundTrips
    · push Not at hfailed
      have hempty : statuses = List.replicate n.toNat {} := List.eq_replicate_iff.mpr ⟨by omega,fun u hu =>
        congrArg₂ IrUpdateStatus.mk (hfailed u hu) ((hreported u hu).2 (hfailed u hu))⟩
      rw [hempty]
      exact AcceptedGrpc.ok.roundTrips

/-- A status report round trips exactly when it is encodable; an accepted gRPC status always
decodes to one that does. -/
theorem write_status_round_trip_iff (n : Int) : (∀ s : IrWriteRpcStatus,s.Reports n → (s.RoundTrips n ↔ s.Encodable)) ∧
    ∀ g s,grpcStatusToIrWriteRpcStatus g n = .ok s → s.RoundTrips n := by
  refine ⟨fun s hs => ⟨?_,reported_roundTrips hs⟩,fun g s h => (grpcStatusToIrWriteRpcStatus_eq_ok.mp h).roundTrips⟩
  rintro ⟨g,-,hdecoded⟩
  exact (grpcStatusToIrWriteRpcStatus_eq_ok.mp hdecoded).encodable

theorem aborted_batch_round_trip : (IrWriteRpcStatus.rpcResponse [{},⟨10,"second"⟩]).RoundTrips 2 :=
  ((write_status_round_trip_iff 2).1 (.rpcResponse [{},⟨10,"second"⟩])
    ⟨rfl,by simp [GoogleRpcCode]⟩).mpr (by simp [IrWriteRpcStatus.Encodable])

/-- UNAUTHENTICATED is a code of `google.rpc`, and refused. -/
theorem unauthenticated_is_refused : (IrWriteRpcStatus.rpcWideError { code := 16,message := "who" }).Reports 0 ∧
    irWriteRpcStatusToGrpcStatus (.rpcWideError { code := 16,message := "who" }) =
      .error (invalidArgument "Invalid status code: 16.") ∧
    ¬ (IrWriteRpcStatus.rpcWideError { code := 16,message := "who" }).RoundTrips 0 := by
  have hrefused : irWriteRpcStatusToGrpcStatus (.rpcWideError { code := 16,message := "who" }) =
      .error (invalidArgument "Invalid status code: 16.") := by decide
  refine ⟨⟨⟨by decide,by decide⟩,by decide⟩,hrefused,?_⟩
  rintro ⟨g,hg,-⟩
  rw [hrefused] at hg
  cases hg

end SonicPins.Pdpi
