import SonicPins.Lib.SortedPairing
import SonicPins.Pdpi.Values

/-! Comparison of the switch's output with the outputs that are acceptable. -/
namespace SonicPins.Dvaas
open Lib Pdpi

/-- Parsed packets, as the comparison uses them: they are compared field by field but for
some ignored fields. -/
structure PacketMessages (Parsed FieldDescriptor : Type) where
  defaultInstance : Parsed
  payload : Parsed → String
  reasonsInvalid : FieldDescriptor
  payloadField : FieldDescriptor
  compare : List FieldDescriptor → Parsed → Parsed → Bool
  compare_equivalence : ∀ ignored,Equivalence fun a b => compare ignored a b = true
  reportDifferences : List FieldDescriptor → Parsed → Parsed → String
  reportValueDifferences : IrValue → IrValue → String

structure Packet (Parsed : Type) where
  port : String := ""
  parsed : Option Parsed := none
  hex : String := ""
  deriving DecidableEq,Repr

structure IrPacketMetadata where
  name : String := ""
  value : Option IrValue := none
  deriving DecidableEq

structure PacketIn (Parsed : Type) where
  metadata : List IrPacketMetadata := []
  parsed : Option Parsed := none
  hex : String := ""
  deriving DecidableEq

structure SwitchOutput (Parsed : Type) where
  packets : List (Packet Parsed) := []
  packetIns : List (PacketIn Parsed) := []
  deriving DecidableEq

structure SwitchOutputDiffParams (FieldDescriptor : Type) where
  ignoredPacketlibFields : List FieldDescriptor := []
  ignoredPacketInMetadata : List String := []
  treatExpectedAndActualOutputsAsHavingNoPacketIns : Bool := false
  manualPayloadCheck : Option (String → String → Option String) := none

structure MessageOrders (Parsed : Type) where
  packets : TotalOrder (Packet Parsed)
  packetIns : TotalOrder (PacketIn Parsed)

/-- Newlines indented further; empty lines at the end are not. -/
def indent (indentation : Nat) (text : String) : String :=
  let stripped := if text.endsWith "\n" then (text.dropEnd 1).toString else text
  let result := stripped.replace "\n" ("\n" ++ "".pushn ' ' indentation)
  if text.endsWith "\n" then result ++ "\n" else result

def getPacketInMetadataByName {Parsed : Type} (packetIn : PacketIn Parsed) (target : String) : Option IrPacketMetadata :=
  packetIn.metadata.find? fun metadata => metadata.name = target

def removeIgnoredMetadataFromPacketIns {Parsed : Type} (ignoredMetadata : String) (packetIns : List (PacketIn Parsed)) :
    List (PacketIn Parsed) :=
  packetIns.map fun packetIn =>
    { packetIn with
      metadata := packetIn.metadata.map fun metadata => if metadata.name = ignoredMetadata then {} else metadata }

variable {Parsed FieldDescriptor : Type} (msgs : PacketMessages Parsed FieldDescriptor)
  (params : SwitchOutputDiffParams FieldDescriptor)

/-- The fields that are left out of the comparison. -/
def ignoredFields : List FieldDescriptor :=
  msgs.reasonsInvalid :: params.ignoredPacketlibFields ++
    if params.manualPayloadCheck.isSome then [msgs.payloadField] else []

def checkPayload (what : String) (actual expected : Parsed) : Except String Unit :=
  match params.manualPayloadCheck with
  | none => .ok ()
  | some check =>
    match check (msgs.payload actual) (msgs.payload expected) with
    | none => .ok ()
    | some result => .error ("has " ++ what ++ " with invalid payload: " ++ result)

def compareParsed (what : String) (actual expected : Parsed) : Except String Unit :=
  if msgs.compare (ignoredFields msgs params) expected actual then .ok ()
  else .error ("has " ++ what ++ " with mismatched header fields:\n  " ++
    indent 2 (msgs.reportDifferences (ignoredFields msgs params) expected actual))

def comparePacket (i : Nat) (actual expected : Packet Parsed) : Except String Unit := do
  let actualParsed := actual.parsed.getD msgs.defaultInstance
  let expectedParsed := expected.parsed.getD msgs.defaultInstance
  let what := "packet " ++ toString i
  compareParsed msgs params what actualParsed expectedParsed
  if expected.port ≠ actual.port then
    .error ("has " ++ what ++ " with mismatched ports:\n  \"" ++ expected.port ++ "\" -> \"" ++ actual.port ++ "\"")
  checkPayload msgs params what actualParsed expectedParsed

/-- The value of a metadata field, the default one if it is not set. -/
def IrPacketMetadata.getValue (metadata : IrPacketMetadata) : IrValue := metadata.value.getD .notSet

def checkExpectedMetadata (what : String) (actual : PacketIn Parsed) : List IrPacketMetadata → Except String Unit
  | [] => .ok ()
  | expectedMetadata :: rest =>
    if expectedMetadata.name ∈ params.ignoredPacketInMetadata then checkExpectedMetadata what actual rest
    else match getPacketInMetadataByName actual expectedMetadata.name with
      | none => .error ("has " ++ what ++ " with missing metadata field '" ++ expectedMetadata.name ++ "':\n  ")
      | some actualMetadata =>
        if expectedMetadata.getValue = actualMetadata.getValue then checkExpectedMetadata what actual rest
        else .error ("has " ++ what ++ " with mismatched value for metadata field '" ++ expectedMetadata.name ++ "':\n  " ++
          indent 2 (msgs.reportValueDifferences expectedMetadata.getValue actualMetadata.getValue))

def checkAdditionalMetadata (what : String) (expected : PacketIn Parsed) : List IrPacketMetadata → Except String Unit
  | [] => .ok ()
  | actualMetadata :: rest =>
    if actualMetadata.name ∈ params.ignoredPacketInMetadata then checkAdditionalMetadata what expected rest
    else match getPacketInMetadataByName expected actualMetadata.name with
      | none => .error ("has " ++ what ++ " with additional metadata field '" ++ actualMetadata.name ++ "':\n  ")
      | some _ => checkAdditionalMetadata what expected rest

def comparePacketIn (i : Nat) (actual expected : PacketIn Parsed) : Except String Unit := do
  let actualParsed := actual.parsed.getD msgs.defaultInstance
  let expectedParsed := expected.parsed.getD msgs.defaultInstance
  let what := "packet in " ++ toString i
  compareParsed msgs params what actualParsed expectedParsed
  checkPayload msgs params what actualParsed expectedParsed
  checkExpectedMetadata msgs params what actual expected.metadata
  checkAdditionalMetadata params what expected actual.metadata

def compareEach {α : Type} (compareAt : Nat → α → α → Except String Unit) : Nat → List α → List α → Except String Unit
  | i,actual :: actuals,expected :: expecteds => do
    compareAt i actual expected
    compareEach compareAt (i + 1) actuals expecteds
  | _,_,_ => .ok ()

variable (orders : MessageOrders Parsed)

/-- The comparison with one acceptable output; a mismatch is explained. -/
def compareSwitchOutput (actualOutput expectedOutput : SwitchOutput Parsed) : Except String Unit := do
  if actualOutput.packets.length ≠ expectedOutput.packets.length then
    .error ("has mismatched number of packets (actual: " ++ toString actualOutput.packets.length ++ " expected: " ++
      toString expectedOutput.packets.length ++ ")\n")
  if ¬ params.treatExpectedAndActualOutputsAsHavingNoPacketIns ∧
      actualOutput.packetIns.length ≠ expectedOutput.packetIns.length then
    .error ("has mismatched number of packet ins (actual: " ++ toString actualOutput.packetIns.length ++ " expected: " ++
      toString expectedOutput.packetIns.length ++ ")\n")
  let remove := fun packetIns : List (PacketIn Parsed) =>
    params.ignoredPacketInMetadata.foldl (fun packetIns field => removeIgnoredMetadataFromPacketIns field packetIns) packetIns
  let actualPacketIns := orders.packetIns.sort (remove actualOutput.packetIns)
  let expectedPacketIns := orders.packetIns.sort (remove expectedOutput.packetIns)
  compareEach (comparePacket msgs params) 0 (orders.packets.sort actualOutput.packets)
    (orders.packets.sort expectedOutput.packets)
  if ¬ params.treatExpectedAndActualOutputsAsHavingNoPacketIns then
    compareEach (comparePacketIn msgs params) 0 actualPacketIns expectedPacketIns

def explainMismatches (actualOutput : SwitchOutput Parsed) : Nat → List (SwitchOutput Parsed) → String → Option String
  | _,[],listener => some listener
  | i,expectedOutput :: rest,listener =>
    match compareSwitchOutput msgs params orders actualOutput expectedOutput with
    | .ok () => none
    | .error explanation =>
      explainMismatches actualOutput (i + 1) rest
        (listener ++ "- acceptable output #" ++ toString (i + 1) ++ " " ++ explanation)

/-- None if the output is acceptable, and otherwise why it is not. -/
def compareSwitchOutputs (expectedOutputs : List (SwitchOutput Parsed)) (actualOutput : SwitchOutput Parsed) :
    Option String :=
  explainMismatches msgs params orders actualOutput 0 expectedOutputs ""

end SonicPins.Dvaas
