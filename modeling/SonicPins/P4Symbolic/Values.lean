import SonicPins.Lib.SolverTerms
import SonicPins.P4Symbolic.IdAllocator

/-! Values of table entries as solver terms. -/
namespace SonicPins.P4Symbolic
open Lib Pdpi

/-- Allocators by type name, and the type names of the fields known to be translated. -/
structure P4RuntimeTranslator where
  p4runtimeTranslationAllocators : List (String × IdAllocator) := []
  fieldsP4runtimeType : List (String × String) := []
  deriving DecidableEq,Repr

/-- `try_emplace`: an allocator that is there already stays. -/
def P4RuntimeTranslator.emplace (t : P4RuntimeTranslator) (typeName : String) (allocator : IdAllocator) : P4RuntimeTranslator :=
  match t.p4runtimeTranslationAllocators.lookup typeName with
  | some _ => t
  | none => { t with p4runtimeTranslationAllocators := (typeName,allocator) :: t.p4runtimeTranslationAllocators }

/-- Registers the type of a field, where the value belongs to one. -/
def P4RuntimeTranslator.noteField (t : P4RuntimeTranslator) (fieldName : Option String) (typeName : String) :
    P4RuntimeTranslator :=
  match fieldName with
  | none => t
  | some name =>
    if name.isEmpty then t else { t with fieldsP4runtimeType := (name,typeName) :: t.fieldsP4runtimeType }

/-- The allocator that a type without a provided translation gets. -/
def dynamicTranslation : TranslationData := { staticMapping := [],dynamicTranslation := true }

/-- `AllocateId` on the allocator of a type, which is made if it is missing. A call that does not
return has no result; it counts as a failure. -/
def P4RuntimeTranslator.allocateId (t : P4RuntimeTranslator) (typeName stringValue : String) :
    Fallible (UInt64 × P4RuntimeTranslator) :=
  let allocator := (t.p4runtimeTranslationAllocators.lookup typeName).getD (.ofData dynamicTranslation)
  match allocator.allocateId stringValue with
  | none => .error (.thrown "no id is left")
  | some (after,r) =>
    (orFail r).map fun id =>
      (id,{ t with p4runtimeTranslationAllocators := (typeName,after) :: t.p4runtimeTranslationAllocators })

/-- `absl::bit_width`, and one bit for zero. -/
def idBitwidth (id : UInt64) : Nat := if id = 0 then 1 else Nat.log2 id.toNat + 1

def formatP4RTValue [InetText] (value : IrValue) (fieldName : Option String) (typeName : String) (bitwidth : Nat)
    (t : P4RuntimeTranslator) : Fallible (Term × P4RuntimeTranslator) :=
  match value with
  | .str s => do
    let allocated ← (t.noteField fieldName typeName).allocateId typeName s
    if bitwidth = 0 then .ok (.bvVal allocated.1.toNat (idBitwidth allocated.1),allocated.2)
    else .error (.status (invalidArgument ("Translated type '" ++ typeName ++
      "' is expected to have bitwidth 0, got " ++ natText bitwidth)))
  | value =>
    if (fieldName.bind fun name => t.fieldsP4runtimeType.lookup name).isSome then
      .error (.status (invalidArgument ("A table entry provides a non-string value to a string translated field" ++
        fieldName.getD "")))
    else do
      let byteString ← orFail (irValueToNormalizedByteString value bitwidth)
      let _ ← orFail (arbitraryByteStringToIrValue .hexString bitwidth byteString)
      -- the normalized hex string is the number of the bytes
      let bits ← Term.mkBvVal (bytesToNat byteString) bitwidth
      .ok (bits,t)

end SonicPins.P4Symbolic
