import SonicPins.Lib.SolverTerms
import SonicPins.P4Symbolic.Ir
import SonicPins.Packetlib.HexStrings

/-! Values of a solver's model as texts, the readers of these texts, and the deparser. -/
namespace SonicPins.P4Symbolic
open Lib Pdpi Packetlib Ir

def bitChar (b : Bool) : Char := if b then '1' else '0'

/-- How a bit-vector value is printed: in hexadecimal digits where the width is one of whole
digits, in bits otherwise. -/
def bitVectorText (width value : Nat) : String :=
  if width % 4 = 0 then String.ofList ('#' :: 'x' :: natToHexDigits (width / 4) value)
  else String.ofList ('#' :: 'b' :: (natToBits width value).map bitChar)

/-- `model.eval(expr, true).to_string()`. -/
def modelText (model : Assignment) (expr : Term) : String :=
  match expr.sort with
  | .bool => if expr.eval model = 0 then "false" else "true"
  | .bitVector width => bitVectorText width (expr.eval model)

def readBitChars (bitCharString : List Char) : List Char → StatusOr (List Bool)
  | [] => .ok []
  | c :: rest =>
    if c = '1' then (readBitChars bitCharString rest).map (true :: ·)
    else if c = '0' then (readBitChars bitCharString rest).map (false :: ·)
    else .error (invalidArgument ("Bit string must contain either 1s or 0s. Found: " ++ String.ofList bitCharString))

def appendBitCharStringToPDPIBitString (result : BitString) (bitCharString : List Char) (numBits : Nat) : StatusOr BitString :=
  if bitCharString.length > numBits then
    .error (invalidArgument ("Bit string length exceeds the specified size (" ++ natText numBits ++ " bits): '" ++
      String.ofList bitCharString ++ "'"))
  else
    (readBitChars bitCharString bitCharString).map fun bits =>
      result ++ List.replicate (numBits - bitCharString.length) false ++ bits

def appendHexString (result : BitString) (hexString : String) : StatusOr BitString :=
  (hexStringToByteString hexString).map fun bytes => result ++ bytesToBits bytes

def appendHexCharStringToPDPIBitString (result : BitString) (hexCharString : List Char) (numBits : Nat) : StatusOr BitString :=
  if hexCharString.length * 4 > numBits then
    .error (invalidArgument ("Hex string length exceeds the specified size (" ++ natText numBits ++ " bits): '" ++
      String.ofList hexCharString ++ "'"))
  else
    let padded := result ++ List.replicate (numBits - hexCharString.length * 4) false
    if hexCharString.length % 2 = 1 then do
      -- the first digit of an uneven number of digits
      let digit ← hexCharToDigit (hexCharString.headD ' ')
      appendHexString (padded ++ natToBits 4 digit) (String.ofList ('0' :: 'x' :: hexCharString.drop 1))
    else appendHexString padded (String.ofList ('0' :: 'x' :: hexCharString))

def appendZ3ValueStringToBitString (result : BitString) (value : String) (numBits : Nat) : StatusOr BitString :=
  match value.toList with
  | '#' :: 'x' :: digits => appendHexCharStringToPDPIBitString result digits numBits
  | '#' :: 'b' :: bits => appendBitCharStringToPDPIBitString result bits numBits
  | _ => .error (invalidArgument ("Invalid Z3 bitvector value '" ++ value ++ "'"))

/-- The prefix that `std::stoull` skips in base sixteen. -/
def dropHexPrefix (base : Nat) : List Char → List Char
  | '0' :: x :: l => if base = 16 ∧ (x = 'x' ∨ x = 'X') then l else '0' :: x :: l
  | l => l

/-- `std::stoull`, which stops at the first character that is no digit. -/
def stoull (base : Nat) (text : List Char) : Fallible UInt64 :=
  let signed := splitSign (text.dropWhile isAsciiSpace)
  let digits := (dropHexPrefix base signed.2).takeWhile fun c => (digitValue c).any (· < base)
  match readNumeral base digits with
  | none => .error (.thrown "std::invalid_argument")
  | some n =>
    if n < 2 ^ 64 then .ok (if signed.1 then 0 - UInt64.ofNat n else UInt64.ofNat n)
    else .error (.thrown "std::out_of_range")

def z3ValueStringToInt (value : String) : Fallible UInt64 :=
  match value.toList with
  | '#' :: 'x' :: digits => stoull 16 digits
  | '#' :: 'b' :: bits => stoull 2 bits
  | text => if value = "true" then .ok 1 else if value = "false" then .ok 0 else stoull 10 text

/-- `absl::SimpleHexAtoi` to 128 bits. -/
def simpleHexAtoiU128 (s : String) : Option Int :=
  (refuseMinus s).bind fun _ => (safeParseInt 16 s).bind (inRange 0 (2 ^ 128 - 1))

/-- The parsing of `EvalZ3BitvectorToUInt128`; more than 64 binary digits are read in two halves. -/
def uint128OfZ3ValueString (value : String) : Fallible Nat :=
  match value.toList with
  | '#' :: 'x' :: digits =>
    match simpleHexAtoiU128 (String.ofList digits) with
    | some n => .ok n.toNat
    | none => .error (.status (invalidArgument ("Unable to convert hex string '" ++ String.ofList digits ++ "' to uint128")))
  | '#' :: 'b' :: bits =>
    if bits.length > 64 then do
      let hi ← stoull 2 (bits.take (bits.length - 64))
      let lo ← stoull 2 (bits.drop (bits.length - 64))
      .ok (hi.toNat * 2 ^ 64 + lo.toNat)
    else do
      let lo ← stoull 2 bits
      .ok lo.toNat
  | _ => .error (.status (invalidArgument ("Invalid Z3 bitvector value '" ++ value ++ "'")))

/-- The source's messages also print the expression. -/
def evalZ3Bool (expr : Term) (model : Assignment) : Fallible Bool :=
  match expr.sort with
  | .bool => .ok (expr.eval model ≠ 0)
  | .bitVector _ => .error (.status (invalidArgument "Expected a boolean expression"))

def evalAndAppendZ3BitvectorToBitString (output : BitString) (expr : Term) (model : Assignment) : Fallible BitString :=
  match expr.sort with
  | .bool => .error (.status (invalidArgument "Expected a bitvector"))
  | .bitVector width => orFail (appendZ3ValueStringToBitString output (modelText model expr) width)

/-- The symbolic packet: a term for each field, by qualified name. -/
abbrev SymbolicPerPacketState := List (String × Term)

def SymbolicPerPacketState.get (packet : SymbolicPerPacketState) (headerName fieldName : String) : Fallible Term :=
  match packet.lookup (headerName ++ "." ++ fieldName) with
  | some value => .ok value
  | none => .error (.status (invalidArgument ("Cannot find key \"" ++ headerName ++ "." ++ fieldName ++
      "\" in SymbolicGuardedMap!")))

variable (packet : SymbolicPerPacketState) (model : Assignment)

def deparseField (headerName : String) (result : BitString) (fieldName : String) : Fallible BitString := do
  let field ← packet.get headerName fieldName
  if field.sort = .bool then
    .error (.status (invalidArgument ("Header field '" ++ headerName ++ "." ++ fieldName ++ "' is not a bit-vector")))
  else evalAndAppendZ3BitvectorToBitString result field model

def deparseHeader (headers : List (String × HeaderType)) (result : BitString) (headerName : String) : Fallible BitString :=
  match headers.lookup headerName with
  | none => .error (.status ⟨.notFound,"Header not found during deparsing: " ++ headerName⟩)
  | some header => do
    let valid ← packet.get headerName "$valid$"
    let isValid ← evalZ3Bool valid model
    if isValid then header.orderedFieldsList.foldlM (deparseField packet model headerName) result else .ok result

def deparse (headerOrder : List String) (headers : List (String × HeaderType)) : Fallible Bytes := do
  let result ← headerOrder.foldlM (deparseHeader packet model headers) []
  result.toByteString

end SonicPins.P4Symbolic
