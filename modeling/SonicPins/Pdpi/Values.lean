import SonicPins.Lib.BigEndian
import SonicPins.Lib.Status
import SonicPins.Pdpi.Messages

/-! Byte strings, network addresses and IR values. -/
namespace SonicPins.Pdpi
open Lib

def invalidArgument (message : String) : Status := ⟨.invalidArgument,message⟩

/-- `absl::StrCat` of a natural number. -/
def natText (n : Nat) : String := decimal n

/-- `gutil::FindPtrOrStatus`, with the message that `p4info.expected` and `sequencing_util.expected` show. -/
def findPtrOrStatus {κ α : Type} [DecidableEq κ] (m : List (κ × α)) (k : κ) : StatusOr α :=
  match m.lookup k with
  | some v => .ok v
  | none => .error ⟨.notFound,"Key not found"⟩

theorem findPtrOrStatus_eq_ok {κ α : Type} [DecidableEq κ] {m : List (κ × α)} {k : κ} {v : α} :
    findPtrOrStatus m k = .ok v ↔ m.lookup k = some v := by
  unfold findPtrOrStatus
  cases m.lookup k <;> simp

/-- Removes leading zeros but never the last byte. -/
def arbitraryToCanonicalByteString : Bytes → Bytes
  | [] => []
  | [b] => [b]
  | b :: c :: rest => if b = 0 then arbitraryToCanonicalByteString (c :: rest) else b :: c :: rest

def getBitwidthOfByteString (bytes : Bytes) : Nat :=
  match bytes.dropWhile (· = 0) with
  | [] => if bytes.isEmpty then 0 else 1
  | c :: rest => Nat.log2 c.toNat + 1 + 8 * rest.length

def arbitraryToNormalizedByteString (bytes : Bytes) (expectedBitwidth : Nat) : StatusOr Bytes :=
  if bytes.isEmpty then .error ⟨.outOfRange,"Bytestrings must have non-zero length."⟩
  else
    let canonical := arbitraryToCanonicalByteString bytes
    let bitwidth := getBitwidthOfByteString canonical
    if bitwidth > expectedBitwidth then
      .error (invalidArgument ("Bytestring of length " ++ natText bitwidth ++ " bits does not fit in " ++
        natText expectedBitwidth ++ " bits."))
    else .ok (List.replicate ((expectedBitwidth + 7) / 8 - canonical.length) 0 ++ canonical)

def hexDigitPair (b : UInt8) : List Char := [Nat.digitChar (b.toNat / 16),Nat.digitChar (b.toNat % 16)]

def bytesToHexString (bytes : Bytes) : String := String.ofList (bytes.flatMap hexDigitPair)

/-- `absl::HexStringToBytes` on an even number of hexadecimal digits. -/
def hexCharsToBytes : List Char → Bytes
  | a :: b :: rest =>
    UInt8.ofNat ((digitValue a).getD 0 * 16 + (digitValue b).getD 0) :: hexCharsToBytes rest
  | _ => []

/-- `absl::CEscape`. -/
def cEscape (bytes : Bytes) : String :=
  String.ofList (bytes.flatMap fun b =>
    if b = 10 then ['\\','n'] else if b = 13 then ['\\','r'] else if b = 9 then ['\\','t']
    else if b = 34 then ['\\','"'] else if b = 39 then ['\\','\''] else if b = 92 then ['\\','\\']
    else if 32 ≤ b ∧ b < 127 then [Char.ofNat b.toNat]
    else '\\' :: [Nat.digitChar (b.toNat / 64),Nat.digitChar (b.toNat / 8 % 8),Nat.digitChar (b.toNat % 8)])

def isAllZeros (bytes : Bytes) : Bool := bytes.all (· = 0)

def intersection (left right : Bytes) : StatusOr Bytes :=
  if left.length ≠ right.length then
    .error (invalidArgument ("Cannot find intersection. '" ++ cEscape left ++ "'(" ++ natText left.length ++
      " bytes) and '" ++ cEscape right ++ "'(" ++ natText right.length ++ " bytes) are of unequal length."))
  else .ok (List.zipWith (· &&& ·) left right)

def prefixMaskBytes : Nat → Int → Bytes
  | 0,_ => []
  | n + 1,prefixLen =>
    (if prefixLen ≥ 8 then 0xff
      else if prefixLen > 0 then UInt8.ofNat (0xff * 2 ^ (8 - prefixLen.toNat))
      else 0) :: prefixMaskBytes n (prefixLen - 8)

/-- A leading partial byte is set whole, whatever the prefix length. -/
def prefixLenToMask (prefixLen : Int) (bitwidth : Nat) : StatusOr Bytes :=
  if prefixLen > bitwidth then
    .error (invalidArgument ("Prefix length " ++ decimal prefixLen ++ " cannot be greater than bitwidth " ++
      natText bitwidth ++ "."))
  else
    let msb := bitwidth % 8
    if msb ≠ 0 then .ok (UInt8.ofNat (0xff / 2 ^ (8 - msb)) :: prefixMaskBytes (bitwidth / 8) (prefixLen - msb))
    else .ok (prefixMaskBytes (bitwidth / 8) prefixLen)

section Addresses

/-- `ByteStringToBitset`: missing bits are zero, extra bits must be zero. -/
def byteStringToBitset (numBits : Nat) (bytes : Bytes) : StatusOr (BitVec numBits) :=
  let invalid := invalidArgument ("cannot fit given byte string of " ++ natText (bytes.length * 8) ++ " bits into " ++
    natText numBits ++ " bits: '" ++ bytesToHexString bytes ++ "'")
  let numBytes := (numBits + 7) / 8
  if bytes.isEmpty then .error (invalidArgument "byte string must be nonempty")
  else if numBytes ≤ bytes.length then
    if !isAllZeros (bytes.take (bytes.length - numBytes)) then .error invalid
    else
      let relevant := bytes.drop (bytes.length - numBytes)
      if numBits % 8 ≠ 0 && (relevant.headD 0).toNat / 2 ^ (numBits % 8) ≠ 0 then .error invalid
      else .ok (BitVec.ofNat numBits (bytesToNat relevant))
  else .ok (BitVec.ofNat numBits (bytesToNat bytes))

def toPaddedByteString {numBits : Nat} (a : BitVec numBits) : Bytes := natToBytes ((numBits + 7) / 8) a.toNat

/-- All words parsed by `parse`, one byte each. -/
def parseBytes (parse : List Char → Option UInt8) : List (List Char) → Option Bytes
  | [] => some []
  | w :: ws => (parse w).bind fun b => (parseBytes parse ws).map (b :: ·)

def parseByteInBase16 (w : List Char) : Option UInt8 :=
  if w.length > 2 then none else (readNumeral 16 w).map UInt8.ofNat

def parseByteInBase10 (w : List Char) : Option UInt8 :=
  if w.length > 3 then none
  else (readNumeral 10 w).bind fun n => if n > 255 then none else some (UInt8.ofNat n)

namespace MacAddress

def ofString (address : String) : StatusOr (BitVec 48) :=
  let invalid := invalidArgument ("Invalid MAC address: '" ++ address ++ "'")
  let words := splitChars ':' address.toList
  if words.length ≠ 6 then .error invalid
  else match parseBytes parseByteInBase16 words with
    | some bytes => .ok (BitVec.ofNat 48 (bytesToNat bytes))
    | none => .error invalid

def toString (a : BitVec 48) : String :=
  String.ofList (joinChars ':' ((toPaddedByteString a).map hexDigitPair))

end MacAddress

namespace Ipv4Address

def ofString (address : String) : StatusOr (BitVec 32) :=
  let invalid := invalidArgument ("Invalid IPv4 address: '" ++ address ++ "'")
  let words := splitChars '.' address.toList
  if words.length ≠ 4 then .error invalid
  else match parseBytes parseByteInBase10 words with
    | some bytes => .ok (BitVec.ofNat 32 (bytesToNat bytes))
    | none => .error invalid

def toString (a : BitVec 32) : String :=
  String.ofList (joinChars '.' ((toPaddedByteString a).map fun b => numeral 10 b.toNat))

end Ipv4Address

/-- The C library's `inet_ntop` and `inet_pton` for IPv6. -/
class InetText where
  ntop : BitVec 128 → String
  pton : String → Option (BitVec 128)

/-- The text form of IPv6 addresses whose zero groups need no compression. -/
@[reducible] def uncompressedInet : InetText where
  ntop a := String.ofList (joinChars ':' ((List.range 8).map fun i => numeral 16 (a.toNat / 65536 ^ (7 - i) % 65536)))
  pton address :=
    let words := splitChars ':' address.toList
    if words.length ≠ 8 || words.any fun w => w.length > 4 then none
    else (words.mapM (readNumeral 16)).map fun groups => BitVec.ofNat 128 (groups.foldl (fun acc g => acc * 65536 + g) 0)

namespace Ipv6Address
variable [InetText]

def ofString (address : String) : StatusOr (BitVec 128) :=
  match InetText.pton address with
  | some a => .ok a
  | none => .error (invalidArgument ("invalid IPv6 address: '" ++ address ++ "'"))

def toString (a : BitVec 128) : String := InetText.ntop a

/-- `MinimumMaskLength`: counted from the most significant bit to the last one set. -/
def minimumMaskLength (a : BitVec 128) : Nat :=
  match (List.range 128).find? fun i => a.getLsbD i with
  | some i => 128 - i
  | none => 0

end Ipv6Address

end Addresses

variable [InetText]

def Format.name : Format → String
  | .hexString => "HEX_STRING"
  | .mac => "MAC"
  | .ipv4 => "IPV4"
  | .ipv6 => "IPV6"
  | .string => "STRING"

/-- The upper-cased name of the oneof field that is set. -/
def IrValue.formatCaseName : IrValue → Option String
  | .notSet => none
  | .hexStr _ => some "HEX_STR"
  | .ipv4 _ => some "IPV4"
  | .ipv6 _ => some "IPV6"
  | .mac _ => some "MAC"
  | .str _ => some "STR"

/-- The number of the oneof case. -/
def IrValue.formatCase : IrValue → Nat
  | .notSet => 0
  | .hexStr _ => 1
  | .ipv4 _ => 2
  | .ipv6 _ => 3
  | .mac _ => 4
  | .str _ => 5

def formatAnnotation (format : Format) (text : String) : StatusOr Format :=
  match strDropPrefix "@format(" text with
  | none => .ok format
  | some rest =>
    if format ≠ .hexString then .error (invalidArgument "Found conflicting formatting annotations.")
    else if rest = "MAC_ADDRESS)" then .ok .mac
    else if rest = "IPV4_ADDRESS)" then .ok .ipv4
    else if rest = "IPV6_ADDRESS)" then .ok .ipv6
    else .error (invalidArgument ("Found invalid format annotation: '" ++ text ++ "'."))

def getFormat (annotations : List String) (bitwidth : Nat) (isSdnString : Bool) : StatusOr Format := do
  let format ← annotations.foldlM formatAnnotation (if isSdnString then .string else .hexString)
  if format = .mac ∧ bitwidth ≠ 48 then .error (invalidArgument "Only 48 bit values can be formatted as a MAC address.")
  else if format = .ipv4 ∧ bitwidth ≠ 32 then
    .error (invalidArgument "Only 32 bit values can be formatted as an IPv4 address.")
  else if format = .ipv6 ∧ bitwidth > 128 then .error (invalidArgument "IPv6 address cannot be larger than 128 bits.")
  else .ok format

def hexCharCount (bitwidth : Nat) : Nat := bitwidth / 4 + (if bitwidth % 4 ≠ 0 then 1 else 0)

def arbitraryByteStringToIrValue (format : Format) (bitwidth : Nat) (bytes : Bytes) : StatusOr IrValue :=
  if bytes.isEmpty then .error ⟨.outOfRange,"Bytestrings must have non-zero length."⟩
  else match format with
    | .mac => (byteStringToBitset 48 bytes).map fun mac => .mac (MacAddress.toString mac)
    | .ipv4 => (byteStringToBitset 32 bytes).map fun ipv4 => .ipv4 (Ipv4Address.toString ipv4)
    | .ipv6 => do
      let ipv6 ← byteStringToBitset 128 bytes
      if ipv6 >>> bitwidth ≠ 0 then
        .error (invalidArgument ("IPv6 address '0x" ++ bytesToHexString bytes ++ "' does not fit within the upper " ++
          natText bitwidth ++ " bits."))
      else .ok (.ipv6 (Ipv6Address.toString (ipv6 <<< (128 - bitwidth))))
    | .string => match ofUtf8? bytes with
      | some s => .ok (.str s)
      | none => .error (invalidArgument "Invalid UTF-8 string: ")
    | .hexString => do
      let normalized ← arbitraryToNormalizedByteString bytes bitwidth
      let hex := (bytesToHexString normalized).toList
      .ok (.hexStr (String.ofList ('0' :: 'x' :: (if hexCharCount bitwidth ≠ hex.length then hex.drop 1 else hex))))

def validateIrValueFormat (value : IrValue) (format : Format) (options : TranslationOptions) : Status :=
  match value.formatCaseName with
  | none => invalidArgument "Oneof message is not set: format"
  | some name =>
    let matching : Bool := match format,value with
      | .mac,.mac _ => true
      | .ipv4,.ipv4 _ => true
      | .ipv6,.ipv6 _ => true
      | .string,.str _ => true
      | .hexString,.hexStr _ => true
      | _,_ => false
    if !matching && !options.allowArbitraryFormat then
      invalidArgument ("Expected format '" ++ format.name ++ "', but got '" ++ name ++ "' instead.")
    else .okStatus

def isLowerHex (c : Char) : Bool := ('0' ≤ c && c ≤ '9') || ('a' ≤ c && c ≤ 'f')

/-- The field of a set value, as `PrintTextProto` prints it. -/
def IrValue.printTextProto : IrValue → String
  | .notSet => ""
  | .hexStr s => "hex_str: \"" ++ s ++ "\"\n"
  | .ipv4 s => "ipv4: \"" ++ s ++ "\"\n"
  | .ipv6 s => "ipv6: \"" ++ s ++ "\"\n"
  | .mac s => "mac: \"" ++ s ++ "\"\n"
  | .str s => "str: \"" ++ s ++ "\"\n"

def irValueToNormalizedByteString (value : IrValue) (bitwidth : Nat) : StatusOr Bytes :=
  match value with
  | .mac s => (MacAddress.ofString s).map toPaddedByteString
  | .ipv4 s => (Ipv4Address.ofString s).map toPaddedByteString
  | .ipv6 s => do
    let ipv6 ← Ipv6Address.ofString s
    if Ipv6Address.minimumMaskLength ipv6 > bitwidth then
      .error (invalidArgument ("IPv6 address '" ++ s ++ "' does not fit within the required prefix length '" ++
        natText bitwidth ++ "' (defined by bitwidth)."))
    else .ok (toPaddedByteString (ipv6 >>> (128 - bitwidth)))
  | .str s => if s.isEmpty then .error ⟨.outOfRange,"Bytestrings must have non-zero length."⟩ else .ok (utf8 s)
  | .hexStr s =>
    match strDropPrefix "0x" s with
    | none => .error (invalidArgument ("IR Value '" ++ s ++ "' with hex string format does not start with 0x."))
    | some stripped =>
      if hexCharCount bitwidth ≠ (utf8 stripped).length then
        .error (invalidArgument ("IR Value '" ++ s ++ "' has the wrong number of characters. Has " ++
          natText (utf8 s).length ++ " characters, but expected " ++ natText (hexCharCount bitwidth + 2) ++ " instead."))
      else if !stripped.toList.all isLowerHex then
        .error (invalidArgument ("IR Value '" ++ s ++ "' contains non-hexadecimal characters."))
      else
        let digits := if stripped.toList.length % 2 = 0 then stripped.toList else '0' :: stripped.toList
        arbitraryToNormalizedByteString (hexCharsToBytes digits) bitwidth
  | .notSet => .error (invalidArgument "Uninitialized value: ")

def formattedStringToIrValue (value : String) : Format → IrValue
  | .mac => .mac value
  | .ipv4 => .ipv4 value
  | .ipv6 => .ipv6 value
  | .string => .str value
  | .hexString => .hexStr value

end SonicPins.Pdpi
