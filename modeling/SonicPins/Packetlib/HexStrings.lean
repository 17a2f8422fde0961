import SonicPins.Lib.Bits
import SonicPins.Pdpi.ValueCodec

/-! Hexadecimal texts and the bit string that packets are read from. -/
namespace SonicPins.Packetlib
open Lib Pdpi

variable {hexString text : String} {c : Char} {d numBits v : Nat} {bits : BitString} {digits : List Char}

/-- The value that a 32 bit `int` keeps of a number. -/
@[irreducible] def int32 (n : Int) : Int := n.bmod (2 ^ 32)

def hexCharToDigit (hexChar : Char) : StatusOr Nat :=
  match digitValue hexChar with
  | some digit => .ok digit
  | none => .error (invalidArgument ("invalid hexadecimal character: " ++ String.singleton hexChar))

def digitIn (hexString : String) (c : Char) : StatusOr Nat :=
  (hexCharToDigit c).mapError (·.annotate (" while trying to convert hex string: " ++ hexString))

def missingPrefix (hexString : String) : Status :=
  invalidArgument ("missing '0x'-prefix in hexadecimal string: '" ++ hexString ++ "'")

/-- The value of digits from the least significant one on; no bit that is set may be lost. -/
def bitsetOfDigits (numBits : Nat) (hexString : String) : Nat → List Char → StatusOr Nat
  | _,[] => .ok 0
  | i,c :: rest => do
    let digit ← digitIn hexString c
    match (List.range 4).find? fun j => digit.testBit j && decide (numBits ≤ 4 * i + j) with
    | some j => .error (invalidArgument ("hex string '0x" ++ hexString ++ "' has bit #" ++ natText (4 * i + j + 1) ++
        " set to 1; conversion to " ++ natText numBits ++ " bits would lose information"))
    | none => do
      let higher ← bitsetOfDigits numBits hexString (i + 1) rest
      .ok (digit + 16 * higher)

def hexStringToAnyLargeEnoughBitset (numBits : Nat) (hexString : String) : StatusOr Nat :=
  match strDropPrefix "0x" hexString with
  | none => .error (missingPrefix hexString)
  | some digits => bitsetOfDigits numBits digits 0 digits.toList.reverse

def numHexDigits (numBits : Nat) : Nat := (numBits + 3) / 4

def hexStringToBitset (numBits : Nat) (hexString : String) : StatusOr Nat :=
  match strDropPrefix "0x" hexString with
  | none => .error (missingPrefix hexString)
  | some digits =>
    if (utf8 digits).length ≠ numHexDigits numBits then
      .error (invalidArgument ("illegal conversion from hex string '" ++ hexString ++ "' to " ++ natText numBits ++
        " bits; expected " ++ natText (numHexDigits numBits) ++ " hex digits but got " ++ natText (utf8 digits).length))
    else hexStringToAnyLargeEnoughBitset numBits hexString

/-- `HexStringToInt` and `HexStringToInt32`. -/
def hexStringToInt (hexString : String) : StatusOr Int :=
  (hexStringToAnyLargeEnoughBitset 32 hexString).map fun bits => int32 bits

def bytesOfDigits (hexString : String) : List Char → StatusOr Bytes
  | [] => .ok []
  | [c] => do
    let _ ← digitIn hexString c
    .ok []
  | c :: d :: rest => do
    let high ← digitIn hexString c
    let low ← digitIn hexString d
    let bytes ← bytesOfDigits hexString rest
    .ok (UInt8.ofNat (high * 16 + low) :: bytes)

def hexStringToByteString (hexString : String) : StatusOr Bytes :=
  match strDropPrefix "0x" hexString with
  | none => .error (missingPrefix hexString)
  | some digits =>
    if (utf8 digits).length % 2 ≠ 0 then
      .error (invalidArgument "only hex strings of even length can be converted to byte strings")
    else bytesOfDigits digits digits.toList

/-- The text of the lowest bits of a number. -/
def bitsetToHexString (numBits : Nat) (value : Int) : String :=
  String.ofList ('0' :: 'x' :: natToHexDigits (numHexDigits numBits) (value % 2 ^ numBits).toNat)

/-- The bits not yet consumed. -/
abbrev BitString := List Bool

namespace BitString

/-- An `int`, so not the number of bits of a very long string. -/
def size (data : BitString) : Int := int32 data.length

/-- Four bits a digit, from the last bit on. -/
def toHexString (bits : BitString) : String :=
  String.ofList ('0' :: 'x' :: natToHexDigits (numHexDigits bits.length) (bitsToNat bits))

def consume (numBits : Int) (data : BitString) : StatusOr (BitString × BitString) :=
  if numBits < 0 then .error (invalidArgument ("Cannot consume " ++ decimal numBits ++ " bits."))
  else if data.size < numBits then
    .error ⟨.failedPrecondition,"Only " ++ decimal data.size ++ " bits left, but attempted to consume " ++
      decimal numBits ++ " bits."⟩
  else .ok (data.take numBits.toNat,data.drop numBits.toNat)

def consumeHexString (numBits : Int) (data : BitString) : StatusOr (String × BitString) :=
  (data.consume numBits).map fun (bits,rest) => (bits.toHexString,rest)

def peekHexString (numBits : Int) (data : BitString) : StatusOr String :=
  if numBits < 0 then .error (invalidArgument ("Cannot peek " ++ decimal numBits ++ " bits."))
  else if data.size < numBits then
    .error ⟨.failedPrecondition,"Only " ++ decimal data.size ++ " bits left, but attempted to peek " ++
      decimal numBits ++ " bits."⟩
  else .ok (toHexString (data.take numBits.toNat))

/-- A negative size is no capacity that a string can reserve. -/
def toByteString (data : BitString) : Fallible Bytes :=
  if data.size % 8 ≠ 0 then
    .error (.status ⟨.failedPrecondition,"Only bit strings with a size that a multiple of 8 can be converted to a byte string. Got " ++
      decimal data.size⟩)
  else if data.size < 0 then .error (.thrown "std::length_error")
  else .ok (bitsToBytes (data.take data.size.toNat))

end BitString

theorem int32_eq (n : Int) : int32 n = if n % 2 ^ 32 < 2 ^ 31 then n % 2 ^ 32 else n % 2 ^ 32 - 2 ^ 32 := by
  unfold int32
  rw [Int.bmod_eq_emod]
  split <;> split <;> omega

theorem int32_of_lt {n : Nat} (h : n < 2 ^ 31) : int32 n = n := by
  rw [int32_eq]
  split <;> omega

theorem int32_bounds (n : Int) : -2 ^ 31 ≤ int32 n ∧ int32 n < 2 ^ 31 := by
  rw [int32_eq]
  split <;> omega

theorem int32_le (n : Nat) : int32 n ≤ n := by
  rw [int32_eq]
  split <;> omega

theorem int32_emod_eight (n : Int) : int32 n % 8 = n % 8 := by
  rw [int32_eq]
  split <;> omega

theorem int32_sub {n k : Nat} (h : (k : Int) ≤ int32 n) : int32 (n - k : Nat) = int32 n - k := by
  have hle := int32_le n
  have hbounds := int32_bounds n
  obtain ⟨q,hq⟩ : ∃ q,(n : Int) - int32 n = 2 ^ 32 * q := by
    refine ⟨(n - int32 n) / 2 ^ 32,?_⟩
    rw [int32_eq]
    split <;> omega
  rw [Nat.cast_sub (by omega),int32_eq]
  split <;> omega

/-- A text of the digits after the prefix. -/
def HexText (hexString : String) (digits : List Char) : Prop :=
  hexString.toList = '0' :: 'x' :: digits ∧ areHexDigits digits = true

theorem strDropPrefix_hex {digits : String} :
    strDropPrefix "0x" hexString = some digits ↔ hexString.toList = '0' :: 'x' :: digits.toList := by
  constructor
  · intro h
    obtain ⟨l,hl,rfl⟩ := Option.map_eq_some_iff.mp h
    simpa using dropPrefixChars_eq_some hl
  · intro h
    have hdrop := dropPrefixChars_append "0x".toList digits.toList
    refine Option.map_eq_some_iff.mpr ⟨digits.toList,?_,String.ofList_toList⟩
    rw [h]
    exact hdrop

theorem digitIn_eq_ok : digitIn hexString c = .ok d ↔ digitValue c = some d := by
  unfold digitIn hexCharToDigit
  cases digitValue c <;> simp [Except.mapError]

theorem digitValue_lt (h : digitValue c = some d) : d < 16 := by
  unfold digitValue at h
  simp only [Char.le_def,UInt32.le_iff_toNat_le] at h
  split at h
  · cases h
    rename_i hc
    simp only [Char.toNat] at *
    have h9 : '9'.val.toNat = 57 := rfl
    have h0 : '0'.val.toNat = 48 := rfl
    omega
  · split at h
    · cases h
      rename_i hc
      simp only [Char.toNat] at *
      have ha : 'a'.val.toNat = 97 := rfl
      have hf : 'f'.val.toNat = 102 := rfl
      omega
    · split at h
      · cases h
        rename_i hc
        simp only [Char.toNat] at *
        have ha : 'A'.val.toNat = 65 := rfl
        have hf : 'F'.val.toNat = 70 := rfl
        omega
      · cases h

theorem digit_fits {i : Nat} (hd : d < 16) :
    ((List.range 4).find? fun j => d.testBit j && decide (numBits ≤ 4 * i + j)) = none ↔ d * 16 ^ i < 2 ^ numBits := by
  have hplace : (16 : Nat) ^ i = 2 ^ (4 * i) := pow_mul 2 4 i ▸ rfl
  rw [List.find?_eq_none]
  simp only [List.mem_range,Bool.and_eq_true,decide_eq_true_eq,not_and,not_le]
  constructor
  · intro h
    by_cases hzero : d = 0
    · subst hzero
      simp
    · have htop : d.testBit d.log2 = true := Nat.testBit_log2 hzero
      have hlog : d.log2 < 4 := (Nat.log2_lt hzero).mpr hd
      have hbit := h _ hlog htop
      have hlt : d < 2 ^ (d.log2 + 1) := Nat.lt_log2_self
      calc d * 16 ^ i < 2 ^ (d.log2 + 1) * 16 ^ i := Nat.mul_lt_mul_of_pos_right hlt (by positivity)
        _ = 2 ^ (d.log2 + 1 + 4 * i) := by rw [hplace,pow_add _ _ (4 * i)]
        _ ≤ 2 ^ numBits := Nat.pow_le_pow_right (by decide) (by omega)
  · intro h j _ hbit
    have hge : 2 ^ j ≤ d := Nat.ge_two_pow_of_testBit hbit
    have hpow : 2 ^ (4 * i + j) < 2 ^ numBits := by
      calc 2 ^ (4 * i + j) = 2 ^ j * 16 ^ i := by rw [hplace,pow_add,mul_comm]
        _ ≤ d * 16 ^ i := Nat.mul_le_mul_right _ hge
        _ < 2 ^ numBits := h
    exact (Nat.pow_lt_pow_iff_right (by decide)).mp hpow

theorem digits_fit {i higher : Nat} (hd : d < 16) :
    (d + 16 * higher) * 16 ^ i < 2 ^ numBits ↔ d * 16 ^ i < 2 ^ numBits ∧ higher * 16 ^ (i + 1) < 2 ^ numBits := by
  have hplace : (16 : Nat) ^ (i + 1) = 2 ^ (4 * (i + 1)) := pow_mul 2 4 (i + 1) ▸ rfl
  have hsum : (d + 16 * higher) * 16 ^ i = d * 16 ^ i + higher * 16 ^ (i + 1) := by ring
  have hsmall : d * 16 ^ i < 16 ^ (i + 1) := by
    rw [pow_succ,mul_comm]
    exact Nat.mul_lt_mul_of_pos_left hd (by positivity)
  rw [hsum]
  constructor
  · intro h
    exact ⟨by omega,by omega⟩
  · rintro ⟨hlow,hhigh⟩
    rcases le_or_gt (4 * (i + 1)) numBits with hle | hlt
    · obtain ⟨q,hq⟩ : (16 : Nat) ^ (i + 1) ∣ 2 ^ numBits := by
        rw [hplace]
        exact pow_dvd_pow 2 hle
      have hq' : higher < q := by
        rw [hq,mul_comm higher] at hhigh
        exact Nat.lt_of_mul_lt_mul_left hhigh
      calc d * 16 ^ i + higher * 16 ^ (i + 1) < 16 ^ (i + 1) + higher * 16 ^ (i + 1) := by omega
        _ = (higher + 1) * 16 ^ (i + 1) := by ring
        _ ≤ q * 16 ^ (i + 1) := Nat.mul_le_mul_right _ hq'
        _ = 2 ^ numBits := by rw [hq,mul_comm]
    · have hpow : 2 ^ numBits < 16 ^ (i + 1) := by
        rw [hplace]
        exact (Nat.pow_lt_pow_iff_right (by decide)).mpr hlt
      have hzero : higher = 0 := by
        by_contra hne
        have hone : 16 ^ (i + 1) ≤ higher * 16 ^ (i + 1) := Nat.le_mul_of_pos_left _ (by omega)
        omega
      subst hzero
      simpa using hlow

private theorem bitsetOfDigits_eq_ok {i : Nat} : bitsetOfDigits numBits hexString i digits = .ok v ↔
      areHexDigits digits = true ∧ hexDigitsToNat digits.reverse = v ∧ v * 16 ^ i < 2 ^ numBits := by
  induction digits generalizing i v with
  | nil =>
    simp only [bitsetOfDigits,Except.ok.injEq,areHexDigits,List.all_nil,List.reverse_nil,true_and]
    constructor
    · rintro rfl
      exact ⟨rfl,by simp⟩
    · rintro ⟨rfl,-⟩
      rfl
  | cons c rest ih =>
    simp only [bitsetOfDigits,bind_eq_ok,digitIn_eq_ok,List.reverse_cons,hexDigitsToNat_concat]
    have hall : areHexDigits (c :: rest) = true ↔ (digitValue c).isSome = true ∧ areHexDigits rest = true := by
      simp [areHexDigits]
    rw [hall]
    constructor
    · rintro ⟨d,hd,h⟩
      have hlt := digitValue_lt hd
      split at h
      · cases h
      · rename_i hfind
        obtain ⟨higher,hhigher,h⟩ := bind_eq_ok.mp h
        obtain ⟨hrest,hvalue,hfits⟩ := ih.mp hhigher
        cases h
        refine ⟨⟨by rw [hd]; rfl,hrest⟩,?_,(digits_fit hlt).mpr ⟨(digit_fits hlt).mp hfind,hfits⟩⟩
        rw [hvalue,hd,Option.getD_some]
        ring
    · rintro ⟨⟨hc,hrest⟩,hvalue,hfits⟩
      obtain ⟨d,hd⟩ := Option.isSome_iff_exists.mp hc
      have hlt := digitValue_lt hd
      rw [hd,Option.getD_some] at hvalue
      obtain rfl : d + 16 * hexDigitsToNat rest.reverse = v := by omega
      obtain ⟨hlow,hhigh⟩ := (digits_fit hlt).mp hfits
      refine ⟨d,hd,?_⟩
      rw [(digit_fits hlt).mpr hlow]
      exact bind_eq_ok.mpr ⟨_,ih.mpr ⟨hrest,rfl,hhigh⟩,rfl⟩

theorem areHexDigits_reverse (digits : List Char) : areHexDigits digits.reverse = areHexDigits digits := by
  simp [areHexDigits]

theorem hexStringToAnyLargeEnoughBitset_eq_ok : hexStringToAnyLargeEnoughBitset numBits hexString = .ok v ↔
      ∃ digits,HexText hexString digits ∧ hexDigitsToNat digits = v ∧ v < 2 ^ numBits := by
  unfold hexStringToAnyLargeEnoughBitset
  cases hprefix : strDropPrefix "0x" hexString with
  | none =>
    simp only [reduceCtorEq,false_iff]
    rintro ⟨digits,⟨htext,-⟩,-⟩
    have h := strDropPrefix_hex.mpr (show hexString.toList = '0' :: 'x' :: (String.ofList digits).toList by simpa using htext)
    cases hprefix.symm.trans h
  | some digits =>
    have htext := strDropPrefix_hex.mp hprefix
    simp only [bitsetOfDigits_eq_ok,areHexDigits_reverse,List.reverse_reverse,pow_zero,mul_one]
    constructor
    · rintro ⟨hdigits,hvalue,hfits⟩
      exact ⟨_,⟨htext,hdigits⟩,hvalue,hfits⟩
    · rintro ⟨digits',⟨htext',hdigits⟩,hvalue,hfits⟩
      obtain rfl : digits.toList = digits' := by simpa [htext] using htext'
      exact ⟨hdigits,hvalue,hfits⟩

theorem areHexDigits_ascii (h : areHexDigits digits = true) : (utf8 (String.ofList digits)).length = digits.length := by
  refine length_utf8_ofList fun c hc => ?_
  obtain ⟨d,hd⟩ := Option.isSome_iff_exists.mp (List.all_eq_true.mp h c hc)
  unfold digitValue at hd
  split at hd
  · rename_i hdigit
    exact Char.le_trans hdigit.2 (by decide)
  · split at hd
    · rename_i hlower
      exact Char.le_trans hlower.2 (by decide)
    · split at hd
      · rename_i hupper
        exact Char.le_trans hupper.2 (by decide)
      · cases hd

theorem HexText.eq_ofList (h : HexText hexString digits) : hexString = String.ofList ('0' :: 'x' :: digits) := by
  rw [← h.1,String.ofList_toList]

theorem HexText.unique {digits' : List Char} (h : HexText hexString digits)
    (h' : HexText hexString digits') : digits = digits' := by
  simpa [h.1] using h'.1

theorem HexText.strDropPrefix (h : HexText hexString digits) :
    strDropPrefix "0x" hexString = some (String.ofList digits) :=
  strDropPrefix_hex.mpr (by simpa using h.1)

theorem HexText.ne_empty (h : HexText hexString digits) : hexString ≠ "" := by
  rintro rfl
  cases h.1

theorem HexText.length (h : HexText hexString digits) : (utf8 hexString).length = digits.length + 2 := by
  have hx : ('x' : Char).utf8Size = 1 := by decide
  have h0 : ('0' : Char).utf8Size = 1 := by decide
  rw [h.eq_ofList,utf8_ofList_cons,utf8_ofList_cons,List.length_append,List.length_append,areHexDigits_ascii h.2,
    String.utf8EncodeChar_eq_singleton hx,String.utf8EncodeChar_eq_singleton h0,List.length_singleton,List.length_singleton]
  omega

theorem hexStringToBitset_eq_ok : hexStringToBitset numBits hexString = .ok v ↔ ∃ digits,HexText hexString digits ∧
      digits.length = numHexDigits numBits ∧ hexDigitsToNat digits = v ∧ v < 2 ^ numBits := by
  constructor
  · intro h
    unfold hexStringToBitset at h
    split at h
    · cases h
    · rename_i text hprefix
      split at h
      · cases h
      · rename_i hlen
        obtain ⟨digits,hdigits,hvalue⟩ := hexStringToAnyLargeEnoughBitset_eq_ok.mp h
        have htext := hdigits.strDropPrefix.symm.trans hprefix
        cases htext
        rw [not_not,areHexDigits_ascii hdigits.2] at hlen
        exact ⟨digits,hdigits,hlen,hvalue⟩
  · rintro ⟨digits,hdigits,hlen,hvalue⟩
    simp only [hexStringToBitset,hdigits.strDropPrefix,areHexDigits_ascii hdigits.2,hlen,ne_eq,not_true_eq_false,if_false]
    exact hexStringToAnyLargeEnoughBitset_eq_ok.mpr ⟨digits,hdigits,hvalue⟩

theorem bytesOfDigits_eq_ok (heven : digits.length % 2 = 0) {bytes : Bytes} :
    bytesOfDigits hexString digits = .ok bytes ↔ areHexDigits digits = true ∧ hexCharsToBytes digits = bytes := by
  induction digits using bytesOfDigits.induct generalizing bytes with
  | case1 => simp [bytesOfDigits,hexCharsToBytes,areHexDigits]
  | case2 c => simp at heven
  | case3 c d rest ih =>
    simp only [List.length_cons] at heven
    have hall : areHexDigits (c :: d :: rest) = true ↔
        (digitValue c).isSome = true ∧ (digitValue d).isSome = true ∧ areHexDigits rest = true := by simp [areHexDigits]
    simp only [bytesOfDigits,bind_eq_ok,digitIn_eq_ok,ih (by omega : rest.length % 2 = 0),hexCharsToBytes,hall]
    constructor
    · rintro ⟨high,hhigh,low,hlow,tail,⟨hrest,rfl⟩,h⟩
      cases h
      simp [hhigh,hlow,hrest]
    · rintro ⟨⟨hc,hd,hrest⟩,rfl⟩
      obtain ⟨high,hhigh⟩ := Option.isSome_iff_exists.mp hc
      obtain ⟨low,hlow⟩ := Option.isSome_iff_exists.mp hd
      exact ⟨high,hhigh,low,hlow,_,⟨hrest,rfl⟩,by simp [hhigh,hlow]⟩

private theorem bytesOfDigits_odd (h : areHexDigits digits = false) : ∀ bytes,bytesOfDigits hexString digits ≠ .ok bytes := by
  induction digits using bytesOfDigits.induct with
  | case1 => cases h
  | case2 c =>
    intro bytes hok
    simp only [bytesOfDigits,bind_eq_ok,digitIn_eq_ok] at hok
    obtain ⟨d,hd,-⟩ := hok
    simp [areHexDigits,hd] at h
  | case3 c d rest ih =>
    intro bytes hok
    simp only [bytesOfDigits,bind_eq_ok,digitIn_eq_ok] at hok
    obtain ⟨high,hhigh,low,hlow,tail,htail,-⟩ := hok
    refine ih ?_ tail htail
    simpa [areHexDigits,hhigh,hlow] using h

theorem hexStringToByteString_eq_ok {bytes : Bytes} : hexStringToByteString hexString = .ok bytes ↔
      ∃ digits,HexText hexString digits ∧ digits.length % 2 = 0 ∧ hexCharsToBytes digits = bytes := by
  constructor
  · intro h
    unfold hexStringToByteString at h
    split at h
    · cases h
    · rename_i text hprefix
      split at h
      · cases h
      · rename_i hlen
        have hhex : areHexDigits text.toList = true := by
          by_contra hno
          exact bytesOfDigits_odd (Bool.eq_false_iff.mpr hno) _ h
        have hascii := areHexDigits_ascii hhex
        rw [String.ofList_toList] at hascii
        rw [not_not,hascii] at hlen
        exact ⟨_,⟨strDropPrefix_hex.mp hprefix,hhex⟩,hlen,((bytesOfDigits_eq_ok hlen).mp h).2⟩
  · rintro ⟨digits,hdigits,heven,rfl⟩
    simp only [hexStringToByteString,hdigits.strDropPrefix,areHexDigits_ascii hdigits.2,heven,ne_eq,not_true_eq_false,
      if_false,String.toList_ofList]
    exact (bytesOfDigits_eq_ok heven).mpr ⟨hdigits.2,rfl⟩

theorem length_hexCharsToBytes (h : digits.length % 2 = 0) : 2 * (hexCharsToBytes digits).length = digits.length := by
  induction digits using hexCharsToBytes.induct with
  | case1 c d rest ih =>
    simp only [List.length_cons] at h
    have hrest := ih (by omega)
    simp only [hexCharsToBytes,List.length_cons]
    omega
  | case2 digits hshort =>
    rcases digits with _ | ⟨c,_ | ⟨d,rest⟩⟩
    · rfl
    · simp at h
    · exact absurd rfl (hshort c d rest)

theorem hexDigitsToNat_lt (digits : List Char) : hexDigitsToNat digits < 16 ^ digits.length := by
  induction digits using List.reverseRecOn with
  | nil => exact Nat.one_pos
  | append_singleton digits c ih =>
    have hdigit : (digitValue c).getD 0 < 16 := by
      cases hc : digitValue c with
      | none => exact Nat.succ_pos 15
      | some d => exact digitValue_lt hc
    rw [hexDigitsToNat_concat,List.length_append,List.length_singleton,pow_succ]
    omega

private theorem bytesToBits_hexCharsToBytes (heven : digits.length % 2 = 0) :
    bytesToBits (hexCharsToBytes digits) = natToBits (4 * digits.length) (hexDigitsToNat digits) := by
  induction digits using hexCharsToBytes.induct with
  | case1 c d rest ih =>
    rw [List.length_cons,List.length_cons] at heven
    have hlow : hexDigitsToNat rest < 2 ^ (4 * rest.length) := by
      rw [pow_mul]
      exact hexDigitsToNat_lt rest
    have hpair := hexDigitsToNat_lt [c,d]
    have hbyte : hexDigitsToNat [c,d] = (digitValue c).getD 0 * 16 + (digitValue d).getD 0 := by simp [hexDigitsToNat]
    have hvalue : hexDigitsToNat (c :: d :: rest) = hexDigitsToNat [c,d] * 2 ^ (4 * rest.length) + hexDigitsToNat rest := by
      rw [pow_mul]
      exact hexDigitsToNat_append [c,d] rest
    have hfirst : hexDigitsToNat (c :: d :: rest) / 2 ^ (4 * rest.length) = hexDigitsToNat [c,d] := by
      rw [hvalue,Nat.mul_comm,Nat.mul_add_div (Nat.two_pow_pos _),Nat.div_eq_of_lt hlow,Nat.add_zero]
    have hrest : hexDigitsToNat (c :: d :: rest) % 2 ^ (4 * rest.length) = hexDigitsToNat rest := by
      rw [hvalue,Nat.mul_add_mod_self_right,Nat.mod_eq_of_lt hlow]
    have hlength : 4 * (c :: d :: rest).length = 8 + 4 * rest.length := by
      rw [List.length_cons,List.length_cons]
      omega
    have htail : natToBits (4 * rest.length) (hexDigitsToNat (c :: d :: rest)) =
        natToBits (4 * rest.length) (hexDigitsToNat rest) := by
      rw [← natToBits_mod,hrest]
    rw [hexCharsToBytes,bytesToBits_cons,ih (by omega),hlength,natToBits_append,hfirst,htail,← hbyte,UInt8.toNat_ofNat',
      Nat.mod_eq_of_lt (by simpa using hpair)]
  | case2 digits hshort =>
    rcases digits with _ | ⟨c,_ | ⟨d,rest⟩⟩
    · rfl
    · simp at heven
    · exact absurd rfl (hshort c d rest)

theorem hexStringToByteString_of_bitset (h8 : numBits % 8 = 0) (h : hexStringToBitset numBits hexString = .ok v) :
    ∃ bytes,hexStringToByteString hexString = .ok bytes ∧ bytesToBits bytes = natToBits numBits v := by
  obtain ⟨digits,hdigits,hlen,rfl,-⟩ := hexStringToBitset_eq_ok.mp h
  have hwidth : 4 * digits.length = numBits := by
    rw [hlen,numHexDigits]
    omega
  have heven : digits.length % 2 = 0 := by omega
  exact ⟨_,hexStringToByteString_eq_ok.mpr ⟨digits,hdigits,heven,rfl⟩,by rw [bytesToBits_hexCharsToBytes heven,hwidth]⟩

theorem hexText_toHexString (bits : BitString) :
    HexText bits.toHexString (natToHexDigits (numHexDigits bits.length) (bitsToNat bits)) :=
  ⟨by simp [BitString.toHexString],areHexDigits_natToHexDigits _ _⟩

theorem lt_pow_numHexDigits {n : Nat} (h : v < 2 ^ n) : v < 16 ^ numHexDigits n := by
  refine lt_of_lt_of_le h ?_
  have hpow : (16 : Nat) ^ numHexDigits n = 2 ^ (4 * numHexDigits n) := pow_mul 2 4 _ ▸ rfl
  rw [hpow]
  exact Nat.pow_le_pow_right (by decide) (by unfold numHexDigits; omega)

theorem hexStringToBitset_toHexString (h : bits.length = numBits) :
    hexStringToBitset numBits bits.toHexString = .ok (bitsToNat bits) := by
  subst h
  have hlt := bitsToNat_lt bits
  exact hexStringToBitset_eq_ok.mpr ⟨_,hexText_toHexString bits,length_natToHexDigits _ _,
    hexDigitsToNat_natToHexDigits (lt_pow_numHexDigits hlt),hlt⟩

private theorem bitsToBytes_eq_natToBytes {n : Nat} (h : bits.length = 8 * n) :
    bitsToBytes bits = natToBytes n (bitsToNat bits) := by
  apply bytesToBits_injective
  rw [bytesToBits_bitsToBytes (by omega),bytesToBits_natToBytes,natToBits_of_length h]

theorem hexStringToByteString_toHexString (h : bits.length % 8 = 0) :
    hexStringToByteString bits.toHexString = .ok (bitsToBytes bits) := by
  obtain ⟨n,hn⟩ : ∃ n,bits.length = 8 * n := ⟨bits.length / 8,by omega⟩
  have hdigits : numHexDigits bits.length = 2 * n := by unfold numHexDigits; omega
  have htext := hexText_toHexString bits
  rw [hdigits,natToHexDigits_pairs] at htext
  refine hexStringToByteString_eq_ok.mpr ⟨_,htext,?_,?_⟩
  · rw [← natToHexDigits_pairs,length_natToHexDigits]
    omega
  · rw [bitsToBytes_eq_natToBytes hn]
    exact hexCharsToBytes_hexDigits _

theorem toByteString_of_lt {data : BitString} (h8 : data.length % 8 = 0) (hlt : data.length < 2 ^ 31) :
    data.toByteString = .ok (bitsToBytes data) := by
  have hsize : data.size = data.length := int32_of_lt hlt
  unfold BitString.toByteString
  rw [hsize,if_neg (by omega),if_neg (by omega),Int.toNat_natCast,List.take_length]

theorem hexStringToInt_of_bitset (hbits : numBits ≤ 31)
    (h : hexStringToBitset numBits hexString = .ok v) : hexStringToInt hexString = .ok v := by
  obtain ⟨digits,hdigits,-,hvalue,hlt⟩ := hexStringToBitset_eq_ok.mp h
  have hlt31 : v < 2 ^ 31 := lt_of_lt_of_le hlt (Nat.pow_le_pow_right (by decide) hbits)
  have hany : hexStringToAnyLargeEnoughBitset 32 hexString = .ok v :=
    hexStringToAnyLargeEnoughBitset_eq_ok.mpr ⟨digits,hdigits,hvalue,by omega⟩
  simp [hexStringToInt,hany,Except.map,int32_of_lt hlt31]

theorem digitChar_of_digitValue (h : digitValue c = some d) :
    c = Nat.digitChar d ∨ 10 ≤ d ∧ c = (Nat.digitChar d).toUpper := by
  have hchar : ∀ n,c.toNat = n → c = Char.ofNat n := fun n hn => hn ▸ (Char.ofNat_toNat c).symm
  unfold digitValue at h
  simp only [Char.le_def,UInt32.le_iff_toNat_le] at h
  change (if 48 ≤ c.toNat ∧ c.toNat ≤ 57 then some (c.toNat - 48) else if 97 ≤ c.toNat ∧ c.toNat ≤ 102 then
    some (c.toNat - 97 + 10) else if 65 ≤ c.toNat ∧ c.toNat ≤ 70 then some (c.toNat - 65 + 10) else none) = some d at h
  generalize c.toNat = n at h hchar
  have hc := hchar n rfl
  split at h
  · rename_i hrange
    obtain ⟨hlow,hhigh⟩ := hrange
    cases h
    left
    rw [hc]
    interval_cases n <;> rfl
  · split at h
    · rename_i hrange
      obtain ⟨hlow,hhigh⟩ := hrange
      cases h
      left
      rw [hc]
      interval_cases n <;> rfl
    · split at h
      · rename_i hrange
        obtain ⟨hlow,hhigh⟩ := hrange
        cases h
        refine .inr ⟨by omega,?_⟩
        rw [hc]
        interval_cases n <;> rfl
      · cases h

private theorem natToHexDigits_of_canonical (h : ∀ c ∈ digits,c = Nat.digitChar ((digitValue c).getD 0)) :
    natToHexDigits digits.length (hexDigitsToNat digits) = digits := by
  induction digits using List.reverseRecOn with
  | nil => rfl
  | append_singleton digits c ih =>
    have hdigit : (digitValue c).getD 0 < 16 := by
      cases hc : digitValue c with
      | none => exact Nat.succ_pos 15
      | some d => exact digitValue_lt hc
    have hlast := h c (by simp)
    rw [hexDigitsToNat_concat,List.length_append,List.length_singleton,natToHexDigits]
    rw [show (hexDigitsToNat digits * 16 + (digitValue c).getD 0) / 16 = hexDigitsToNat digits by omega,
      show (hexDigitsToNat digits * 16 + (digitValue c).getD 0) % 16 = (digitValue c).getD 0 by omega,
      ih fun c hc => h c (by simp [hc]),← hlast]

theorem decimal_digit (h : digitValue c = some d) (hd : d < 10) : c = Nat.digitChar d := by
  rcases digitChar_of_digitValue h with hc | ⟨hle,-⟩
  · exact hc
  · omega

theorem toHexString_of_digits (htext : HexText text digits)
    (hlen : digits.length = numHexDigits numBits) (hvalue : hexDigitsToNat digits = v) (hlt : v < 2 ^ numBits)
    (hcanonical : ∀ c ∈ digits,c = Nat.digitChar ((digitValue c).getD 0)) : text = BitString.toHexString (natToBits numBits v) := by
  rw [BitString.toHexString,length_natToBits,bitsToNat_natToBits hlt,htext.eq_ofList,← natToHexDigits_of_canonical hcanonical,
    hlen,hvalue]

theorem bit_text (h : hexStringToBitset 1 text = .ok v) : text = BitString.toHexString (natToBits 1 v) := by
  obtain ⟨digits,htext,hlen,hvalue,hlt⟩ := hexStringToBitset_eq_ok.mp h
  obtain ⟨c,rfl⟩ := List.length_eq_one_iff.mp (show digits.length = 1 from hlen)
  refine toHexString_of_digits htext hlen hvalue hlt ?_
  obtain ⟨d,hd⟩ := Option.isSome_iff_exists.mp (List.all_eq_true.mp htext.2 c (by simp))
  have hvd : v = d := by simpa [hexDigitsToNat,hd] using hvalue.symm
  simp only [List.mem_singleton,forall_eq,hd,Option.getD_some]
  exact decimal_digit hd (by omega)

theorem byte_text (h : hexStringToBitset 8 text = .ok v) :
    ∃ c d,HexText text [c,d] ∧ digitValue c = some (v / 16) ∧ digitValue d = some (v % 16) := by
  obtain ⟨digits,htext,hlen,hvalue,-⟩ := hexStringToBitset_eq_ok.mp h
  obtain ⟨c,d,rfl⟩ := List.length_eq_two.mp (show digits.length = 2 from hlen)
  obtain ⟨x,hx⟩ := Option.isSome_iff_exists.mp (List.all_eq_true.mp htext.2 c (by simp))
  obtain ⟨y,hy⟩ := Option.isSome_iff_exists.mp (List.all_eq_true.mp htext.2 d (by simp))
  have hy16 := digitValue_lt hy
  have hv : v = x * 16 + y := by simpa [hexDigitsToNat,hx,hy] using hvalue.symm
  exact ⟨c,d,htext,by rw [hx]; congr 1; omega,by rw [hy]; congr 1; omega⟩

theorem decimal_byte (h : hexStringToBitset 8 text = .ok v) (hhigh : v / 16 < 10) (hlow : v % 16 < 10) :
    text = BitString.toHexString (natToBits 8 v) := by
  obtain ⟨digits,htext,hlen,hvalue,hlt⟩ := hexStringToBitset_eq_ok.mp h
  obtain ⟨c,d,htext',hc,hd⟩ := byte_text h
  obtain rfl := htext.unique htext'
  refine toHexString_of_digits htext hlen hvalue hlt ?_
  simp only [List.mem_cons,List.not_mem_nil,or_false,forall_eq_or_imp,forall_eq,hc,hd,Option.getD_some]
  exact ⟨decimal_digit hc hhigh,decimal_digit hd hlow⟩

theorem letter_byte (h : hexStringToBitset 8 text = .ok v) (hhigh : v / 16 < 10) :
    text = BitString.toHexString (natToBits 8 v) ∨
      text = String.ofList ['0','x',Nat.digitChar (v / 16),(Nat.digitChar (v % 16)).toUpper] := by
  obtain ⟨digits,htext,hlen,hvalue,hlt⟩ := hexStringToBitset_eq_ok.mp h
  obtain ⟨c,d,htext',hc,hd⟩ := byte_text h
  obtain rfl := htext.unique htext'
  rcases digitChar_of_digitValue hd with hlower | ⟨-,hupper⟩
  · refine .inl (toHexString_of_digits htext hlen hvalue hlt ?_)
    simp only [List.mem_cons,List.not_mem_nil,or_false,forall_eq_or_imp,forall_eq,hc,hd,Option.getD_some]
    exact ⟨decimal_digit hc hhigh,hlower⟩
  · rw [htext.eq_ofList,decimal_digit hc hhigh,hupper]
    exact .inr rfl

end SonicPins.Packetlib
