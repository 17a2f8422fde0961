import SonicPins.StringEncodings.HexStrings
import SonicPins.Pdpi.ValueCodec

/-! Byte strings of bit sets of any width. A conversion has no result if an `int` leaves its
range, or if the size of its buffer is negative. -/
namespace SonicPins.StringEncodings
open Lib Pdpi Packetlib

variable {byteString : Bytes} {numExtraBytes : Nat}

section Conversions
variable {numBits : Nat}

/-- A constant, so an overflow does not compile. -/
def numBitsToNumBytes (numBits : Nat) : Option Int :=
  if int32 numBits + 7 < 2 ^ 31 then some ((int32 numBits + 7).tdiv 8) else none

/-- The extra bits of a byte are dropped. -/
def anyByteStringToBitset (numBits : Nat) (byteString : Bytes) : BitVec numBits :=
  byteString.foldl (fun bits byte => bits <<< 8 ||| BitVec.ofNat numBits byte.toNat) 0

def cannotFit (numBits : Nat) (byteString : Bytes) : Status :=
  invalidArgument ("cannot fit given byte string of " ++ natText (byteString.length * 8) ++ " bits into " ++
    natText numBits ++ " bits: '" ++ bytesToHexString byteString ++ "'")

/-- A `char` is signed. -/
def extraBits (numBits : Nat) (byte : UInt8) : Int := byte.toInt8.toInt >>> (numBits % 8)

/-- What is done with a string that is as long as the bits or longer. -/
def withoutExtraBytes (numBits : Nat) (byteString : Bytes) (numExtraBytes : Nat) : Option (StatusOr (BitVec numBits)) :=
  if (byteString.take numExtraBytes).any (· ≠ 0) then some (.error (cannotFit numBits byteString))
  else if byteString.length < numExtraBytes then none
  else
    let relevant := byteString.drop numExtraBytes
    if numBits % 8 ≠ 0 then
      match relevant.head? with
      | none => none
      | some byte =>
        if extraBits numBits byte ≠ 0 then some (.error (cannotFit numBits byteString))
        else some (.ok (anyByteStringToBitset numBits relevant))
    else some (.ok (anyByteStringToBitset numBits relevant))

/-- A difference of type `int`. -/
def intDifference (a b : Int) : Option Int := if -2 ^ 31 ≤ a - b ∧ a - b < 2 ^ 31 then some (a - b) else none

def byteStringToBitset (numBits : Nat) (byteString : Bytes) : Option (StatusOr (BitVec numBits)) :=
  if byteString.isEmpty then some (.error (invalidArgument "byte string must be nonempty"))
  else (numBitsToNumBytes numBits).bind fun kNumRelevantBytes =>
    (intDifference (int32 byteString.length) kNumRelevantBytes).bind fun numExtraBytes =>
      if 0 ≤ numExtraBytes then withoutExtraBytes numBits byteString numExtraBytes.toNat
      else some (.ok (anyByteStringToBitset numBits byteString))

/-- The buffer is filled from its end. -/
def writeBytes (bits : BitVec numBits) : Nat → Bytes
  | 0 => []
  | i + 1 => writeBytes (bits >>> 8) i ++ [UInt8.ofNat (bits &&& BitVec.ofNat numBits 0xff).toNat]

def bitsetToPaddedByteString (bits : BitVec numBits) : Option Bytes :=
  (numBitsToNumBytes numBits).bind fun kNumBytes => if kNumBytes < 0 then none else some (writeBytes bits kNumBytes.toNat)

/-- The last byte stays; in a string of zeros no other byte is found. -/
def byteStringToP4runtimeByteString (bytes : Bytes) : Bytes := bytes.drop (min (bytes.findIdx (· ≠ 0)) (bytes.length - 1))

def bitsetToP4RuntimeByteString (bits : BitVec numBits) : Option Bytes :=
  (bitsetToPaddedByteString bits).map byteStringToP4runtimeByteString

end Conversions

section Bits
variable {numBits : Nat}

theorem numBitsToNumBytes_of_lt (h : numBits + 7 < 2 ^ 31) : numBitsToNumBytes numBits = some (((numBits + 7) / 8 : Nat) : Int) := by
  rw [numBitsToNumBytes,int32_of_lt (by omega),if_pos (by omega),Int.tdiv_eq_ediv_of_nonneg (by omega)]
  rfl

private theorem shiftLeft_or_byte (value : Nat) (byte : UInt8) :
    BitVec.ofNat numBits value <<< 8 ||| BitVec.ofNat numBits byte.toNat = BitVec.ofNat numBits (value * 256 + byte.toNat) := by
  have hbyte : byte.toNat < 2 ^ 8 := byte.toNat_lt
  have hsum : value * 256 + byte.toNat = value <<< 8 ||| byte.toNat := by
    rw [← Nat.shiftLeft_add_eq_or_of_lt hbyte,Nat.shiftLeft_eq]
  apply BitVec.eq_of_getLsbD_eq
  intro k hk
  rw [hsum,BitVec.getLsbD_or,BitVec.getLsbD_shiftLeft,BitVec.getLsbD_ofNat,BitVec.getLsbD_ofNat,BitVec.getLsbD_ofNat,
    Nat.testBit_or,Nat.testBit_shiftLeft]
  by_cases hlow : k < 8
  · simp [hk,hlow]
  · simp [hk,hlow,show k - 8 < numBits by omega,Nat.le_of_not_lt hlow]

theorem anyByteStringToBitset_eq (byteString : Bytes) :
    anyByteStringToBitset numBits byteString = BitVec.ofNat numBits (bytesToNat byteString) := by
  induction byteString using List.reverseRecOn with
  | nil => rfl
  | append_singleton bytes byte ih =>
    rw [anyByteStringToBitset,List.foldl_append,← anyByteStringToBitset,ih,bytesToNat_concat]
    exact shiftLeft_or_byte _ _

theorem writeBytes_eq (bits : BitVec numBits) (count : Nat) : writeBytes bits count = natToBytes count bits.toNat := by
  induction count generalizing bits with
  | zero => rfl
  | succ count ih =>
    have hlow : UInt8.ofNat (bits &&& BitVec.ofNat numBits 0xff).toNat = UInt8.ofNat (bits.toNat % 256) := by
      congr 1
      apply Nat.eq_of_testBit_eq
      intro i
      rw [show 256 = 2 ^ 8 from rfl,show 0xff = 2 ^ 8 - 1 from rfl,Nat.testBit_mod_two_pow,BitVec.testBit_toNat,BitVec.getLsbD_and,
        BitVec.getLsbD_ofNat,Nat.testBit_two_pow_sub_one,BitVec.testBit_toNat,Bool.and_comm]
      by_cases hi : i < numBits
      · simp [hi]
      · simp [BitVec.getLsbD_of_ge bits i (by omega)]
    rw [writeBytes,natToBytes,ih,hlow,BitVec.toNat_ushiftRight,Nat.shiftRight_eq_div_pow]

theorem byteStringToP4runtimeByteString_eq (bytes : Bytes) :
    byteStringToP4runtimeByteString bytes = arbitraryToCanonicalByteString bytes := by
  fun_induction arbitraryToCanonicalByteString bytes with
  | case1 => rfl
  | case2 b => simp [byteStringToP4runtimeByteString]
  | case3 c rest ih =>
    rw [← ih]
    simp [byteStringToP4runtimeByteString,List.findIdx_cons]
  | case4 b c rest hb => simp [byteStringToP4runtimeByteString,List.findIdx_cons,hb]

theorem extraBits_eq_zero (numBits : Nat) (byte : UInt8) : extraBits numBits byte = 0 ↔ byte.toNat < 2 ^ (numBits % 8) := by
  have hsigned : byte.toInt8.toInt = if byte.toNat < 128 then (byte.toNat : Int) else byte.toNat - 256 := by
    change byte.toBitVec.toInt = _
    rw [BitVec.toInt_eq_toNat_cond,UInt8.toNat_toBitVec]
    split <;> split <;> omega
  have hlt := byte.toNat_lt
  rw [extraBits,hsigned,Int.shiftRight_eq_div_pow]
  generalize hk : numBits % 8 = k
  have hk8 : k < 8 := by omega
  clear hsigned hk
  interval_cases k <;> split <;> omega

end Bits

section Accepting
variable {numBits : Nat}

/-- A byte that is inspected has bits that the bit set has no room for. -/
def HasExtraBits (numBits : Nat) (byteString : Bytes) (numExtraBytes : Nat) : Prop :=
  (∃ byte ∈ byteString.take numExtraBytes,byte ≠ 0) ∨
    numBits % 8 ≠ 0 ∧ ∃ byte ∈ (byteString.drop numExtraBytes).head?,2 ^ (numBits % 8) ≤ byte.toNat

theorem withoutExtraBytes_eq (numBits : Nat) (h : numExtraBytes < byteString.length) :
    (HasExtraBits numBits byteString numExtraBytes →
      withoutExtraBytes numBits byteString numExtraBytes = some (.error (cannotFit numBits byteString))) ∧
    (¬ HasExtraBits numBits byteString numExtraBytes → withoutExtraBytes numBits byteString numExtraBytes =
      some (.ok (BitVec.ofNat numBits (bytesToNat byteString)))) := by
  obtain ⟨byte,rest,hdrop⟩ : ∃ byte rest,byteString.drop numExtraBytes = byte :: rest :=
    ⟨_,_,List.drop_eq_getElem_cons h⟩
  have hany : ((byteString.take numExtraBytes).any (· ≠ 0)) = true ↔ ∃ byte ∈ byteString.take numExtraBytes,byte ≠ 0 := by
    simp [List.any_eq_true]
  have hextra : extraBits numBits byte ≠ 0 ↔ 2 ^ (numBits % 8) ≤ byte.toNat := by
    rw [ne_eq,extraBits_eq_zero,not_lt]
  simp only [HasExtraBits,hdrop,List.head?_cons,Option.mem_some_iff,exists_eq_left',← hany,← hextra]
  rw [withoutExtraBytes,hdrop]
  by_cases hzeros : ((byteString.take numExtraBytes).any (· ≠ 0)) = true
  · simp only [hzeros,true_or,if_true,true_implies,not_true_eq_false,false_implies,and_self]
  · have hvalue : bytesToNat byteString = bytesToNat (byte :: rest) := by
      have htake : bytesToNat (byteString.take numExtraBytes) = 0 := by
        rw [bytesToNat_eq_zero]
        simpa using hzeros
      rw [← List.take_append_drop numExtraBytes byteString,bytesToNat_append,htake,hdrop]
      simp
    simp only [hzeros,if_neg (Nat.not_lt.mpr h.le),List.head?_cons,anyByteStringToBitset_eq,hvalue]
    by_cases hwhole : numBits % 8 ≠ 0
    · by_cases hbits : extraBits numBits byte ≠ 0
      · simp [hwhole,hbits]
      · simp [hwhole,not_not.mp hbits]
    · simp [not_not.mp hwhole]

theorem HasExtraBits.value_large
    (hle : numExtraBytes + (numBits + 7) / 8 ≤ byteString.length) (h : HasExtraBits numBits byteString numExtraBytes) :
    2 ^ numBits ≤ bytesToNat byteString := by
  have hvalue := bytesToNat_append (byteString.take numExtraBytes) (byteString.drop numExtraBytes)
  rw [List.take_append_drop,List.length_drop] at hvalue
  rcases h with ⟨byte,hbyte,hne⟩ | ⟨hwhole,byte,hbyte,hlarge⟩
  · have hpos : 0 < bytesToNat (byteString.take numExtraBytes) := by
      refine Nat.pos_of_ne_zero fun hzero => hne ?_
      exact bytesToNat_eq_zero.mp hzero byte hbyte
    calc 2 ^ numBits ≤ 256 ^ (byteString.length - numExtraBytes) := by
          rw [pow_256]
          exact Nat.pow_le_pow_right Nat.two_pos (by omega)
      _ ≤ bytesToNat (byteString.take numExtraBytes) * 256 ^ (byteString.length - numExtraBytes) := Nat.le_mul_of_pos_left _ hpos
      _ ≤ bytesToNat byteString := by omega
  · obtain ⟨rest,hdrop⟩ := List.head?_eq_some_iff.mp hbyte
    have hlength : byteString.length - numExtraBytes = rest.length + 1 := by
      rw [← List.length_drop,hdrop,List.length_cons]
    rw [hdrop,bytesToNat_cons] at hvalue
    calc 2 ^ numBits ≤ 2 ^ (numBits % 8) * 256 ^ rest.length := by
          rw [pow_256,← pow_add]
          exact Nat.pow_le_pow_right Nat.two_pos (by omega)
      _ ≤ byte.toNat * 256 ^ rest.length := Nat.mul_le_mul_right _ hlarge
      _ ≤ bytesToNat byteString := by omega

private theorem value_small (hlength : byteString.length = numExtraBytes + (numBits + 7) / 8)
    (h : ¬ HasExtraBits numBits byteString numExtraBytes) : bytesToNat byteString < 2 ^ numBits := by
  obtain ⟨hzeros,hbits⟩ := not_or.mp h
  have hvalue := bytesToNat_append (byteString.take numExtraBytes) (byteString.drop numExtraBytes)
  have htake : bytesToNat (byteString.take numExtraBytes) = 0 := by
    rw [bytesToNat_eq_zero]
    intro byte hbyte
    by_contra hne
    exact hzeros ⟨byte,hbyte,hne⟩
  rw [List.take_append_drop,htake,Nat.zero_mul,Nat.zero_add] at hvalue
  rw [hvalue]
  by_cases hwhole : numBits % 8 = 0
  · have hlt := bytesToNat_lt (byteString.drop numExtraBytes)
    rw [List.length_drop,pow_256,show 8 * (byteString.length - numExtraBytes) = numBits by omega] at hlt
    exact hlt
  · cases hdrop : byteString.drop numExtraBytes with
    | nil => exact Nat.two_pow_pos numBits
    | cons byte rest =>
      have hrest := bytesToNat_lt rest
      have hlen : byteString.length - numExtraBytes = rest.length + 1 := by
        rw [← List.length_drop,hdrop,List.length_cons]
      have hbyte : byte.toNat < 2 ^ (numBits % 8) := by
        by_contra hlarge
        exact hbits ⟨hwhole,byte,by rw [hdrop]; rfl,Nat.le_of_not_lt hlarge⟩
      rw [bytesToNat_cons]
      calc byte.toNat * 256 ^ rest.length + bytesToNat rest < (byte.toNat + 1) * 256 ^ rest.length := by
            rw [Nat.succ_mul]
            omega
        _ ≤ 2 ^ (numBits % 8) * 256 ^ rest.length := Nat.mul_le_mul_right _ hbyte
        _ = 2 ^ numBits := by
            rw [pow_256,← pow_add]
            congr 1
            omega

/-- The three ways to treat a string, by its length as an `int`. -/
theorem byteStringToBitset_cases (hn : 0 < numBits) (hcount : numBits + 7 < 2 ^ 31) (h : byteString ≠ []) :
    (int32 byteString.length - ((numBits + 7) / 8 : Nat) < -2 ^ 31 ∧ byteStringToBitset numBits byteString = none) ∨
    (-2 ^ 31 ≤ int32 byteString.length - ((numBits + 7) / 8 : Nat) ∧ int32 byteString.length < ((numBits + 7) / 8 : Nat) ∧
      byteStringToBitset numBits byteString = some (.ok (BitVec.ofNat numBits (bytesToNat byteString)))) ∨
    (((numBits + 7) / 8 : Nat) ≤ int32 byteString.length ∧ byteStringToBitset numBits byteString =
      withoutExtraBytes numBits byteString (int32 byteString.length - ((numBits + 7) / 8 : Nat)).toNat) := by
  have hbounds := int32_bounds byteString.length
  rw [byteStringToBitset,if_neg (by simpa using h),numBitsToNumBytes_of_lt hcount,Option.bind_some,intDifference]
  rcases lt_or_ge (int32 byteString.length - ((numBits + 7) / 8 : Nat)) (-2 ^ 31) with hlow | hlow
  · rw [if_neg (by omega)]
    exact .inl ⟨hlow,rfl⟩
  · rw [if_pos (by omega),Option.bind_some]
    rcases lt_or_ge (int32 byteString.length) ((numBits + 7) / 8 : Nat) with hshort | hlong
    · refine .inr (.inl ⟨hlow,hshort,?_⟩)
      rw [if_neg (by omega),anyByteStringToBitset_eq]
    · refine .inr (.inr ⟨hlong,?_⟩)
      rw [if_pos (by omega)]

end Accepting

section Conversion
variable {numBits : Nat}

/-- Every bit set is read back from either of its byte strings. -/
def BytesRoundTrip (numBits : Nat) : Prop :=
  ∀ bits : BitVec numBits,
    (∃ text,bitsetToP4RuntimeByteString bits = some text ∧ byteStringToBitset numBits text = some (.ok bits)) ∧
    ∃ text,bitsetToPaddedByteString bits = some text ∧ byteStringToBitset numBits text = some (.ok bits)

/-- What is left of a byte string, a single zero byte if it has zeros only. -/
def withoutLeadingZeros (byteString : Bytes) : Bytes :=
  match byteString.dropWhile (· = 0) with
  | [] => [0]
  | byte :: rest => byte :: rest

/-- The byte strings of the values that fit are read, and no others. -/
def ReadsBytes (numBits : Nat) (byteString : Bytes) : Prop :=
  ∃ result,byteStringToBitset numBits byteString = some result ∧
    ((∃ bits,result = .ok bits) ↔ byteString ≠ [] ∧ bytesToNat byteString < 2 ^ numBits) ∧
    ∀ bits,result = .ok bits → bitsetToP4RuntimeByteString bits = some (withoutLeadingZeros byteString) ∧
      byteStringToP4runtimeByteString byteString = withoutLeadingZeros byteString

/-- The length is an `int`, or what is left of it as one does no harm: the difference is in
range, and the value fits or bytes with extra bits are inspected all the same. -/
def LengthRead (numBits : Nat) (byteString : Bytes) : Prop :=
  byteString.length < 2 ^ 31 ∨
    -2 ^ 31 ≤ int32 byteString.length - ((numBits + 7) / 8 : Nat) ∧
      (bytesToNat byteString < 2 ^ numBits ∨ ((numBits + 7) / 8 : Nat) ≤ int32 byteString.length ∧
        HasExtraBits numBits byteString (int32 byteString.length - ((numBits + 7) / 8 : Nat)).toNat)

theorem bitsetToPaddedByteString_eq (hcount : numBits + 7 < 2 ^ 31) (bits : BitVec numBits) :
    bitsetToPaddedByteString bits = some (natToBytes ((numBits + 7) / 8) bits.toNat) := by
  rw [bitsetToPaddedByteString,numBitsToNumBytes_of_lt hcount,Option.bind_some,if_neg (by omega),writeBytes_eq,Int.toNat_natCast]

theorem canonical_withoutLeadingZeros {bytes : Bytes} (h : bytes ≠ []) :
    arbitraryToCanonicalByteString bytes = withoutLeadingZeros bytes := by
  fun_induction arbitraryToCanonicalByteString bytes with
  | case1 => exact absurd rfl h
  | case2 b =>
    by_cases hb : b = 0
    · subst hb
      rfl
    · simp [withoutLeadingZeros,hb]
  | case3 c rest ih =>
    rw [ih (by simp)]
    simp [withoutLeadingZeros]
  | case4 b c rest hb => simp [withoutLeadingZeros,hb]

private theorem bitsetToP4RuntimeByteString_value (hn : 0 < numBits) (hcount : numBits + 7 < 2 ^ 31)
    (h : byteString ≠ []) (hfits : bytesToNat byteString < 2 ^ numBits) :
    bitsetToP4RuntimeByteString (BitVec.ofNat numBits (bytesToNat byteString)) = some (withoutLeadingZeros byteString) := by
  have hbytes : natToBytes ((numBits + 7) / 8) (bytesToNat byteString) ≠ [] := by
    rw [← List.length_pos_iff,length_natToBytes]
    omega
  rw [bitsetToP4RuntimeByteString,bitsetToPaddedByteString_eq hcount,Option.map_some,byteStringToP4runtimeByteString_eq,
    BitVec.toNat_ofNat,Nat.mod_eq_of_lt hfits,← canonical_withoutLeadingZeros h,(canonical_eq_iff hbytes h).mpr]
  exact bytesToNat_natToBytes (lt_pow_bytes hfits)

theorem byteStringToBitset_fits (hn : 0 < numBits) (hcount : numBits + 7 < 2 ^ 31) (h : byteString ≠ [])
    (hdiff : -2 ^ 31 ≤ int32 byteString.length - ((numBits + 7) / 8 : Nat)) (hfits : bytesToNat byteString < 2 ^ numBits) :
    byteStringToBitset numBits byteString = some (.ok (BitVec.ofNat numBits (bytesToNat byteString))) := by
  have hle := int32_le byteString.length
  rcases byteStringToBitset_cases hn hcount h with ⟨hlow,-⟩ | ⟨-,-,hread⟩ | ⟨hlong,hread⟩
  · omega
  · exact hread
  · rw [hread]
    refine (withoutExtraBytes_eq numBits (by omega)).2 fun hbits => ?_
    exact Nat.not_lt_of_le (hbits.value_large (by omega)) hfits

private theorem readsBytes_of_fits (hn : 0 < numBits) (hcount : numBits + 7 < 2 ^ 31) (h : byteString ≠ [])
    (hdiff : -2 ^ 31 ≤ int32 byteString.length - ((numBits + 7) / 8 : Nat)) (hfits : bytesToNat byteString < 2 ^ numBits) :
    ReadsBytes numBits byteString := by
  refine ⟨_,byteStringToBitset_fits hn hcount h hdiff hfits,⟨fun _ => ⟨h,hfits⟩,fun _ => ⟨_,rfl⟩⟩,?_⟩
  intro bits hbits
  rw [← Except.ok.inj hbits,byteStringToP4runtimeByteString_eq]
  exact ⟨bitsetToP4RuntimeByteString_value hn hcount h hfits,canonical_withoutLeadingZeros h⟩

theorem readsBytes_of_error {status : Status} (hread : byteStringToBitset numBits byteString = some (.error status))
    (hno : ¬ (byteString ≠ [] ∧ bytesToNat byteString < 2 ^ numBits)) : ReadsBytes numBits byteString := by
  refine ⟨_,hread,⟨?_,fun h => absurd h hno⟩,?_⟩
  · rintro ⟨bits,hok⟩
    cases hok
  · intro bits hok
    cases hok

theorem not_readsBytes_of_ok {bits : BitVec numBits}
    (hread : byteStringToBitset numBits byteString = some (.ok bits)) (hlarge : ¬ bytesToNat byteString < 2 ^ numBits) :
    ¬ ReadsBytes numBits byteString := by
  rintro ⟨result,hresult,hok,-⟩
  obtain rfl := Option.some.inj (hread.symm.trans hresult)
  exact hlarge (hok.mp ⟨_,rfl⟩).2

private theorem value_lt_of_short (h : byteString.length < (numBits + 7) / 8) : bytesToNat byteString < 2 ^ numBits := by
  refine (bytesToNat_lt byteString).trans_le ?_
  rw [pow_256]
  exact Nat.pow_le_pow_right Nat.two_pos (by omega)

theorem readsBytes_iff (hn : 0 < numBits) (hcount : numBits + 7 < 2 ^ 31) (byteString : Bytes) :
    ReadsBytes numBits byteString ↔ LengthRead numBits byteString := by
  by_cases hempty : byteString = []
  · subst hempty
    have hread : byteStringToBitset numBits [] = some (.error (invalidArgument "byte string must be nonempty")) := rfl
    exact iff_of_true (readsBytes_of_error hread (by simp)) (.inl (by simp))
  have hle := int32_le byteString.length
  have hint : byteString.length < 2 ^ 31 → int32 byteString.length = byteString.length := int32_of_lt
  by_cases hfits : bytesToNat byteString < 2 ^ numBits ∧ -2 ^ 31 ≤ int32 byteString.length - ((numBits + 7) / 8 : Nat)
  · exact iff_of_true (readsBytes_of_fits hn hcount hempty hfits.2 hfits.1) (.inr ⟨hfits.2,.inl hfits.1⟩)
  rcases byteStringToBitset_cases hn hcount hempty with ⟨hlow,hread⟩ | ⟨hdiff,hshort,hread⟩ | ⟨hlong,hread⟩
  · refine iff_of_false ?_ ?_
    · rintro ⟨result,hresult,-⟩
      rw [hread] at hresult
      cases hresult
    · rintro (hlt | ⟨hge,-⟩)
      · have hsize := hint hlt
        omega
      · omega
  · -- The string is taken to be shorter than the bits, so nothing is inspected.
    have hlarge : ¬ bytesToNat byteString < 2 ^ numBits := fun h => hfits ⟨h,hdiff⟩
    refine iff_of_false (not_readsBytes_of_ok hread hlarge) ?_
    rintro (hlt | ⟨-,hsmall | ⟨hlong,-⟩⟩)
    · have hsize := hint hlt
      exact hlarge (value_lt_of_short (by omega))
    · exact hlarge hsmall
    · omega
  · have hlarge : ¬ bytesToNat byteString < 2 ^ numBits := fun h => hfits ⟨h,by omega⟩
    have hfewer : (int32 byteString.length - ((numBits + 7) / 8 : Nat)).toNat < byteString.length := by omega
    have hextra := withoutExtraBytes_eq numBits hfewer
    by_cases hbits : HasExtraBits numBits byteString (int32 byteString.length - ((numBits + 7) / 8 : Nat)).toNat
    · exact iff_of_true (readsBytes_of_error (hread.trans (hextra.1 hbits)) fun h => hlarge h.2) (.inr ⟨by omega,.inr ⟨hlong,hbits⟩⟩)
    · refine iff_of_false (not_readsBytes_of_ok (hread.trans (hextra.2 hbits)) hlarge) ?_
      rintro (hlt | ⟨-,hsmall | ⟨-,hno⟩⟩)
      · have hsize := hint hlt
        rw [hsize] at hbits
        exact hlarge (value_small (by omega) hbits)
      · exact hlarge hsmall
      · exact hbits hno

private theorem natToBytes_pow (count : Nat) : natToBytes count (256 ^ count) = natToBytes count 0 := by
  induction count with
  | zero => rfl
  | succ count ih => rw [natToBytes,natToBytes,pow_succ,Nat.mul_div_cancel _ (by decide),Nat.mul_mod_left,ih]

private theorem bitsetToPaddedByteString_short (hlarge : 2 ^ 31 ≤ numBits + 7) {text : Bytes}
    (htext : bitsetToPaddedByteString (0 : BitVec numBits) = some text) :
    ∃ bits : BitVec numBits,bits ≠ 0 ∧ bitsetToPaddedByteString bits = some text := by
  obtain ⟨count,hcount,hbuffer⟩ := Option.bind_eq_some_iff.mp htext
  have hshort : 8 * count.toNat < numBits := by
    have hint := int32_eq numBits
    rw [numBitsToNumBytes] at hcount
    generalize int32 numBits = size at hcount hint
    by_cases hsize : size + 7 < 2 ^ 31
    · rw [if_pos hsize] at hcount
      have hdiv := Option.some.inj hcount
      rw [Int.tdiv_eq_ediv,show (8 : Int).sign = 1 from rfl] at hdiv
      split at hint <;> split at hdiv <;> omega
    · rw [if_neg hsize] at hcount
      cases hcount
  have hvalue : (BitVec.twoPow numBits (8 * count.toNat)).toNat = 256 ^ count.toNat := by
    rw [BitVec.toNat_twoPow,Nat.mod_eq_of_lt (Nat.pow_lt_pow_right (by decide) hshort),pow_256]
  refine ⟨BitVec.twoPow numBits (8 * count.toNat),?_,?_⟩
  · intro hzero
    have hpos : 0 < 256 ^ count.toNat := by positivity
    rw [← hvalue,hzero] at hpos
    exact absurd hpos (by simp)
  · rw [bitsetToPaddedByteString,hcount,Option.bind_some,writeBytes_eq,hvalue,natToBytes_pow]
    rw [writeBytes_eq] at hbuffer
    exact hbuffer

theorem bytesRoundTrip_iff (hn : 0 < numBits) : BytesRoundTrip numBits ↔ numBits + 7 < 2 ^ 31 := by
  constructor
  · intro h
    by_contra hlarge
    obtain ⟨-,text,htext,hread⟩ := h 0
    obtain ⟨bits,hne,hbits⟩ := bitsetToPaddedByteString_short (Nat.le_of_not_lt hlarge) htext
    obtain ⟨-,text',htext',hread'⟩ := h bits
    obtain rfl := Option.some.inj (hbits.symm.trans htext')
    exact hne (Except.ok.inj (Option.some.inj (hread'.symm.trans hread)))
  · intro hcount bits
    have hbytes : natToBytes ((numBits + 7) / 8) bits.toNat ≠ [] := by
      rw [← List.length_pos_iff,length_natToBytes]
      omega
    have hvalue := bytesToNat_natToBytes (lt_pow_bytes bits.isLt)
    have hread : ∀ text,text ≠ [] → text.length ≤ (numBits + 7) / 8 → bytesToNat text = bits.toNat →
        byteStringToBitset numBits text = some (.ok bits) := by
      intro text hne hlength hbits
      rw [byteStringToBitset_fits hn hcount hne (by rw [int32_of_lt (by omega)]; omega) (hbits ▸ bits.isLt),hbits,
        BitVec.ofNat_toNat,BitVec.setWidth_eq]
    have hcanonical := isCanonical_canonical hbytes
    refine ⟨⟨_,by rw [bitsetToP4RuntimeByteString,bitsetToPaddedByteString_eq hcount,Option.map_some],?_⟩,
      _,bitsetToPaddedByteString_eq hcount bits,hread _ hbytes (length_natToBytes _ _).le hvalue⟩
    rw [byteStringToP4runtimeByteString_eq]
    apply hread
    · exact List.ne_nil_of_length_pos hcanonical.length_pos
    · rw [hcanonical.length_le (by omega),canonical_value,hvalue]
      exact lt_pow_bytes bits.isLt
    · rw [canonical_value,hvalue]

/-- The conversions agree with each other as far as the numbers of bits and bytes are read as they are. -/
theorem byte_conversions_iff (hn : 0 < numBits) (byteString : Bytes) :
    BytesRoundTrip numBits ∧ ReadsBytes numBits byteString ↔ numBits + 7 < 2 ^ 31 ∧ LengthRead numBits byteString := by
  rw [bytesRoundTrip_iff hn]
  exact and_congr_right fun hcount => readsBytes_iff hn hcount byteString

/-- Nine bits in two bytes, with a zero byte before them. -/
theorem nine_bits_converted : BytesRoundTrip 9 ∧ ReadsBytes 9 [0,1,255] :=
  (byte_conversions_iff (by decide) _).mpr ⟨by norm_num,.inl (by norm_num)⟩

private theorem ones_accepted {count : Nat} (hlow : 2 ^ 31 < count) (hhigh : count < 2 ^ 32 - 1) :
    ¬ ReadsBytes 1 (1 :: List.replicate count 0) := by
  have hlength : (1 :: List.replicate count 0 : Bytes).length = count + 1 := by rw [List.length_cons,List.length_replicate]
  have hvalue : bytesToNat (1 :: List.replicate count 0) = 256 ^ count := by
    rw [bytesToNat_cons,bytesToNat_replicate_zero,List.length_replicate]
    simp
  have hlarge : 2 ≤ 256 ^ count := (by decide : 2 ≤ 256 ^ 1).trans (Nat.pow_le_pow_right (by decide) (by omega))
  rw [readsBytes_iff Nat.one_pos (by norm_num)]
  have hint := int32_eq (count + 1 : Nat)
  rintro (hlt | ⟨-,hsmall | ⟨hlong,-⟩⟩)
  · omega
  · rw [hvalue] at hsmall
    omega
  · rw [hlength] at hlong
    split at hint <;> omega

/-- The length wraps round to a negative number, so a set bit in front of 2 ^ 31 + 99 bytes is lost. -/
theorem one_bit_lost : ¬ (BytesRoundTrip 1 ∧ ReadsBytes 1 (1 :: List.replicate (2 ^ 31 + 99) 0)) := fun h =>
  ones_accepted (by norm_num) (by norm_num) h.2

end Conversion

variable {numBits : Nat}

theorem pdpi_byteStringToBitset (hn : 0 < numBits) (hcount : numBits + 7 < 2 ^ 31)
    (hlength : byteString.length < 2 ^ 31) :
    byteStringToBitset numBits byteString = some (Pdpi.byteStringToBitset numBits byteString) := by
  by_cases hempty : byteString = []
  · subst hempty
    rfl
  have hint : int32 byteString.length = byteString.length := int32_of_lt hlength
  have hcases := byteStringToBitset_cases hn hcount hempty
  rw [hint] at hcases
  rw [Pdpi.byteStringToBitset,if_neg (by simpa using hempty)]
  rcases hcases with ⟨hlow,-⟩ | ⟨-,hshort,hread⟩ | ⟨hlong,hread⟩
  · omega
  · rw [hread,if_neg (by omega)]
  · have hextra : ((byteString.length : Int) - ((numBits + 7) / 8 : Nat)).toNat = byteString.length - (numBits + 7) / 8 := by omega
    obtain ⟨byte,rest,hdrop⟩ : ∃ byte rest,byteString.drop (byteString.length - (numBits + 7) / 8) = byte :: rest :=
      ⟨_,_,List.drop_eq_getElem_cons (by omega)⟩
    have hzeros : ((byteString.take (byteString.length - (numBits + 7) / 8)).any (· ≠ 0)) =
        !isAllZeros (byteString.take (byteString.length - (numBits + 7) / 8)) := by
      simp [isAllZeros,List.all_eq_not_any_not]
    have hbits : extraBits numBits byte ≠ 0 ↔ byte.toNat / 2 ^ (numBits % 8) ≠ 0 := by
      rw [ne_eq,extraBits_eq_zero,Nat.div_ne_zero_iff,not_lt]
      simp
    have hinside : ¬ byteString.length < byteString.length - (numBits + 7) / 8 := by omega
    rw [hread,hextra,if_pos (by omega),withoutExtraBytes,hdrop,hzeros,if_neg hinside]
    simp only [List.head?_cons,List.headD_cons,anyByteStringToBitset_eq,cannotFit,hbits]
    by_cases hzero : (!isAllZeros (byteString.take (byteString.length - (numBits + 7) / 8))) = true
    · rw [if_pos hzero,if_pos hzero]
    · rw [if_neg hzero,if_neg hzero]
      by_cases hwhole : numBits % 8 ≠ 0
      · by_cases hbyte : byte.toNat / 2 ^ (numBits % 8) ≠ 0
        · simp [hwhole,hbyte]
        · simp [hwhole,not_not.mp hbyte]
      · simp [not_not.mp hwhole]

theorem pdpi_toPaddedByteString (hcount : numBits + 7 < 2 ^ 31) (bits : BitVec numBits) :
    bitsetToPaddedByteString bits = some (Pdpi.toPaddedByteString bits) :=
  bitsetToPaddedByteString_eq hcount bits

end SonicPins.StringEncodings
