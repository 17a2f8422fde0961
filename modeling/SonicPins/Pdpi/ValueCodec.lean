import SonicPins.Pdpi.Values

/-! Values between byte strings and their IR form: what each format accepts, and the
byte string that comes back. -/
namespace SonicPins.Pdpi
open Lib

variable {n : Bytes} {numBits v : Nat}

theorem canonical_value (bytes : Bytes) : bytesToNat (arbitraryToCanonicalByteString bytes) = bytesToNat bytes := by
  fun_induction arbitraryToCanonicalByteString bytes with
  | case1 => rfl
  | case2 b => rfl
  | case3 c rest ih => simp [ih,bytesToNat_cons]
  | case4 b c rest hb => rfl

/-- No leading zero, and at least one byte. -/
def IsCanonical (bytes : Bytes) : Prop := ∃ b rest,bytes = b :: rest ∧ (rest = [] ∨ b ≠ 0)

theorem isCanonical_canonical {bytes : Bytes} (h : bytes ≠ []) : IsCanonical (arbitraryToCanonicalByteString bytes) := by
  fun_induction arbitraryToCanonicalByteString bytes with
  | case1 => exact absurd rfl h
  | case2 b => exact ⟨b,[],rfl,.inl rfl⟩
  | case3 c rest ih => exact ih (by simp)
  | case4 b c rest hb => exact ⟨b,c :: rest,rfl,.inr hb⟩

theorem IsCanonical.length_le {bytes : Bytes} (h : IsCanonical bytes) {n : Nat} (hn : 0 < n) :
    bytes.length ≤ n ↔ bytesToNat bytes < 256 ^ n := by
  constructor
  · intro hle
    exact (bytesToNat_lt bytes).trans_le (Nat.pow_le_pow_right (by decide) hle)
  · obtain ⟨b,rest,rfl,hrest⟩ := h
    intro hlt
    rcases hrest with rfl | hb
    · exact hn
    · have hpos : 0 < b.toNat := by
        refine Nat.pos_of_ne_zero fun hzero => hb ?_
        exact UInt8.toNat_inj.mp hzero
      have hle : 256 ^ rest.length ≤ bytesToNat (b :: rest) := by
        rw [bytesToNat_cons]
        exact (Nat.le_mul_of_pos_left _ hpos).trans (Nat.le_add_right _ _)
      exact (Nat.pow_lt_pow_iff_right (by decide)).mp (hle.trans_lt hlt)

theorem IsCanonical.length_pos {bytes : Bytes} (h : IsCanonical bytes) : 0 < bytes.length := by
  obtain ⟨b,rest,rfl,-⟩ := h
  simp

theorem IsCanonical.eq_of_value {a b : Bytes} (ha : IsCanonical a) (hb : IsCanonical b) (h : bytesToNat a = bytesToNat b) :
    a = b := by
  have hlength : a.length = b.length := by
    apply Nat.le_antisymm
    · exact (ha.length_le hb.length_pos).mpr (h ▸ bytesToNat_lt b)
    · exact (hb.length_le ha.length_pos).mpr (h ▸ bytesToNat_lt a)
  calc
    a = natToBytes b.length (bytesToNat b) := eq_natToBytes hlength h
    _ = b := natToBytes_bytesToNat b

theorem canonical_eq_iff {a b : Bytes} (ha : a ≠ []) (hb : b ≠ []) :
    arbitraryToCanonicalByteString a = arbitraryToCanonicalByteString b ↔ bytesToNat a = bytesToNat b := by
  constructor
  · intro h
    rw [← canonical_value a,h,canonical_value b]
  · intro h
    refine (isCanonical_canonical ha).eq_of_value (isCanonical_canonical hb) ?_
    rw [canonical_value,canonical_value,h]

private theorem dropWhile_zero_value (bytes : Bytes) : bytesToNat (bytes.dropWhile (· = 0)) = bytesToNat bytes := by
  induction bytes with
  | nil => rfl
  | cons b bytes ih =>
    by_cases hb : b = 0
    · subst hb
      simpa [bytesToNat_cons] using ih
    · simp [hb]

private theorem getBitwidthOfByteString_le {bytes : Bytes} (h : bytes ≠ []) {w : Nat} (hw : 1 ≤ w) :
    getBitwidthOfByteString bytes ≤ w ↔ bytesToNat bytes < 2 ^ w := by
  have hvalue := dropWhile_zero_value bytes
  unfold getBitwidthOfByteString
  cases hdrop : bytes.dropWhile (· = 0) with
  | nil =>
    rw [hdrop,bytesToNat_nil] at hvalue
    simp [h,hw,← hvalue]
  | cons c rest =>
    have hc : c ≠ 0 := by
      have hhead := List.head?_dropWhile_not (· = (0 : UInt8)) bytes
      rw [hdrop] at hhead
      simpa using hhead
    have hpos : c.toNat ≠ 0 := fun hzero => hc (UInt8.toNat_inj.mp hzero)
    have hrest := bytesToNat_lt rest
    rw [hdrop,bytesToNat_cons] at hvalue
    rw [pow_256] at hrest hvalue
    simp only [← hvalue]
    by_cases hlong : 8 * rest.length ≤ w
    · have hsplit : 2 ^ w = 2 ^ (w - 8 * rest.length) * 2 ^ (8 * rest.length) := by
        rw [← pow_add]
        congr 1
        omega
      have hdiv : (c.toNat * 2 ^ (8 * rest.length) + bytesToNat rest) / 2 ^ (8 * rest.length) = c.toNat := by
        rw [Nat.mul_comm,Nat.mul_add_div (by positivity),Nat.div_eq_of_lt hrest,Nat.add_zero]
      have hlog := Nat.log2_lt hpos (k := w - 8 * rest.length)
      rw [hsplit,← Nat.div_lt_iff_lt_mul (by positivity),hdiv,← hlog]
      omega
    · have hbig : 2 ^ w ≤ c.toNat * 2 ^ (8 * rest.length) := by
        calc
          2 ^ w ≤ 2 ^ (8 * rest.length) := Nat.pow_le_pow_right (by decide) (by omega)
          _ ≤ c.toNat * 2 ^ (8 * rest.length) := Nat.le_mul_of_pos_left _ (by omega)
      omega

theorem arbitraryToNormalizedByteString_eq_ok {bytes : Bytes} (h : bytes ≠ []) {w : Nat} (hw : 1 ≤ w) :
    arbitraryToNormalizedByteString bytes w = .ok n ↔
      bytesToNat bytes < 2 ^ w ∧ n = natToBytes ((w + 7) / 8) (bytesToNat bytes) := by
  have hcanonical := isCanonical_canonical h
  have hfits := getBitwidthOfByteString_le (List.ne_nil_of_length_pos hcanonical.length_pos) hw
  rw [canonical_value] at hfits
  unfold arbitraryToNormalizedByteString
  rw [if_neg (by simpa using h)]
  simp only
  by_cases hvalue : bytesToNat bytes < 2 ^ w
  · rw [if_neg (Nat.not_lt.mpr (hfits.mpr hvalue))]
    have hlength : (arbitraryToCanonicalByteString bytes).length ≤ (w + 7) / 8 := by
      refine (hcanonical.length_le (by omega)).mpr ?_
      rw [canonical_value]
      exact lt_pow_bytes hvalue
    have hpadded : List.replicate ((w + 7) / 8 - (arbitraryToCanonicalByteString bytes).length) 0 ++
        arbitraryToCanonicalByteString bytes = natToBytes ((w + 7) / 8) (bytesToNat bytes) := by
      refine eq_natToBytes ?_ ?_
      · rw [List.length_append,List.length_replicate]
        omega
      · rw [bytesToNat_zeros_append,canonical_value]
    rw [hpadded,Except.ok.injEq]
    simp [hvalue,eq_comm]
  · rw [if_pos (Nat.lt_of_not_le (hvalue ∘ hfits.mp))]
    simp [hvalue]

theorem normalized_bytes {bytes : Bytes} {w : Nat} (hw : 1 ≤ w) (h : arbitraryToNormalizedByteString bytes w = .ok n) :
    ∃ v,v < 2 ^ w ∧ n = natToBytes ((w + 7) / 8) v := by
  cases bytes with
  | nil => cases h
  | cons b rest => exact ⟨_,(arbitraryToNormalizedByteString_eq_ok (by simp) hw).mp h⟩

theorem byteStringToBitset_eq_ok (hbits : numBits % 8 = 0) {bytes : Bytes} (h : bytes ≠ [])
    {a : BitVec numBits} : byteStringToBitset numBits bytes = .ok a ↔
      bytesToNat bytes < 2 ^ numBits ∧ a = BitVec.ofNat numBits (bytesToNat bytes) := by
  have hpow : 2 ^ numBits = 256 ^ ((numBits + 7) / 8) := by
    rw [pow_256]
    congr 1
    omega
  unfold byteStringToBitset
  rw [if_neg (by simpa using h)]
  simp only
  by_cases hlong : (numBits + 7) / 8 ≤ bytes.length
  · have hvalue := bytesToNat_append (bytes.take (bytes.length - (numBits + 7) / 8)) (bytes.drop (bytes.length - (numBits + 7) / 8))
    rw [List.take_append_drop,List.length_drop,Nat.sub_sub_self hlong,← hpow] at hvalue
    have hdrop : bytesToNat (bytes.drop (bytes.length - (numBits + 7) / 8)) < 2 ^ numBits := by
      have hlt := bytesToNat_lt (bytes.drop (bytes.length - (numBits + 7) / 8))
      rwa [List.length_drop,Nat.sub_sub_self hlong,← hpow] at hlt
    have hzeros : isAllZeros (bytes.take (bytes.length - (numBits + 7) / 8)) = true ↔ bytesToNat bytes < 2 ^ numBits := by
      have hall : isAllZeros (bytes.take (bytes.length - (numBits + 7) / 8)) = true ↔
          bytesToNat (bytes.take (bytes.length - (numBits + 7) / 8)) = 0 := by
        rw [bytesToNat_eq_zero]
        simp [isAllZeros]
      rw [hall,hvalue]
      constructor
      · intro hzero
        simpa [hzero] using hdrop
      · intro hlt
        by_contra hne
        have hle := Nat.le_mul_of_pos_left (2 ^ numBits) (Nat.pos_of_ne_zero hne)
        omega
    rw [if_pos hlong]
    by_cases hfits : bytesToNat bytes < 2 ^ numBits
    · have htake : bytesToNat bytes = bytesToNat (bytes.drop (bytes.length - (numBits + 7) / 8)) := by
        have hall := hzeros.mpr hfits
        have hzero : bytesToNat (bytes.take (bytes.length - (numBits + 7) / 8)) = 0 := by
          rw [bytesToNat_eq_zero]
          simpa [isAllZeros] using hall
        simpa [hzero] using hvalue
      rw [if_neg (by simp [hzeros.mpr hfits]),if_neg (by simp [hbits])]
      rw [← htake,Except.ok.injEq]
      simp [hfits,eq_comm]
    · rw [if_pos (by simpa [hfits] using hzeros)]
      simp [hfits]
  · rw [if_neg hlong]
    have hfits : bytesToNat bytes < 2 ^ numBits := by
      rw [hpow]
      exact (bytesToNat_lt bytes).trans_le (Nat.pow_le_pow_right (by decide) (by omega))
    simp [hfits,eq_comm]

theorem ofNat_toPaddedByteString (a : BitVec numBits) : BitVec.ofNat numBits (bytesToNat (toPaddedByteString a)) = a := by
  rw [toPaddedByteString,bytesToNat_natToBytes (lt_pow_bytes a.isLt)]
  simp

theorem toPaddedByteString_ofNat (hv : v < 2 ^ numBits) :
    toPaddedByteString (BitVec.ofNat numBits v) = natToBytes ((numBits + 7) / 8) v := by
  rw [toPaddedByteString,BitVec.toNat_ofNat,Nat.mod_eq_of_lt hv]

theorem parseBytes_map {parse : List Char → Option UInt8} {print : UInt8 → List Char} (h : ∀ b,parse (print b) = some b)
    (bytes : Bytes) : parseBytes parse (bytes.map print) = some bytes := by
  induction bytes with
  | nil => rfl
  | cons b bytes ih => simp [parseBytes,h b,ih]

theorem high_lt (b : UInt8) : b.toNat / 16 < 16 := by
  have hb := b.toNat_lt
  omega

theorem low_lt (b : UInt8) : b.toNat % 16 < 16 := Nat.mod_lt _ (by decide)

theorem forall_mem_pair {P : Char → Prop} (h : ∀ d < 16,P (Nat.digitChar d)) (b : UInt8) : ∀ c ∈ hexDigitPair b,P c := by
  intro c hc
  simp only [hexDigitPair,List.mem_cons,List.not_mem_nil,or_false] at hc
  obtain rfl | rfl := hc
  · exact h _ (high_lt b)
  · exact h _ (low_lt b)

theorem digits_of_byte (b : UInt8) : b.toNat / 16 * 16 + b.toNat % 16 = b.toNat := by
  rw [Nat.mul_comm]
  exact Nat.div_add_mod _ _

private theorem parseByteInBase16_pair (b : UInt8) : parseByteInBase16 (hexDigitPair b) = some b := by
  have hread : readNumeral 16 (hexDigitPair b) = some b.toNat := by
    simp [readNumeral,hexDigitPair,digitValue_digitChar _ (high_lt b),digitValue_digitChar _ (low_lt b),high_lt b,low_lt b,
      digits_of_byte b]
  rw [parseByteInBase16,hread]
  simp [hexDigitPair]

private theorem parseByteInBase10_numeral (b : UInt8) : parseByteInBase10 (numeral 10 b.toNat) = some b := by
  have hb := b.toNat_lt
  have hlength : (numeral 10 b.toNat).length ≤ 3 := by
    unfold numeral
    split_ifs with hzero
    · decide
    · rw [List.length_map,List.length_reverse,Nat.digits_length_le_iff (by decide)]
      omega
  rw [parseByteInBase10,if_neg (Nat.not_lt.mpr hlength),readNumeral_numeral (by decide) (by decide)]
  simp only [Option.bind_some]
  rw [if_neg (by omega),UInt8.ofNat_toNat]

private theorem colon_notMem_pair (b : UInt8) : ':' ∉ hexDigitPair b := by
  intro hmem
  exact forall_mem_pair (P := (· ≠ ':')) (by decide) b ':' hmem rfl

private theorem dot_notMem_numeral (b : UInt8) : '.' ∉ numeral 10 b.toNat := by
  intro hmem
  obtain ⟨d,hd,heq⟩ := digitValue_of_mem_numeral (by decide) (by decide) hmem
  have hdigit : ∀ d < 10,Nat.digitChar d ≠ '.' := by decide
  exact hdigit d hd heq.symm

theorem MacAddress.ofString_toString (a : BitVec 48) : MacAddress.ofString (MacAddress.toString a) = .ok a := by
  have hlength : (toPaddedByteString a).length = 6 := by simp [toPaddedByteString]
  have hwords : splitChars ':' (MacAddress.toString a).toList = (toPaddedByteString a).map hexDigitPair := by
    rw [MacAddress.toString,String.toList_ofList]
    refine splitChars_joinChars (by simp [← List.length_pos_iff,hlength]) fun w hw => ?_
    obtain ⟨b,-,rfl⟩ := List.mem_map.mp hw
    exact colon_notMem_pair b
  unfold MacAddress.ofString
  simp only [hwords,List.length_map,hlength,ne_eq,not_true_eq_false,if_false,parseBytes_map parseByteInBase16_pair,
    ofNat_toPaddedByteString]

theorem Ipv4Address.ofString_toString (a : BitVec 32) : Ipv4Address.ofString (Ipv4Address.toString a) = .ok a := by
  have hlength : (toPaddedByteString a).length = 4 := by simp [toPaddedByteString]
  have hwords : splitChars '.' (Ipv4Address.toString a).toList = (toPaddedByteString a).map fun b => numeral 10 b.toNat := by
    rw [Ipv4Address.toString,String.toList_ofList]
    refine splitChars_joinChars (by simp [← List.length_pos_iff,hlength]) fun w hw => ?_
    obtain ⟨b,-,rfl⟩ := List.mem_map.mp hw
    exact dot_notMem_numeral b
  have hparse : parseBytes parseByteInBase10 ((toPaddedByteString a).map fun b => numeral 10 b.toNat) =
      some (toPaddedByteString a) := parseBytes_map parseByteInBase10_numeral _
  unfold Ipv4Address.ofString
  simp only [hwords,List.length_map,hlength,ne_eq,not_true_eq_false,if_false,hparse,ofNat_toPaddedByteString]

theorem shiftRight_eq_zero_iff {w : Nat} (hv : v < 2 ^ 128) : BitVec.ofNat 128 v >>> w = 0 ↔ v < 2 ^ w := by
  rw [← BitVec.toNat_inj,BitVec.toNat_ushiftRight,BitVec.toNat_ofNat,Nat.mod_eq_of_lt hv,Nat.shiftRight_eq_div_pow]
  simp [Nat.div_eq_zero_iff]

private theorem shiftLeft_shiftRight {w : Nat} (hw : w ≤ 128) (hv : v < 2 ^ w) :
    ((BitVec.ofNat 128 v <<< (128 - w)) >>> (128 - w)).toNat = v := by
  have hv128 : v < 2 ^ 128 := hv.trans_le (Nat.pow_le_pow_right (by decide) hw)
  have hproduct : v * 2 ^ (128 - w) < 2 ^ 128 := by
    calc
      v * 2 ^ (128 - w) < 2 ^ w * 2 ^ (128 - w) := Nat.mul_lt_mul_of_pos_right hv (by positivity)
      _ = 2 ^ 128 := by
        rw [← pow_add]
        congr 1
        omega
  rw [BitVec.toNat_ushiftRight,BitVec.toNat_shiftLeft,BitVec.toNat_ofNat,Nat.mod_eq_of_lt hv128,Nat.shiftLeft_eq,
    Nat.mod_eq_of_lt hproduct,Nat.shiftRight_eq_div_pow,Nat.mul_div_cancel _ (by positivity)]

private theorem minimumMaskLength_shiftLeft (a : BitVec 128) {w : Nat} (hw : w ≤ 128) :
    Ipv6Address.minimumMaskLength (a <<< (128 - w)) ≤ w := by
  unfold Ipv6Address.minimumMaskLength
  cases hfind : (List.range 128).find? fun i => (a <<< (128 - w)).getLsbD i with
  | none => exact Nat.zero_le w
  | some i =>
    have hbit := List.find?_some hfind
    simp only [BitVec.getLsbD_shiftLeft,Bool.and_eq_true,Bool.not_eq_true',decide_eq_true_eq,decide_eq_false_iff_not] at hbit
    simp only
    omega

def hexDigits (bytes : Bytes) : List Char := bytes.flatMap hexDigitPair

@[simp] theorem length_hexDigits (bytes : Bytes) : (hexDigits bytes).length = 2 * bytes.length := by
  induction bytes with
  | nil => rfl
  | cons b bytes ih =>
    simp only [hexDigits,List.flatMap_cons,List.length_append,List.length_cons] at ih ⊢
    rw [ih]
    simp [hexDigitPair]
    omega

private theorem hexCharsToBytes_pair (b : UInt8) : (digitValue (Nat.digitChar (b.toNat / 16))).getD 0 * 16 +
    (digitValue (Nat.digitChar (b.toNat % 16))).getD 0 = b.toNat := by
  rw [digitValue_digitChar _ (high_lt b),digitValue_digitChar _ (low_lt b)]
  exact digits_of_byte b

theorem hexCharsToBytes_hexDigits (bytes : Bytes) : hexCharsToBytes (hexDigits bytes) = bytes := by
  induction bytes with
  | nil => rfl
  | cons b bytes ih =>
    have hcons : hexDigits (b :: bytes) = Nat.digitChar (b.toNat / 16) :: Nat.digitChar (b.toNat % 16) :: hexDigits bytes := rfl
    rw [hcons,hexCharsToBytes,hexCharsToBytes_pair b,UInt8.ofNat_toNat,ih]

private theorem isLowerHex_pair (b : UInt8) : ∀ c ∈ hexDigitPair b,isLowerHex c = true := forall_mem_pair (by decide) b

theorem isLowerHex_hexDigits (bytes : Bytes) : ∀ c ∈ hexDigits bytes,isLowerHex c = true := by
  intro c hc
  obtain ⟨b,-,hc⟩ := List.mem_flatMap.mp hc
  exact isLowerHex_pair b c hc

private theorem head_hexDigits {b : UInt8} (hb : b.toNat < 16) (bytes : Bytes) :
    hexDigits (b :: bytes) = '0' :: (hexDigits (b :: bytes)).drop 1 := by
  have hcons : hexDigits (b :: bytes) = Nat.digitChar (b.toNat / 16) :: Nat.digitChar (b.toNat % 16) :: hexDigits bytes := rfl
  rw [hcons,Nat.div_eq_of_lt hb]
  rfl

private theorem head_natToBytes_lt {w : Nat} (hv : v < 2 ^ w) (hhalf : 1 ≤ w % 8 ∧ w % 8 ≤ 4) :
    ∃ b rest,natToBytes ((w + 7) / 8) v = b :: rest ∧ b.toNat < 16 := by
  have hlength : (natToBytes ((w + 7) / 8) v).length = w / 8 + 1 := by
    rw [length_natToBytes]
    omega
  have hvalue := bytesToNat_natToBytes (lt_pow_bytes hv)
  cases hbytes : natToBytes ((w + 7) / 8) v with
  | nil => simp [hbytes] at hlength
  | cons b rest =>
    refine ⟨b,rest,rfl,?_⟩
    rw [hbytes,List.length_cons,Nat.add_right_cancel_iff] at hlength
    rw [hbytes,bytesToNat_cons,hlength] at hvalue
    have hpow : 2 ^ w ≤ 16 * 256 ^ (w / 8) := by
      calc
        2 ^ w ≤ 2 ^ (4 + 8 * (w / 8)) := Nat.pow_le_pow_right (by decide) (by omega)
        _ = 16 * 256 ^ (w / 8) := by rw [pow_256,pow_add]; rfl
    by_contra hbig
    have hle := Nat.mul_le_mul_right (256 ^ (w / 8)) (Nat.le_of_not_lt hbig)
    omega

theorem isLowerHex.ascii {c : Char} (h : isLowerHex c = true) : c ≤ '\x7f' := by
  simp only [isLowerHex,Bool.or_eq_true,Bool.and_eq_true,decide_eq_true_eq] at h
  rcases h with h | h
  · exact Char.le_trans h.2 (by decide)
  · exact Char.le_trans h.2 (by decide)

/-- The digits of a hexadecimal value: all of them, or without the upper half of the first byte. -/
def hexText (bitwidth v : Nat) : List Char :=
  let hex := hexDigits (natToBytes ((bitwidth + 7) / 8) v)
  if hexCharCount bitwidth ≠ hex.length then hex.drop 1 else hex

theorem hexCharCount_cases (w : Nat) : (1 ≤ w % 8 ∧ w % 8 ≤ 4 ∧ 2 * ((w + 7) / 8) = hexCharCount w + 1) ∨
    2 * ((w + 7) / 8) = hexCharCount w := by
  unfold hexCharCount
  split_ifs <;> omega

theorem length_hexText (w v : Nat) : (hexText w v).length = hexCharCount w := by
  unfold hexText
  simp only [length_hexDigits,length_natToBytes]
  split_ifs with hne
  · simp only [List.length_drop,length_hexDigits,length_natToBytes]
    rcases hexCharCount_cases w with ⟨-,-,h⟩ | h <;> omega
  · simp only [length_hexDigits,length_natToBytes]
    omega

theorem isLowerHex_hexText (w v : Nat) : ∀ c ∈ hexText w v,isLowerHex c = true := by
  intro c hc
  unfold hexText at hc
  simp only at hc
  split_ifs at hc
  · exact isLowerHex_hexDigits _ c (List.mem_of_mem_drop hc)
  · exact isLowerHex_hexDigits _ c hc

private theorem evened_hexText {w : Nat} (hv : v < 2 ^ w) :
    (if (hexText w v).length % 2 = 0 then hexText w v else '0' :: hexText w v) =
      hexDigits (natToBytes ((w + 7) / 8) v) := by
  rw [length_hexText]
  unfold hexText
  simp only [length_hexDigits,length_natToBytes]
  rcases hexCharCount_cases w with ⟨hpos,hhalf,hcount⟩ | hcount
  · obtain ⟨b,rest,hbytes,hb⟩ := head_natToBytes_lt hv ⟨hpos,hhalf⟩
    rw [if_neg (by omega),if_pos (by omega),hbytes]
    exact (head_hexDigits hb rest).symm
  · rw [if_pos (by omega),if_neg (by omega)]

section IrValues
variable [InetText]

private theorem hexStr_normalized {w : Nat} (hw : 1 ≤ w) (hv : v < 2 ^ w) :
    irValueToNormalizedByteString (.hexStr (String.ofList ('0' :: 'x' :: hexText w v))) w =
      .ok (natToBytes ((w + 7) / 8) v) := by
  have hstrip : strDropPrefix "0x" (String.ofList ('0' :: 'x' :: hexText w v)) = some (String.ofList (hexText w v)) := by
    simp [strDropPrefix,dropPrefixChars]
  have hutf8 : (utf8 (String.ofList (hexText w v))).length = hexCharCount w := by
    rw [length_utf8_ofList fun c hc => isLowerHex.ascii (isLowerHex_hexText w v c hc),length_hexText]
  have hall : (hexText w v).all isLowerHex = true := List.all_eq_true.mpr (isLowerHex_hexText w v)
  have hvalue := bytesToNat_natToBytes (lt_pow_bytes hv)
  have hne : natToBytes ((w + 7) / 8) v ≠ [] := by
    refine List.ne_nil_of_length_pos ?_
    rw [length_natToBytes]
    omega
  unfold irValueToNormalizedByteString
  simp only [hstrip,hutf8,hall,ne_eq,not_true_eq_false,if_false,Bool.not_true,Bool.false_eq_true,String.toList_ofList]
  rw [evened_hexText hv,hexCharsToBytes_hexDigits,arbitraryToNormalizedByteString_eq_ok hne hw,hvalue]
  exact ⟨hv,rfl⟩

/-- The numeric formats with the widths they come with. -/
structure Format.Fits (format : Format) (w : Nat) : Prop where
  numeric : format ≠ .string
  hex : format = .hexString → 1 ≤ w
  mac : format = .mac → w = 48
  ipv4 : format = .ipv4 → w = 32
  ipv6 : format = .ipv6 → w ≤ 128

/-- The bytes that a value of the format comes back with. -/
def Format.byteCount (format : Format) (w : Nat) : Nat := if format = .ipv6 then 16 else (w + 7) / 8

/-- Parsing the text of an address gives the address. -/
def InetText.Inverse : Prop := ∀ a,InetText.pton (InetText.ntop a) = some a

variable {format : Format} {w : Nat} {bytes : Bytes}

theorem mac_of_bytes {v : IrValue} (h : bytes ≠ []) : arbitraryByteStringToIrValue .mac w bytes = .ok v ↔
    bytesToNat bytes < 2 ^ 48 ∧ v = .mac (MacAddress.toString (BitVec.ofNat 48 (bytesToNat bytes))) := by
  unfold arbitraryByteStringToIrValue
  rw [if_neg (by simpa using h)]
  simp only [map_eq_ok,byteStringToBitset_eq_ok (show 48 % 8 = 0 from rfl) h]
  exact ⟨fun ⟨_,⟨hv,rfl⟩,heq⟩ => ⟨hv,heq.symm⟩,fun ⟨hv,heq⟩ => ⟨_,⟨hv,rfl⟩,heq.symm⟩⟩

theorem ipv4_of_bytes {v : IrValue} (h : bytes ≠ []) : arbitraryByteStringToIrValue .ipv4 w bytes = .ok v ↔
    bytesToNat bytes < 2 ^ 32 ∧ v = .ipv4 (Ipv4Address.toString (BitVec.ofNat 32 (bytesToNat bytes))) := by
  unfold arbitraryByteStringToIrValue
  rw [if_neg (by simpa using h)]
  simp only [map_eq_ok,byteStringToBitset_eq_ok (show 32 % 8 = 0 from rfl) h]
  exact ⟨fun ⟨_,⟨hv,rfl⟩,heq⟩ => ⟨hv,heq.symm⟩,fun ⟨hv,heq⟩ => ⟨_,⟨hv,rfl⟩,heq.symm⟩⟩

theorem ipv6_of_bytes {v : IrValue} (h : bytes ≠ []) (hw : w ≤ 128) : arbitraryByteStringToIrValue .ipv6 w bytes = .ok v ↔
    bytesToNat bytes < 2 ^ w ∧ v = .ipv6 (Ipv6Address.toString (BitVec.ofNat 128 (bytesToNat bytes) <<< (128 - w))) := by
  unfold arbitraryByteStringToIrValue
  rw [if_neg (by simpa using h)]
  simp only [bind_eq_ok,byteStringToBitset_eq_ok (show 128 % 8 = 0 from rfl) h]
  constructor
  · rintro ⟨a,⟨hv,rfl⟩,heq⟩
    split_ifs at heq with hshift
    · cases heq
      exact ⟨(shiftRight_eq_zero_iff hv).mp (not_not.mp hshift),rfl⟩
  · rintro ⟨hv,rfl⟩
    have hv128 : bytesToNat bytes < 2 ^ 128 := hv.trans_le (Nat.pow_le_pow_right (by decide) hw)
    refine ⟨_,⟨hv128,rfl⟩,?_⟩
    rw [if_neg (not_not.mpr ((shiftRight_eq_zero_iff hv128).mpr hv))]

theorem hex_of_bytes {v : IrValue} (h : bytes ≠ []) (hw : 1 ≤ w) : arbitraryByteStringToIrValue .hexString w bytes = .ok v ↔
    bytesToNat bytes < 2 ^ w ∧ v = .hexStr (String.ofList ('0' :: 'x' :: hexText w (bytesToNat bytes))) := by
  unfold arbitraryByteStringToIrValue
  rw [if_neg (by simpa using h)]
  simp only [bind_eq_ok,arbitraryToNormalizedByteString_eq_ok h hw]
  constructor
  · rintro ⟨n,⟨hv,rfl⟩,heq⟩
    cases heq
    exact ⟨hv,by simp [hexText,bytesToHexString,hexDigits]⟩
  · rintro ⟨hv,rfl⟩
    exact ⟨_,⟨hv,rfl⟩,by simp [hexText,bytesToHexString,hexDigits]⟩

theorem arbitraryByteStringToIrValue_ok_iff (hfits : format.Fits w) (h : bytes ≠ []) :
    (∃ v,arbitraryByteStringToIrValue format w bytes = .ok v) ↔ bytesToNat bytes < 2 ^ w := by
  cases format with
  | hexString => simp only [hex_of_bytes h (hfits.hex rfl),exists_and_left,exists_eq,and_true]
  | mac =>
    obtain rfl := hfits.mac rfl
    simp only [mac_of_bytes h,exists_and_left,exists_eq,and_true]
  | ipv4 =>
    obtain rfl := hfits.ipv4 rfl
    simp only [ipv4_of_bytes h,exists_and_left,exists_eq,and_true]
  | ipv6 => simp only [ipv6_of_bytes h (hfits.ipv6 rfl),exists_and_left,exists_eq,and_true]
  | string => exact absurd rfl hfits.numeric

theorem irValueToNormalizedByteString_of_bytes (hinet : InetText.Inverse) (hfits : format.Fits w) (h : bytes ≠ []) {v : IrValue}
    (hv : arbitraryByteStringToIrValue format w bytes = .ok v) :
    irValueToNormalizedByteString v w = .ok (natToBytes (format.byteCount w) (bytesToNat bytes)) := by
  cases format with
  | hexString =>
    obtain ⟨hvalue,rfl⟩ := (hex_of_bytes h (hfits.hex rfl)).mp hv
    exact hexStr_normalized (hfits.hex rfl) hvalue
  | mac =>
    obtain ⟨hvalue,rfl⟩ := (mac_of_bytes h).mp hv
    obtain rfl := hfits.mac rfl
    simp only [irValueToNormalizedByteString,map_eq_ok]
    refine ⟨_,MacAddress.ofString_toString _,?_⟩
    rw [toPaddedByteString_ofNat hvalue,Format.byteCount,if_neg (by decide)]
  | ipv4 =>
    obtain ⟨hvalue,rfl⟩ := (ipv4_of_bytes h).mp hv
    obtain rfl := hfits.ipv4 rfl
    simp only [irValueToNormalizedByteString,map_eq_ok]
    refine ⟨_,Ipv4Address.ofString_toString _,?_⟩
    rw [toPaddedByteString_ofNat hvalue,Format.byteCount,if_neg (by decide)]
  | ipv6 =>
    obtain ⟨hvalue,rfl⟩ := (ipv6_of_bytes h (hfits.ipv6 rfl)).mp hv
    have hparse : Ipv6Address.ofString (Ipv6Address.toString (BitVec.ofNat 128 (bytesToNat bytes) <<< (128 - w))) =
        .ok (BitVec.ofNat 128 (bytesToNat bytes) <<< (128 - w)) := by
      simp [Ipv6Address.ofString,Ipv6Address.toString,hinet _]
    refine bind_eq_ok.mpr ⟨_,hparse,?_⟩
    rw [if_neg (Nat.not_lt.mpr (minimumMaskLength_shiftLeft _ (hfits.ipv6 rfl))),toPaddedByteString,
      shiftLeft_shiftRight (hfits.ipv6 rfl) hvalue]
    rfl
  | string => exact absurd rfl hfits.numeric

private theorem irValueToNormalizedByteString_bytes (hfits : format.Fits w) {text : String}
    (h : irValueToNormalizedByteString (formattedStringToIrValue text format) w = .ok n) :
    ∃ v,v < 2 ^ w ∧ n = natToBytes (format.byteCount w) v := by
  cases format with
  | hexString =>
    unfold formattedStringToIrValue irValueToNormalizedByteString at h
    simp only at h
    split at h
    · cases h
    · rename_i stripped hstrip
      split_ifs at h
      · exact normalized_bytes (hfits.hex rfl) h
      · exact normalized_bytes (hfits.hex rfl) h
  | mac =>
    obtain ⟨a,-,rfl⟩ := map_eq_ok.mp h
    obtain rfl := hfits.mac rfl
    exact ⟨a.toNat,a.isLt,rfl⟩
  | ipv4 =>
    obtain ⟨a,-,rfl⟩ := map_eq_ok.mp h
    obtain rfl := hfits.ipv4 rfl
    exact ⟨a.toNat,a.isLt,rfl⟩
  | ipv6 =>
    obtain ⟨a,-,h⟩ := bind_eq_ok.mp h
    split_ifs at h
    refine ⟨(a >>> (128 - w)).toNat,?_,(Except.ok.inj h).symm⟩
    have hw := hfits.ipv6 rfl
    rw [BitVec.toNat_ushiftRight,Nat.shiftRight_eq_div_pow,Nat.div_lt_iff_lt_mul (by positivity),← pow_add]
    exact a.isLt.trans_le (Nat.pow_le_pow_right (by decide) (by omega))
  | string => exact absurd rfl hfits.numeric

omit [InetText] in
private theorem getFormat_fits {texts : List String} {isSdnString : Bool} (h : getFormat texts w isSdnString = .ok format)
    (hnumeric : format ≠ .string) (hw : 1 ≤ w) : format.Fits w := by
  obtain ⟨format',-,h⟩ := bind_eq_ok.mp h
  split_ifs at h with hmac hipv4 hipv6
  cases h
  refine ⟨hnumeric,fun _ => hw,fun heq => ?_,fun heq => ?_,fun heq => ?_⟩
  · by_contra hne
    exact hmac ⟨heq,hne⟩
  · by_contra hne
    exact hipv4 ⟨heq,hne⟩
  · by_contra hne
    exact hipv6 ⟨heq,Nat.lt_of_not_le hne⟩

/-- The value of a byte string, and its normalized form, survive the way to the IR and back. -/
structure RoundTrips (format : Format) (w : Nat) (bytes : Bytes) : Prop where
  accepted : (∃ v,arbitraryByteStringToIrValue format w bytes = .ok v) ↔ bytesToNat bytes < 2 ^ w
  normalized : ∀ v,arbitraryByteStringToIrValue format w bytes = .ok v → ∃ n,irValueToNormalizedByteString v w = .ok n ∧
    n.length = (w + 7) / 8 ∧ bytesToNat n = bytesToNat bytes ∧ arbitraryToNormalizedByteString bytes w = .ok n

/-- Every accepted value comes back from its bytes, as far as bytes tell. -/
def Reencodes (format : Format) (w : Nat) : Prop :=
  ∀ text n,irValueToNormalizedByteString (formattedStringToIrValue text format) w = .ok n →
    ∃ v,arbitraryByteStringToIrValue format w n = .ok v ∧ irValueToNormalizedByteString v w = .ok n

omit [InetText] in
theorem Format.Fits.byteCount_ge (hfits : format.Fits w) : (w + 7) / 8 ≤ format.byteCount w := by
  unfold Format.byteCount
  split_ifs with h
  · have := hfits.ipv6 h
    omega
  · exact le_rfl

omit [InetText] in
theorem Format.Fits.natToBytes_ne_nil (hfits : format.Fits w) (v : Nat) : natToBytes (format.byteCount w) v ≠ [] := by
  refine List.ne_nil_of_length_pos ?_
  rw [length_natToBytes,Format.byteCount]
  cases format with
  | hexString =>
    have hpos := hfits.hex rfl
    rw [if_neg (by decide)]
    omega
  | mac => simp [hfits.mac rfl]
  | ipv4 => simp [hfits.ipv4 rfl]
  | ipv6 => simp
  | string => exact absurd rfl hfits.numeric

theorem Format.Fits.reencodes (hinet : InetText.Inverse) (hfits : format.Fits w) : Reencodes format w := by
  intro text n h
  obtain ⟨v,hv,rfl⟩ := irValueToNormalizedByteString_bytes hfits h
  have hvalue : bytesToNat (natToBytes (format.byteCount w) v) = v :=
    bytesToNat_natToBytes ((lt_pow_bytes hv).trans_le (Nat.pow_le_pow_right (by decide) hfits.byteCount_ge))
  have hne := hfits.natToBytes_ne_nil v
  obtain ⟨value,hvalue'⟩ := (arbitraryByteStringToIrValue_ok_iff hfits hne).mpr (hvalue.symm ▸ hv)
  have hback := irValueToNormalizedByteString_of_bytes hinet hfits hne hvalue'
  rw [hvalue] at hback
  exact ⟨value,hvalue',hback⟩

/-- Values survive the way to the IR and back, except that an IPv6 address always
comes back with sixteen bytes. -/
theorem value_round_trip_iff (hinet : InetText.Inverse) {texts : List String} {isSdnString : Bool}
    (hformat : getFormat texts w isSdnString = .ok format) (hnumeric : format ≠ .string) (hw : 1 ≤ w) (h : bytes ≠ []) :
    RoundTrips format w bytes ∧ Reencodes format w ↔ (format = .ipv6 → w ≤ 120 → 2 ^ w ≤ bytesToNat bytes) := by
  have hfits := getFormat_fits hformat hnumeric hw
  constructor
  · rintro ⟨htrips,-⟩ rfl hnarrow
    by_contra hlt
    obtain ⟨v,hv⟩ := htrips.accepted.mpr (Nat.lt_of_not_le hlt)
    obtain ⟨n,hn,hlength,-⟩ := htrips.normalized v hv
    rw [irValueToNormalizedByteString_of_bytes hinet hfits h hv] at hn
    have hn := Except.ok.inj hn
    rw [← hn,length_natToBytes,Format.byteCount,if_pos rfl] at hlength
    omega
  · intro hcondition
    refine ⟨⟨arbitraryByteStringToIrValue_ok_iff hfits h,fun v hv => ?_⟩,hfits.reencodes hinet⟩
    have hvalue := (arbitraryByteStringToIrValue_ok_iff hfits h).mp ⟨v,hv⟩
    have hcount : format.byteCount w = (w + 7) / 8 := by
      unfold Format.byteCount
      split_ifs with hipv6
      · have hwide : ¬ w ≤ 120 := fun hnarrow => absurd (hcondition hipv6 hnarrow) (Nat.not_le.mpr hvalue)
        have hle := hfits.ipv6 hipv6
        omega
      · rfl
    have hback := irValueToNormalizedByteString_of_bytes hinet hfits h hv
    rw [hcount] at hback
    exact ⟨_,hback,length_natToBytes _ _,bytesToNat_natToBytes (lt_pow_bytes hvalue),
      (arbitraryToNormalizedByteString_eq_ok h hw).mpr ⟨hvalue,rfl⟩⟩

end IrValues

attribute [local instance] uncompressedInet

private theorem colon_notMem_numeral (n : Nat) : ':' ∉ numeral 16 n := by
  have hdigit : ∀ d < 16,Nat.digitChar d ≠ ':' := by decide
  intro hmem
  obtain ⟨d,hd,heq⟩ := digitValue_of_mem_numeral (by decide) (by decide) hmem
  exact hdigit d hd heq.symm

private theorem length_numeral_le {n : Nat} (hn : n < 65536) : (numeral 16 n).length ≤ 4 := by
  unfold numeral
  split_ifs
  · decide
  · rw [List.length_map,List.length_reverse]
    exact (Nat.digits_length_le_iff (by decide) n).mpr hn

private theorem mapM_readNumeral (groups : List Nat) : (groups.map (numeral 16)).mapM (readNumeral 16) = some groups := by
  induction groups with
  | nil => rfl
  | cons g groups ih => simp [readNumeral_numeral,ih]

theorem uncompressedInet_inverse : InetText.Inverse := by
  intro a
  let groups : List Nat := (List.range 8).map fun i => a.toNat / 65536 ^ (7 - i) % 65536
  have hsplit : splitChars ':' (InetText.ntop a).toList = groups.map (numeral 16) := by
    have htext : (InetText.ntop a).toList = joinChars ':' (groups.map (numeral 16)) := by
      simp only [InetText.ntop,String.toList_ofList,groups,List.map_map]
      rfl
    rw [htext]
    refine splitChars_joinChars (by simp [groups]) fun w hw => ?_
    obtain ⟨g,-,rfl⟩ := List.mem_map.mp hw
    exact colon_notMem_numeral g
  have hshort : (groups.map (numeral 16)).any (fun w => w.length > 4) = false := by
    rw [List.any_eq_false]
    intro w hw
    obtain ⟨g,hg,rfl⟩ := List.mem_map.mp hw
    obtain ⟨i,-,rfl⟩ := List.mem_map.mp hg
    simpa using length_numeral_le (Nat.mod_lt _ (by decide))
  have hvalue : groups.foldl (fun acc g => acc * 65536 + g) 0 = a.toNat := by
    have hlt := a.isLt
    simp [groups,List.range_succ]
    omega
  simp only [InetText.pton,hsplit,hshort,mapM_readNumeral]
  rw [if_neg (by simp [groups]),Option.map_some,hvalue,BitVec.ofNat_toNat]
  simp

def sampleGroups : Bytes := [0x20,0x01,0x0d,0xb8,0,1,0,2,0,3,0,4,0,5]

theorem narrow_ipv6_not_normalized : getFormat ["@format(IPV6_ADDRESS)"] 112 false = .ok .ipv6 ∧
    arbitraryByteStringToIrValue .ipv6 112 sampleGroups = .ok (.ipv6 "2001:db8:1:2:3:4:5:0") ∧
    irValueToNormalizedByteString (.ipv6 "2001:db8:1:2:3:4:5:0") 112 = .ok ([0,0] ++ sampleGroups) ∧
    ¬ RoundTrips .ipv6 112 sampleGroups := by
  have hvalue : arbitraryByteStringToIrValue .ipv6 112 sampleGroups = .ok (.ipv6 "2001:db8:1:2:3:4:5:0") := by decide
  have hback : irValueToNormalizedByteString (.ipv6 "2001:db8:1:2:3:4:5:0") 112 = .ok ([0,0] ++ sampleGroups) := by
    decide
  refine ⟨by decide,hvalue,hback,fun h => ?_⟩
  obtain ⟨n,hn,hlength,-⟩ := h.normalized _ hvalue
  cases hback.symm.trans hn
  exact absurd hlength (by decide)

theorem full_ipv6_round_trip : RoundTrips .ipv6 128 (sampleGroups ++ [0,6]) ∧ Reencodes .ipv6 128 := by
  have hformat : getFormat ["@format(IPV6_ADDRESS)"] 128 false = .ok .ipv6 := by decide
  exact (value_round_trip_iff uncompressedInet_inverse hformat (by decide) (by decide) (by decide)).mpr
    fun _ h => absurd h (by decide)

end SonicPins.Pdpi
