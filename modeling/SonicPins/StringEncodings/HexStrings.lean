import SonicPins.Packetlib.HexStrings

/-! Hexadecimal strings of bit sets of any width, a character for each byte of the string.
A conversion in which an `int` leaves its range has no result. -/
namespace SonicPins.StringEncodings
open Lib Pdpi Packetlib

variable {i digit : Nat} {hexString digits : List Char}

section Conversions
variable {numBits : Nat}

/-- Kept in an `int`, from a sum of type `std::size_t`. -/
def expectedNumHexChars (numBits : Nat) : Int := int32 ((numBits + 3) % 2 ^ 64 / 4 : Nat)

/-- Four bits, from the most significant one to the least. -/
def ithDigit (bitset : BitVec numBits) (i : Nat) : Nat :=
  [4 * i + 3,4 * i + 2,4 * i + 1,4 * i].foldl
    (fun digit k => digit <<< 1 ||| (if k < numBits then (bitset.getLsbD k).toNat else 0)) 0

/-- So many digits from the given one on, the least significant one first. -/
def hexDigitsFrom (bitset : BitVec numBits) : Nat → Nat → Option (List Char)
  | 0,_ => some []
  | count + 1,i =>
    if 2 ^ 31 ≤ 4 * i + 3 then none
    else (hexDigitsFrom bitset count (i + 1)).map (Nat.digitChar (ithDigit bitset i) :: ·)

def bitsetToHexString (bitset : BitVec numBits) : Option (List Char) :=
  (hexDigitsFrom bitset (expectedNumHexChars numBits).toNat 0).map fun digits => ['0','x'] ++ digits.reverse

/-- The number of the bit if there is no room for it. -/
def setKthBit (ithDigit i : Nat) (bitset : BitVec numBits) (j : Nat) : Except Nat (BitVec numBits) :=
  if (ithDigit >>> j) % 2 ≠ 1 then .ok bitset
  else if 4 * i + j < numBits then .ok (bitset ||| BitVec.twoPow numBits (4 * i + j))
  else .error (4 * i + j + 1)

def setIthDigit (ithDigit i : Nat) (bitset : BitVec numBits) : Except Nat (BitVec numBits) :=
  [0,1,2,3].foldlM (setKthBit ithDigit i) bitset

/-- The digits are given from the least significant one on. -/
def setDigits (hexString : List Char) : Nat → List Char → BitVec numBits → Option (StatusOr (BitVec numBits))
  | _,[],bitset => some (.ok bitset)
  | i,ithChar :: rest,bitset =>
    match digitIn (String.ofList hexString) ithChar with
    | .error status => some (.error status)
    | .ok digit =>
      if 2 ^ 31 ≤ 4 * i then none
      else match setIthDigit digit i bitset with
      | .error k => some (.error (invalidArgument ("hex string '0x" ++ String.ofList hexString ++ "' has bit #" ++ natText k ++
          " set to 1; conversion to " ++ natText numBits ++ " bits would lose information")))
      | .ok bitset => setDigits hexString (i + 1) rest bitset

def hexStringToAnyLargeEnoughBitset (numBits : Nat) (hexString : List Char) : Option (StatusOr (BitVec numBits)) :=
  match dropPrefixChars ['0','x'] hexString with
  | none => some (.error (missingPrefix (String.ofList hexString)))
  | some digits => setDigits digits 0 digits.reverse 0

def hexStringToBitset (numBits : Nat) (hexString : List Char) : Option (StatusOr (BitVec numBits)) :=
  match dropPrefixChars ['0','x'] hexString with
  | none => hexStringToAnyLargeEnoughBitset numBits hexString
  | some digits =>
    if int32 digits.length ≠ expectedNumHexChars numBits then
      some (.error (invalidArgument ("illegal conversion from hex string '" ++ String.ofList hexString ++ "' to " ++
        natText numBits ++ " bits; expected " ++ decimal (expectedNumHexChars numBits) ++ " hex digits but got " ++
        decimal (int32 digits.length))))
    else hexStringToAnyLargeEnoughBitset numBits hexString

end Conversions

section Printing
variable {numBits : Nat}

theorem expectedNumHexChars_of_le (h : numBits ≤ 2 ^ 31) : expectedNumHexChars numBits = numHexDigits numBits := by
  have hmod : (numBits + 3) % 2 ^ 64 = numBits + 3 := Nat.mod_eq_of_lt (by omega)
  rw [expectedNumHexChars,hmod]
  exact int32_of_lt (by omega)

private theorem shiftLeft_or_bit (digit : Nat) (bit : Bool) : digit <<< 1 ||| bit.toNat = 2 * digit + bit.toNat := by
  have hbit : bit.toNat < 2 ^ 1 := bit.toNat_lt
  rw [← Nat.shiftLeft_add_eq_or_of_lt hbit,Nat.shiftLeft_eq,pow_one,Nat.mul_comm]

private theorem ithDigit_eq (bitset : BitVec numBits) (i : Nat) : ithDigit bitset i = bitset.toNat / 16 ^ i % 16 := by
  have hplace : (16 : Nat) ^ i = 2 ^ (4 * i) := pow_mul 2 4 i ▸ rfl
  have hbit : ∀ j,(if 4 * i + j < numBits then (bitset.getLsbD (4 * i + j)).toNat else 0) =
      ((bitset.toNat / 16 ^ i).testBit j).toNat := by
    intro j
    rw [hplace,Nat.testBit_div_two_pow,Nat.add_comm j]
    split
    · rfl
    · rename_i hk
      have hzero : bitset.toNat.testBit (4 * i + j) = false := BitVec.getLsbD_of_ge bitset _ (by omega)
      rw [hzero,Bool.toNat_false]
  have hzero := hbit 0
  rw [Nat.add_zero] at hzero
  simp only [ithDigit,List.foldl_cons,List.foldl_nil,hbit,hzero,shiftLeft_or_bit]
  simp only [Nat.toNat_testBit]
  omega

theorem hexDigitsFrom_eq (bitset : BitVec numBits) {count : Nat} (h : 4 * (i + count) ≤ 2 ^ 31) :
    hexDigitsFrom bitset count i = some (natToHexDigits count (bitset.toNat / 16 ^ i)).reverse := by
  induction count generalizing i with
  | zero => rfl
  | succ count ih =>
    have hdiv : bitset.toNat / 16 ^ (i + 1) = bitset.toNat / 16 ^ i / 16 := by rw [pow_succ,Nat.div_div_eq_div_mul]
    rw [hexDigitsFrom,if_neg (by omega),ih (by omega),hdiv,ithDigit_eq,natToHexDigits,List.reverse_append]
    rfl

private theorem hexDigitsFrom_undefined (bitset : BitVec numBits) {count : Nat} (hi : 4 * i ≤ 2 ^ 31)
    (h : 2 ^ 31 < 4 * (i + count)) : hexDigitsFrom bitset count i = none := by
  induction count generalizing i with
  | zero => omega
  | succ count ih =>
    rw [hexDigitsFrom]
    split
    · rfl
    · rw [ih (by omega) (by omega)]
      rfl

theorem bitsetToHexString_eq (h : numBits ≤ 2 ^ 31) (bitset : BitVec numBits) :
    bitsetToHexString bitset = some (['0','x'] ++ natToHexDigits (numHexDigits numBits) bitset.toNat) := by
  have hcount : 4 * (0 + numHexDigits numBits) ≤ 2 ^ 31 := by
    unfold numHexDigits
    omega
  rw [bitsetToHexString,expectedNumHexChars_of_le h,Int.toNat_natCast,hexDigitsFrom_eq bitset hcount,pow_zero,Nat.div_one,
    Option.map_some,List.reverse_reverse]

theorem bitsetToHexString_defined {bitset : BitVec numBits} {text : List Char} (h : bitsetToHexString bitset = some text) :
    4 * (expectedNumHexChars numBits).toNat ≤ 2 ^ 31 ∧
      text = ['0','x'] ++ natToHexDigits (expectedNumHexChars numBits).toNat bitset.toNat := by
  obtain ⟨digits,hdigits,rfl⟩ := Option.map_eq_some_iff.mp h
  have hcount : 4 * (0 + (expectedNumHexChars numBits).toNat) ≤ 2 ^ 31 := by
    by_contra hlarge
    rw [hexDigitsFrom_undefined bitset (by omega) (by omega)] at hdigits
    cases hdigits
  rw [hexDigitsFrom_eq bitset hcount,pow_zero,Nat.div_one] at hdigits
  refine ⟨by simpa using hcount,?_⟩
  rw [← Option.some.inj hdigits,List.reverse_reverse]

end Printing

section Reading
variable {numBits : Nat}

private theorem setBits_eq (digit i : Nat) (js : List Nat) (bitset : BitVec numBits) :
    js.foldlM (setKthBit digit i) bitset =
      match js.find? fun j => digit.testBit j && decide (numBits ≤ 4 * i + j) with
      | some j => .error (4 * i + j + 1)
      | none => .ok (js.foldl (fun bits j => if digit.testBit j then bits ||| BitVec.twoPow numBits (4 * i + j) else bits)
          bitset) := by
  induction js generalizing bitset with
  | nil => rfl
  | cons j js ih =>
    have hbit : digit.testBit j = decide ((digit >>> j) % 2 = 1) := by
      rw [Nat.testBit_eq_decide_div_mod_eq,Nat.shiftRight_eq_div_pow]
    rw [List.foldlM_cons,List.find?_cons,List.foldl_cons,setKthBit,hbit]
    by_cases hset : (digit >>> j) % 2 = 1
    · by_cases hroom : 4 * i + j < numBits
      · simp only [hset,hroom,not_true_eq_false,ne_eq,if_false,if_true,decide_true,Nat.not_le_of_lt hroom,decide_false,
          Bool.and_false]
        exact ih _
      · simp only [hset,hroom,not_true_eq_false,ne_eq,if_false,decide_true,Nat.le_of_not_lt hroom,Bool.and_true]
        rfl
    · simp only [hset,not_false_eq_true,ne_eq,if_true,decide_false,Bool.false_and]
      exact ih _

private theorem getLsbD_setBits (digit i : Nat) (js : List Nat) (bitset : BitVec numBits) {k : Nat} (hk : k < numBits) :
    (js.foldl (fun bits j => if digit.testBit j then bits ||| BitVec.twoPow numBits (4 * i + j) else bits) bitset).getLsbD k =
      (bitset.getLsbD k || js.any fun j => digit.testBit j && decide (4 * i + j = k)) := by
  induction js generalizing bitset with
  | nil => simp
  | cons j js ih =>
    rw [List.foldl_cons,ih,List.any_cons,← Bool.or_assoc]
    congr 1
    split
    · rename_i hbit
      simp [hbit,hk,eq_comm]
    · rename_i hbit
      simp [hbit]

theorem setIthDigit_eq (hdigit : digit < 16) (bitset : BitVec numBits) :
    setIthDigit digit i bitset = match (List.range 4).find? fun j => digit.testBit j && decide (numBits ≤ 4 * i + j) with
      | some j => .error (4 * i + j + 1)
      | none => .ok (bitset ||| BitVec.ofNat numBits (digit <<< (4 * i))) := by
  have hany : ∀ k,([0,1,2,3].any fun j => digit.testBit j && decide (4 * i + j = k)) = (digit <<< (4 * i)).testBit k := by
    intro k
    have hhigh : ∀ j,4 ≤ j → digit.testBit j = false := fun j hj =>
      Nat.testBit_lt_two_pow (lt_of_lt_of_le (show digit < 2 ^ 4 from hdigit) (Nat.pow_le_pow_right Nat.two_pos hj))
    rw [Nat.testBit_shiftLeft,Bool.eq_iff_iff]
    simp only [List.any_eq_true,Bool.and_eq_true,decide_eq_true_eq]
    constructor
    · rintro ⟨j,-,hbit,rfl⟩
      exact ⟨by omega,by rwa [Nat.add_sub_cancel_left]⟩
    · rintro ⟨hle,hbit⟩
      refine ⟨k - 4 * i,?_,hbit,by omega⟩
      by_contra hmem
      rw [hhigh] at hbit
      · cases hbit
      · simp only [List.mem_cons,List.not_mem_nil,or_false,not_or] at hmem
        omega
  have hset : ([0,1,2,3].foldl (fun bits j => if digit.testBit j then bits ||| BitVec.twoPow numBits (4 * i + j) else bits)
      bitset) = bitset ||| BitVec.ofNat numBits (digit <<< (4 * i)) := by
    apply BitVec.eq_of_getLsbD_eq
    intro k hk
    rw [getLsbD_setBits digit i _ bitset hk,hany,BitVec.getLsbD_or,BitVec.getLsbD_ofNat,decide_eq_true hk,Bool.true_and]
  rw [setIthDigit,setBits_eq,hset]
  rfl

private theorem setIthDigit_fits (hdigit : digit < 16) {bitset : BitVec numBits} (hlow : bitset.toNat < 16 ^ i)
    (h : digit * 16 ^ i < 2 ^ numBits) :
    ∃ bitset',setIthDigit digit i bitset = .ok bitset' ∧ bitset'.toNat = bitset.toNat + digit * 16 ^ i := by
  have hplace : (16 : Nat) ^ i = 2 ^ (4 * i) := pow_mul 2 4 i ▸ rfl
  refine ⟨_,by rw [setIthDigit_eq hdigit,(digit_fits hdigit).mpr h],?_⟩
  rw [hplace] at hlow h
  rw [BitVec.toNat_or,BitVec.toNat_ofNat,Nat.shiftLeft_eq,Nat.mod_eq_of_lt h,← Nat.shiftLeft_eq,Nat.or_comm,
    ← Nat.shiftLeft_add_eq_or_of_lt hlow,Nat.shiftLeft_eq,hplace,Nat.add_comm]

private theorem setIthDigit_lost (hdigit : digit < 16) (bitset : BitVec numBits) (h : ¬ digit * 16 ^ i < 2 ^ numBits) :
    ∃ k,setIthDigit digit i bitset = .error k := by
  rw [setIthDigit_eq hdigit]
  cases hfind : (List.range 4).find? fun j => digit.testBit j && decide (numBits ≤ 4 * i + j) with
  | some j => exact ⟨_,rfl⟩
  | none => exact absurd ((digit_fits hdigit).mp hfind) h

theorem hexDigitsToNat_reverse_cons {c : Char} (hc : digitValue c = some digit) (rest : List Char) :
    hexDigitsToNat (c :: rest).reverse = digit + 16 * hexDigitsToNat rest.reverse := by
  rw [List.reverse_cons,hexDigitsToNat_concat,hc,Option.getD_some]
  ring

theorem setDigits_cons (hexString : List Char) (hi : 4 * i < 2 ^ 31) {c : Char}
    (hc : digitValue c = some digit) {bitset : BitVec numBits} (hlow : bitset.toNat < 16 ^ i)
    (hfits : digit * 16 ^ i < 2 ^ numBits) (rest : List Char) :
    ∃ bitset' : BitVec numBits,bitset'.toNat = bitset.toNat + digit * 16 ^ i ∧ bitset'.toNat < 16 ^ (i + 1) ∧
      setDigits hexString i (c :: rest) bitset = setDigits hexString (i + 1) rest bitset' := by
  have hlt := digitValue_lt hc
  have hin : digitIn (String.ofList hexString) c = .ok digit := digitIn_eq_ok.mpr hc
  obtain ⟨bitset',hset,hvalue⟩ := setIthDigit_fits hlt hlow hfits
  have hle : digit * 16 ^ i ≤ 15 * 16 ^ i := Nat.mul_le_mul_right _ (by omega)
  refine ⟨bitset',hvalue,?_,?_⟩
  · rw [pow_succ]
    omega
  · simp only [setDigits,hin,if_neg (Nat.not_le_of_lt hi),hset]

theorem setDigits_fits (hexString : List Char) {lower : List Char} (hi : 4 * (i + lower.length) ≤ 2 ^ 31)
    (hdigits : areHexDigits lower = true) (hfits : hexDigitsToNat lower.reverse * 16 ^ i < 2 ^ numBits) (rest : List Char)
    (bitset : BitVec numBits) (hlow : bitset.toNat < 16 ^ i) :
    ∃ bitset' : BitVec numBits,bitset'.toNat = bitset.toNat + hexDigitsToNat lower.reverse * 16 ^ i ∧
      setDigits hexString i (lower ++ rest) bitset = setDigits hexString (i + lower.length) rest bitset' := by
  induction lower generalizing i bitset with
  | nil => exact ⟨bitset,by simp [hexDigitsToNat],rfl⟩
  | cons c lower ih =>
    rw [List.length_cons] at hi
    obtain ⟨hc,hlower⟩ : (digitValue c).isSome = true ∧ areHexDigits lower = true := by simpa [areHexDigits] using hdigits
    obtain ⟨digit,hdigit⟩ := Option.isSome_iff_exists.mp hc
    have hvalue := hexDigitsToNat_reverse_cons hdigit lower
    rw [hvalue,digits_fit (digitValue_lt hdigit)] at hfits
    obtain ⟨bitset₁,hsum₁,hlow₁,hread₁⟩ :=
      setDigits_cons hexString (by omega) hdigit hlow hfits.1 (lower ++ rest)
    obtain ⟨bitset',hsum,hread⟩ := ih (by omega) hlower hfits.2 bitset₁ hlow₁
    have hplace : i + 1 + lower.length = i + (c :: lower).length := by
      rw [List.length_cons]
      omega
    refine ⟨bitset',?_,?_⟩
    · rw [hsum,hsum₁,hvalue,pow_succ]
      ring
    · rw [List.cons_append,hread₁,hread,hplace]

theorem setDigits_refused (hexString : List Char) {lower : List Char} (hi : 4 * (i + lower.length) ≤ 2 ^ 31)
    (h : ¬ (areHexDigits lower = true ∧ hexDigitsToNat lower.reverse * 16 ^ i < 2 ^ numBits)) (rest : List Char)
    (bitset : BitVec numBits) (hlow : bitset.toNat < 16 ^ i) :
    ∃ status,setDigits hexString i (lower ++ rest) bitset = some (.error status) := by
  induction lower generalizing i bitset with
  | nil => exact absurd ⟨rfl,by simp [hexDigitsToNat]⟩ h
  | cons c lower ih =>
    rw [List.length_cons] at hi
    rw [List.cons_append]
    cases hin : digitIn (String.ofList hexString) c with
    | error status => exact ⟨status,by simp only [setDigits,hin]⟩
    | ok digit =>
      have hdigit := digitIn_eq_ok.mp hin
      have hlt := digitValue_lt hdigit
      by_cases hfirst : digit * 16 ^ i < 2 ^ numBits
      · obtain ⟨bitset₁,-,hlow₁,hread₁⟩ :=
          setDigits_cons hexString (by omega) hdigit hlow hfirst (lower ++ rest)
        rw [hread₁]
        refine ih (by omega) (fun hrest => h ?_) bitset₁ hlow₁
        rw [hexDigitsToNat_reverse_cons hdigit,digits_fit hlt]
        exact ⟨by simpa [areHexDigits,hdigit] using hrest.1,hfirst,hrest.2⟩
      · obtain ⟨k,hset⟩ := setIthDigit_lost hlt bitset hfirst
        simp only [setDigits,hin,if_neg (show ¬ 2 ^ 31 ≤ 4 * i by omega),hset]
        exact ⟨_,rfl⟩

theorem hexStringToBitset_digits (numBits : Nat) (digits : List Char) :
    (int32 digits.length = expectedNumHexChars numBits ∧
      hexStringToBitset numBits (['0','x'] ++ digits) = setDigits digits 0 digits.reverse 0) ∨
    (int32 digits.length ≠ expectedNumHexChars numBits ∧
      ∃ status,hexStringToBitset numBits (['0','x'] ++ digits) = some (.error status)) := by
  by_cases hlen : int32 digits.length = expectedNumHexChars numBits
  · refine .inl ⟨hlen,?_⟩
    rw [hexStringToBitset,hexStringToAnyLargeEnoughBitset,dropPrefixChars_append]
    simp only [hlen,ne_eq,not_true_eq_false,if_false]
  · refine .inr ⟨hlen,?_⟩
    rw [hexStringToBitset,dropPrefixChars_append]
    simp only [hlen,ne_eq,not_false_eq_true,if_true]
    exact ⟨_,rfl⟩

private theorem hexStringToBitset_unprefixed (numBits : Nat) (h : ∀ digits,hexString ≠ ['0','x'] ++ digits) :
    ∃ status,hexStringToBitset numBits hexString = some (.error status) := by
  have hdrop : dropPrefixChars ['0','x'] hexString = none := by
    rw [Option.eq_none_iff_forall_ne_some]
    intro digits hdigits
    exact h digits (dropPrefixChars_eq_some hdigits)
  rw [hexStringToBitset,hexStringToAnyLargeEnoughBitset,hdrop]
  exact ⟨_,rfl⟩

theorem hexStringToBitset_expected (hn : numBits ≤ 2 ^ 31) (hlen : digits.length = numHexDigits numBits)
    (hdigits : areHexDigits digits = true) (hfits : hexDigitsToNat digits < 2 ^ numBits) :
    hexStringToBitset numBits (['0','x'] ++ digits) = some (.ok (BitVec.ofNat numBits (hexDigitsToNat digits))) := by
  have hle : numHexDigits numBits ≤ 2 ^ 29 := by
    unfold numHexDigits
    omega
  rcases hexStringToBitset_digits numBits digits with ⟨-,hread⟩ | ⟨hne,-⟩
  · have hshort : 4 * (0 + digits.reverse.length) ≤ 2 ^ 31 := by
      rw [List.length_reverse]
      omega
    have hfits' : hexDigitsToNat digits.reverse.reverse * 16 ^ 0 < 2 ^ numBits := by
      rwa [List.reverse_reverse,pow_zero,Nat.mul_one]
    obtain ⟨bitset,hsum,hset⟩ := setDigits_fits digits hshort (by rwa [areHexDigits_reverse]) hfits' []
      (0 : BitVec numBits) (by simp)
    rw [List.append_nil] at hset
    rw [hread,hset,setDigits]
    congr 2
    apply BitVec.eq_of_toNat_eq
    rw [hsum,BitVec.toNat_ofNat,Nat.mod_eq_of_lt hfits]
    simp
  · rw [hlen,expectedNumHexChars_of_le hn,int32_of_lt (by omega)] at hne
    exact absurd rfl hne

end Reading

theorem toLower_digitChar : ∀ d < 16,(Nat.digitChar d).toLower = Nat.digitChar d ∧
    (Nat.digitChar d).toUpper.toLower = Nat.digitChar d := by
  decide

private theorem natToHexDigits_toLower (h : areHexDigits digits = true) :
    natToHexDigits digits.length (hexDigitsToNat digits) = digits.map Char.toLower := by
  induction digits using List.reverseRecOn with
  | nil => rfl
  | append_singleton digits c ih =>
    obtain ⟨hdigits,hc⟩ : areHexDigits digits = true ∧ (digitValue c).isSome = true := by simpa [areHexDigits] using h
    obtain ⟨d,hd⟩ := Option.isSome_iff_exists.mp hc
    have hlt := digitValue_lt hd
    have hlower : c.toLower = Nat.digitChar d := by
      rcases digitChar_of_digitValue hd with rfl | ⟨-,rfl⟩
      · exact (toLower_digitChar d hlt).1
      · exact (toLower_digitChar d hlt).2
    have hdiv : (hexDigitsToNat digits * 16 + d) / 16 = hexDigitsToNat digits := by omega
    have hmod : (hexDigitsToNat digits * 16 + d) % 16 = d := by omega
    rw [hexDigitsToNat_concat,hd,Option.getD_some,List.length_append,List.length_singleton,natToHexDigits,hdiv,hmod,ih hdigits,
      List.map_append,List.map_singleton,hlower]

section Conversion
variable {numBits : Nat}

/-- Every bit set is read back from its text. -/
def RoundTrips (numBits : Nat) : Prop :=
  ∀ bitset : BitVec numBits,∃ text,bitsetToHexString bitset = some text ∧ hexStringToBitset numBits text = some (.ok bitset)

/-- As many hexadecimal digits as the bits need, of a value that they hold. -/
def IsBitsetText (numBits : Nat) (hexString : List Char) : Prop :=
  ∃ digits,hexString = ['0','x'] ++ digits ∧ digits.length = numHexDigits numBits ∧ areHexDigits digits = true ∧
    hexDigitsToNat digits < 2 ^ numBits

/-- The texts of bit sets are read, up to the case of their letters, and no others. -/
def ReadsBitset (numBits : Nat) (hexString : List Char) : Prop :=
  ∃ result,hexStringToBitset numBits hexString = some result ∧
    ((∃ bitset,result = .ok bitset) ↔ IsBitsetText numBits hexString) ∧
    ∀ bitset,result = .ok bitset → bitsetToHexString bitset = some (hexString.map Char.toLower)

/-- The digits are as many as expected only as an `int`, and nothing is wrong with the last 2 ^ 29 of them. -/
def Overruns (numBits : Nat) (hexString : List Char) : Prop :=
  ∃ upper c lower,hexString = ['0','x'] ++ (upper ++ c :: lower) ∧ lower.length = 2 ^ 29 ∧
    areHexDigits (c :: lower) = true ∧ hexDigitsToNat lower < 2 ^ numBits ∧
    (upper.length + 1 + lower.length) % 2 ^ 32 = numHexDigits numBits

private theorem natToHexDigits_pow (count : Nat) : natToHexDigits count (16 ^ count) = natToHexDigits count 0 := by
  induction count with
  | zero => rfl
  | succ count ih => rw [natToHexDigits,natToHexDigits,pow_succ,Nat.mul_div_cancel _ (by decide),Nat.mul_mod_left,ih]

private theorem roundTrips_iff (numBits : Nat) : RoundTrips numBits ↔ numBits ≤ 2 ^ 31 := by
  constructor
  · intro h
    by_contra hlarge
    have hlost : ∀ count,4 * count ≤ 2 ^ 31 → (BitVec.twoPow numBits (4 * count)).toNat = 16 ^ count := by
      intro count hcount
      rw [BitVec.toNat_twoPow,Nat.mod_eq_of_lt (Nat.pow_lt_pow_right (by decide) (by omega)),pow_mul]
      rfl
    obtain ⟨text,htext,hread⟩ := h 0
    obtain ⟨text',htext',hread'⟩ := h (BitVec.twoPow numBits (4 * (expectedNumHexChars numBits).toNat))
    obtain ⟨hcount,rfl⟩ := bitsetToHexString_defined htext
    obtain ⟨-,rfl⟩ := bitsetToHexString_defined htext'
    rw [hlost _ hcount,natToHexDigits_pow] at hread'
    have heq := Except.ok.inj (Option.some.inj (hread.symm.trans hread'))
    have hzero := (congrArg BitVec.toNat heq).trans (hlost _ hcount)
    have hpos : 0 < 16 ^ (expectedNumHexChars numBits).toNat := by positivity
    exact hpos.ne hzero
  · intro h bitset
    have hlt := lt_pow_numHexDigits bitset.isLt
    refine ⟨_,bitsetToHexString_eq h bitset,?_⟩
    rw [hexStringToBitset_expected h (length_natToHexDigits _ _) (areHexDigits_natToHexDigits _ _)
      (by rw [hexDigitsToNat_natToHexDigits hlt]; exact bitset.isLt),hexDigitsToNat_natToHexDigits hlt,BitVec.ofNat_toNat,
      BitVec.setWidth_eq]

theorem hexStringToBitset_overruns (hn : numBits ≤ 2 ^ 31) (h : Overruns numBits hexString) :
    hexStringToBitset numBits hexString = none := by
  obtain ⟨upper,c,lower,rfl,hlen,hdigits,hfits,hcount⟩ := h
  obtain ⟨hc,hlower⟩ : (digitValue c).isSome = true ∧ areHexDigits lower = true := by simpa [areHexDigits] using hdigits
  obtain ⟨digit,hdigit⟩ := Option.isSome_iff_exists.mp hc
  have hchars : (upper ++ c :: lower).length = upper.length + 1 + lower.length := by
    rw [List.length_append,List.length_cons]
    omega
  have hint : int32 (upper ++ c :: lower).length = expectedNumHexChars numBits := by
    rw [expectedNumHexChars_of_le hn,hchars,int32_eq]
    unfold numHexDigits at hcount ⊢
    split <;> omega
  rcases hexStringToBitset_digits numBits (upper ++ c :: lower) with ⟨-,hread⟩ | ⟨hne,-⟩
  · have hfits' : hexDigitsToNat lower.reverse.reverse * 16 ^ 0 < 2 ^ numBits := by
      rwa [List.reverse_reverse,pow_zero,Nat.mul_one]
    obtain ⟨bitset,-,hset⟩ := setDigits_fits (upper ++ c :: lower) (i := 0)
      (by rw [List.length_reverse]; omega) (by rwa [areHexDigits_reverse]) hfits' (c :: upper.reverse)
      (0 : BitVec numBits) (by simp)
    have hin : digitIn (String.ofList (upper ++ c :: lower)) c = .ok digit := digitIn_eq_ok.mpr hdigit
    rw [hread,List.reverse_append,List.reverse_cons,List.append_assoc,List.singleton_append,hset,setDigits]
    simp only [hin,List.length_reverse,hlen]
    rfl
  · exact absurd hint hne

theorem readsBitset_of_refused {status : Status}
    (h : hexStringToBitset numBits hexString = some (.error status)) (hno : ¬ IsBitsetText numBits hexString) :
    ReadsBitset numBits hexString := by
  refine ⟨_,h,⟨?_,fun htext => absurd htext hno⟩,?_⟩
  · rintro ⟨bitset,hok⟩
    cases hok
  · intro bitset hok
    cases hok

private theorem readsBitset_of_isBitsetText (hn : numBits ≤ 2 ^ 31) (h : IsBitsetText numBits hexString) :
    ReadsBitset numBits hexString := by
  have ⟨digits,hpre,hlen,hdigits,hfits⟩ := h
  subst hpre
  refine ⟨_,hexStringToBitset_expected hn hlen hdigits hfits,⟨fun _ => h,fun _ => ⟨_,rfl⟩⟩,?_⟩
  rintro bitset hok
  rw [← Except.ok.inj hok,bitsetToHexString_eq hn,BitVec.toNat_ofNat,Nat.mod_eq_of_lt hfits,← hlen,natToHexDigits_toLower hdigits,
    List.map_append]
  rfl

private theorem setDigits_long (hn : numBits ≤ 2 ^ 31) (hint : int32 digits.length = expectedNumHexChars numBits)
    (hlong : 2 ^ 29 < digits.length) (h : ¬ Overruns numBits (['0','x'] ++ digits)) :
    ∃ status,setDigits digits 0 digits.reverse (0 : BitVec numBits) = some (.error status) := by
  obtain ⟨lower,c,rest,hsplit,hlen⟩ : ∃ lower c rest,digits.reverse = lower ++ c :: rest ∧ lower.length = 2 ^ 29 := by
    have hlt : 2 ^ 29 < digits.reverse.length := by rwa [List.length_reverse]
    exact ⟨_,_,_,by rw [← List.drop_eq_getElem_cons hlt,List.take_append_drop],List.length_take_of_le hlt.le⟩
  have hdigits : digits = rest.reverse ++ c :: lower.reverse := by
    rw [← List.reverse_reverse digits,hsplit,List.reverse_append,List.reverse_cons,List.append_assoc,List.singleton_append]
  have hshort : 4 * (0 + lower.length) ≤ 2 ^ 31 := by omega
  rw [hsplit]
  by_cases hlower : areHexDigits lower = true ∧ hexDigitsToNat lower.reverse * 16 ^ 0 < 2 ^ numBits
  · obtain ⟨bitset,-,hset⟩ := setDigits_fits digits hshort hlower.1 hlower.2 (c :: rest)
      (0 : BitVec numBits) (by simp)
    rw [hset,setDigits]
    cases hin : digitIn (String.ofList digits) c with
    | error status => exact ⟨status,rfl⟩
    | ok digit =>
      have hc := digitIn_eq_ok.mp hin
      refine absurd ⟨rest.reverse,c,lower.reverse,by rw [← hdigits],by rwa [List.length_reverse],?_,?_,?_⟩ h
      · rw [← List.singleton_append,areHexDigits,List.all_append,Bool.and_eq_true]
        refine ⟨?_,by rw [← areHexDigits,areHexDigits_reverse]; exact hlower.1⟩
        simp [hc]
      · simpa using hlower.2
      · have hchars : digits.length = rest.reverse.length + 1 + lower.reverse.length := by
          rw [hdigits,List.length_append,List.length_cons]
          omega
        rw [expectedNumHexChars_of_le hn,int32_eq] at hint
        rw [← hchars]
        unfold numHexDigits at hint ⊢
        split at hint <;> omega
  · exact setDigits_refused digits hshort hlower (c :: rest) 0 (by simp)

theorem readsBitset_of_not_overruns (hn : numBits ≤ 2 ^ 31) (h : ¬ Overruns numBits hexString) :
    ReadsBitset numBits hexString := by
  by_cases htext : IsBitsetText numBits hexString
  · exact readsBitset_of_isBitsetText hn htext
  by_cases hprefix : ∃ digits,hexString = ['0','x'] ++ digits
  · obtain ⟨digits,rfl⟩ := hprefix
    rcases hexStringToBitset_digits numBits digits with ⟨hint,hread⟩ | ⟨-,status,hread⟩
    · rcases Nat.lt_or_ge (2 ^ 29) digits.length with hlong | hshort
      · obtain ⟨status,hstatus⟩ := setDigits_long hn hint hlong h
        exact readsBitset_of_refused (hread.trans hstatus) htext
      · have hlen : digits.length = numHexDigits numBits := by
          rw [expectedNumHexChars_of_le hn,int32_of_lt (by omega)] at hint
          exact Int.ofNat.inj hint
        have hplaces : 4 * (0 + digits.reverse.length) ≤ 2 ^ 31 := by
          rw [List.length_reverse]
          omega
        obtain ⟨status,hstatus⟩ := setDigits_refused digits hplaces (fun hfits => htext ⟨digits,rfl,hlen,by
          simpa [areHexDigits_reverse] using hfits⟩) [] (0 : BitVec numBits) (by simp)
        rw [List.append_nil] at hstatus
        exact readsBitset_of_refused (hread.trans hstatus) htext
    · exact readsBitset_of_refused hread htext
  · obtain ⟨status,hread⟩ := hexStringToBitset_unprefixed numBits fun digits hdigits => hprefix ⟨digits,hdigits⟩
    exact readsBitset_of_refused hread htext

theorem hexDigits_zeros (count : Nat) :
    areHexDigits (List.replicate count '0') = true ∧ hexDigitsToNat (List.replicate count '0') = 0 := by
  induction count with
  | zero => exact ⟨rfl,rfl⟩
  | succ count ih =>
    have hzero : digitValue '0' = some 0 := rfl
    rw [List.replicate_succ',hexDigitsToNat_concat,hzero,ih.2,areHexDigits,List.all_append,← areHexDigits,ih.1]
    exact ⟨rfl,rfl⟩

private theorem overruns_zeros {count : Nat} (h : (count + 1 + 2 ^ 29) % 2 ^ 32 = numHexDigits numBits) :
    Overruns numBits (['0','x'] ++ List.replicate (count + (2 ^ 29 + 1)) '0') := by
  refine ⟨List.replicate count '0','0',List.replicate (2 ^ 29) '0',?_,List.length_replicate,?_,?_,?_⟩
  · rw [List.replicate_add,List.replicate_succ]
  · rw [← List.replicate_succ]
    exact (hexDigits_zeros _).1
  · rw [(hexDigits_zeros _).2]
    positivity
  · rwa [List.length_replicate,List.length_replicate]

/-- The conversions agree with each other while the bits and the digits can be numbered by an `int`. -/
theorem hex_conversions_iff (numBits : Nat) (hexString : List Char) :
    RoundTrips numBits ∧ ReadsBitset numBits hexString ↔ numBits ≤ 2 ^ 31 ∧ ¬ Overruns numBits hexString := by
  rw [roundTrips_iff]
  refine and_congr_right fun hn => ⟨?_,readsBitset_of_not_overruns hn⟩
  rintro ⟨result,hread,-⟩ hover
  rw [hexStringToBitset_overruns hn hover] at hread
  cases hread

/-- A single bit has a text of one digit, not one of 2 ^ 32 + 1. -/
theorem one_bit_overrun : ¬ (RoundTrips 1 ∧ ReadsBitset 1 (['0','x'] ++ List.replicate (2 ^ 32 + 1) '0')) := by
  rintro ⟨-,result,hread,-⟩
  have hcount : 2 ^ 32 + 1 = 2 ^ 32 - 2 ^ 29 + (2 ^ 29 + 1) := by norm_num
  have hover : Overruns 1 (['0','x'] ++ List.replicate (2 ^ 32 - 2 ^ 29 + (2 ^ 29 + 1)) '0') :=
    overruns_zeros (by norm_num [numHexDigits])
  rw [hcount,hexStringToBitset_overruns (by norm_num) hover] at hread
  cases hread

end Conversion

variable {numBits : Nat}

theorem hexStringToBitset_eq_ok (hn : numBits ≤ 2 ^ 31) {bitset : BitVec numBits} :
    hexStringToBitset numBits hexString = some (.ok bitset) ↔ ∃ digits,hexString = ['0','x'] ++ digits ∧
      digits.length = numHexDigits numBits ∧ areHexDigits digits = true ∧ hexDigitsToNat digits = bitset.toNat := by
  constructor
  · intro h
    have hover : ¬ Overruns numBits hexString := by
      intro hover
      rw [hexStringToBitset_overruns hn hover] at h
      cases h
    obtain ⟨result,hresult,htext,-⟩ := readsBitset_of_not_overruns hn hover
    obtain rfl := Option.some.inj (h.symm.trans hresult)
    obtain ⟨digits,rfl,hlen,hdigits,hfits⟩ := htext.mp ⟨_,rfl⟩
    rw [hexStringToBitset_expected hn hlen hdigits hfits] at h
    refine ⟨digits,rfl,hlen,hdigits,?_⟩
    rw [← Except.ok.inj (Option.some.inj h),BitVec.toNat_ofNat,Nat.mod_eq_of_lt hfits]
  · rintro ⟨digits,rfl,hlen,hdigits,hvalue⟩
    rw [hexStringToBitset_expected hn hlen hdigits (hvalue ▸ bitset.isLt),hvalue,BitVec.ofNat_toNat,BitVec.setWidth_eq]

theorem packetlib_hexStringToBitset (hn : numBits ≤ 2 ^ 31) {text : String} {value : Nat} :
    Packetlib.hexStringToBitset numBits text = .ok value ↔
      ∃ bitset : BitVec numBits,hexStringToBitset numBits text.toList = some (.ok bitset) ∧ bitset.toNat = value := by
  simp only [Packetlib.hexStringToBitset_eq_ok,hexStringToBitset_eq_ok hn,HexText]
  constructor
  · rintro ⟨digits,⟨htext,hdigits⟩,hlen,rfl,hfits⟩
    have hvalue : (BitVec.ofNat numBits (hexDigitsToNat digits)).toNat = hexDigitsToNat digits := by
      rw [BitVec.toNat_ofNat,Nat.mod_eq_of_lt hfits]
    exact ⟨_,⟨digits,htext,hlen,hdigits,hvalue.symm⟩,hvalue⟩
  · rintro ⟨bitset,⟨digits,htext,hlen,hdigits,hvalue⟩,rfl⟩
    exact ⟨digits,⟨htext,hdigits⟩,hlen,hvalue,bitset.isLt⟩

theorem packetlib_bitsetToHexString (hn : numBits ≤ 2 ^ 31) (bitset : BitVec numBits) :
    bitsetToHexString bitset = some (Packetlib.bitsetToHexString numBits bitset.toNat).toList := by
  have hmod : ((bitset.toNat : Int) % 2 ^ numBits).toNat = bitset.toNat := by
    rw [← Nat.cast_ofNat,← Nat.cast_pow,← Int.natCast_mod,Int.toNat_natCast,Nat.mod_eq_of_lt bitset.isLt]
  rw [bitsetToHexString_eq hn,Packetlib.bitsetToHexString,hmod,String.toList_ofList]
  rfl

end SonicPins.StringEncodings
