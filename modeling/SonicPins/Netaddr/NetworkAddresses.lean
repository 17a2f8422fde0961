import SonicPins.StringEncodings.ByteStrings

/-! Network addresses: their texts and byte strings, prefix masks, comparisons, and the
link-local addresses of MAC addresses. -/
namespace SonicPins.Netaddr
open Lib Pdpi
open Packetlib (bitsetToHexString)
open StringEncodings (anyByteStringToBitset anyByteStringToBitset_eq byteStringToBitset bitsetToPaddedByteString
  bitsetToP4RuntimeByteString bitsetToPaddedByteString_eq BytesRoundTrip bytesRoundTrip_iff)

/-- The addresses, by what they are addresses of. -/
inductive AddressType where
  | mac | ipv4 | ipv6
  deriving DecidableEq,Repr

def AddressType.numBits : AddressType → Nat
  | .mac => 48
  | .ipv4 => 32
  | .ipv6 => 128

/-- The bytes are shifted in from the right. -/
def shiftInBytes {numBits : Nat} (parse : List Char → Option UInt8) : List (List Char) → BitVec numBits → Option (BitVec numBits)
  | [],bits => some bits
  | byteString :: rest,bits =>
    (parse byteString).bind fun byte => shiftInBytes parse rest (bits <<< 8 ||| BitVec.ofNat numBits byte.toNat)

/-- The lowest byte of the address shifted to the right. -/
def byteAt {numBits : Nat} (bits : BitVec numBits) (shift : Nat) : UInt8 := UInt8.ofNat ((bits >>> shift).toNat &&& 0xff)

namespace MacAddress

def ofString (address : String) : StatusOr (BitVec 48) :=
  let invalid := invalidArgument ("Invalid MAC address: '" ++ address ++ "'")
  let bytes := splitChars ':' address.toList
  if bytes.length ≠ 6 then .error invalid
  else
    match shiftInBytes parseByteInBase16 bytes 0 with
    | none => .error invalid
    | some bits => .ok bits

def toString (bits : BitVec 48) : String :=
  String.ofList (joinChars ':' ([40,32,24,16,8,0].map fun shift => hexDigitPair (byteAt bits shift)))

end MacAddress

namespace Ipv4Address

def ofString (address : String) : StatusOr (BitVec 32) :=
  let invalid := invalidArgument ("Invalid IPv4 address: '" ++ address ++ "'")
  let bytes := splitChars '.' address.toList
  if bytes.length ≠ 4 then .error invalid
  else
    match shiftInBytes parseByteInBase10 bytes 0 with
    | none => .error invalid
    | some bits => .ok bits

def toString (bits : BitVec 32) : String :=
  String.ofList (joinChars '.' ([24,16,8,0].map fun shift => numeral 10 (byteAt bits shift).toNat))

end Ipv4Address

theorem shiftInBytes_eq {numBits : Nat} (parse : List Char → Option UInt8) (ws : List (List Char)) :
    shiftInBytes parse ws (0 : BitVec numBits) = (parseBytes parse ws).map fun bytes => BitVec.ofNat numBits (bytesToNat bytes) := by
  have hfold : ∀ bits : BitVec numBits,shiftInBytes parse ws bits =
      (parseBytes parse ws).map fun bytes =>
        bytes.foldl (fun (bits : BitVec numBits) byte => bits <<< 8 ||| BitVec.ofNat numBits byte.toNat) bits := by
    induction ws with
    | nil => exact fun _ => rfl
    | cons w ws ih =>
      intro bits
      rw [shiftInBytes,parseBytes]
      cases parse w with
      | none => rfl
      | some byte =>
        rw [Option.bind_some,Option.bind_some,ih,Option.map_map]
        rfl
  rw [hfold]
  congr 1
  funext bytes
  rw [← anyByteStringToBitset_eq]
  rfl

theorem byteAt_eq {numBits : Nat} (bits : BitVec numBits) (shift : Nat) :
    byteAt bits shift = UInt8.ofNat (bits.toNat / 2 ^ shift % 256) := by
  rw [byteAt,BitVec.toNat_ushiftRight,Nat.shiftRight_eq_div_pow,show 0xff = 2 ^ 8 - 1 from rfl,Nat.and_two_pow_sub_one_eq_mod]

theorem MacAddress.ofString_eq (address : String) : ofString address = Pdpi.MacAddress.ofString address := by
  rw [ofString,Pdpi.MacAddress.ofString,shiftInBytes_eq]
  cases parseBytes parseByteInBase16 (splitChars ':' address.toList) <;> rfl

theorem Ipv4Address.ofString_eq (address : String) : ofString address = Pdpi.Ipv4Address.ofString address := by
  rw [ofString,Pdpi.Ipv4Address.ofString,shiftInBytes_eq]
  cases parseBytes parseByteInBase10 (splitChars '.' address.toList) <;> rfl

theorem MacAddress.toString_eq (bits : BitVec 48) : toString bits = Pdpi.MacAddress.toString bits := by
  rw [toString,Pdpi.MacAddress.toString,toPaddedByteString]
  simp only [byteAt_eq,List.map_cons,List.map_nil,natToBytes,List.nil_append,List.cons_append,Nat.div_div_eq_div_mul]
  norm_num

theorem Ipv4Address.toString_eq (bits : BitVec 32) : toString bits = Pdpi.Ipv4Address.toString bits := by
  rw [toString,Pdpi.Ipv4Address.toString,toPaddedByteString]
  simp only [byteAt_eq,List.map_cons,List.map_nil,natToBytes,List.nil_append,List.cons_append,Nat.div_div_eq_div_mul]
  norm_num

theorem MacAddress.text_read_back (bits : BitVec 48) : ofString (toString bits) = .ok bits := by
  rw [ofString_eq,toString_eq]
  exact Pdpi.MacAddress.ofString_toString bits

theorem Ipv4Address.text_read_back (bits : BitVec 32) : ofString (toString bits) = .ok bits := by
  rw [ofString_eq,toString_eq]
  exact Pdpi.Ipv4Address.ofString_toString bits

section Masks
variable {numBits : Nat}

def maskForPrefixLength (numBits : Nat) (prefixLength : Int32) : StatusOr (BitVec numBits) :=
  if prefixLength.toInt < 0 ∨ (numBits : Int) < prefixLength.toInt then
    .error (invalidArgument ("invalid prefix length " ++ decimal prefixLength.toInt ++ " for address of " ++ natText numBits ++
      " bits; must be in [0, " ++ natText numBits ++ "]"))
  else .ok (BitVec.allOnes numBits <<< (numBits - prefixLength.toInt.toNat))

/-- So many lengths are tried from the given one on, which is an `int`. -/
def findPrefixLength (toString : BitVec numBits → String) (bits : BitVec numBits) : Nat → Nat → Option (StatusOr Int32)
  | 0,i => if 2 ^ 31 ≤ i then none else some (.error (invalidArgument ("not an LPM mask: " ++ toString bits)))
  | rounds + 1,i =>
    if 2 ^ 31 ≤ i then none
    else if bits = BitVec.allOnes numBits <<< (numBits - i) then some (.ok (Int32.ofNat i))
    else findPrefixLength toString bits rounds (i + 1)

def toLpmPrefixLength (toString : BitVec numBits → String) (bits : BitVec numBits) : Option (StatusOr Int32) :=
  findPrefixLength toString bits (numBits + 1) 0

/-- The mask of a length that is not larger than the width. -/
def lpmMask (numBits k : Nat) : BitVec numBits := BitVec.allOnes numBits <<< (numBits - k)

theorem getLsbD_lpmMask (numBits k j : Nat) : (lpmMask numBits k).getLsbD j = decide (j < numBits ∧ numBits - k ≤ j) := by
  rw [lpmMask,BitVec.getLsbD_shiftLeft,BitVec.getLsbD_allOnes]
  by_cases hj : j < numBits
  · by_cases hk : numBits - k ≤ j
    · simp [hj,hk,show j - (numBits - k) < numBits by omega]
    · simp [hj,hk,Nat.lt_of_not_le hk]
  · simp [hj]

theorem lpmMask_injective {k l : Nat} (hk : k ≤ numBits) (hl : l ≤ numBits) (h : lpmMask numBits k = lpmMask numBits l) : k = l := by
  have hbit : ∀ j,decide (j < numBits ∧ numBits - k ≤ j) = decide (j < numBits ∧ numBits - l ≤ j) := fun j => by
    rw [← getLsbD_lpmMask,h,getLsbD_lpmMask]
  have hbelow := decide_eq_decide.mp (hbit (numBits - k))
  have habove := decide_eq_decide.mp (hbit (numBits - l))
  omega

theorem toInt_ofNat_of_lt {i : Nat} (h : i < 2 ^ 31) : (Int32.ofNat i).toInt = i := Int32.toInt_ofNat_of_lt h

private theorem findPrefixLength_eq_ok {toString : BitVec numBits → String} {bits : BitVec numBits} {rounds i : Nat} {p : Int32}
    (h : i + rounds = numBits + 1) : findPrefixLength toString bits rounds i = some (.ok p) ↔
      (i : Int) ≤ p.toInt ∧ p.toInt ≤ numBits ∧ bits = lpmMask numBits p.toInt.toNat := by
  have hmax : p.toInt < 2 ^ 31 := Int32.toInt_lt p
  induction rounds generalizing i with
  | zero =>
    rw [findPrefixLength]
    refine iff_of_false (fun hfound => ?_) (by omega)
    split at hfound <;> cases hfound
  | succ rounds ih =>
    rw [findPrefixLength]
    by_cases hint : 2 ^ 31 ≤ i
    · rw [if_pos hint]
      exact iff_of_false (by simp) (by omega)
    · rw [if_neg hint,← lpmMask]
      by_cases hmask : bits = lpmMask numBits i
      · rw [if_pos hmask,Option.some.injEq,Except.ok.injEq]
        constructor
        · rintro rfl
          rw [toInt_ofNat_of_lt (by omega),Int.toNat_natCast]
          exact ⟨le_rfl,by omega,hmask⟩
        · rintro ⟨hle,hwidth,hbits⟩
          have hsame := lpmMask_injective (by omega) (by omega) (hmask.symm.trans hbits)
          apply Int32.toInt_inj.mp
          rw [toInt_ofNat_of_lt (by omega)]
          omega
      · have hlater := ih (show i + 1 + rounds = numBits + 1 by omega)
        rw [if_neg hmask]
        refine hlater.trans (and_congr_left fun hrest => ⟨fun hle => by omega,fun hle => ?_⟩)
        have hne : p.toInt ≠ i := by
          intro heq
          rw [heq,Int.toNat_natCast] at hrest
          exact hmask hrest.2
        omega

theorem toLpmPrefixLength_eq_ok {toString : BitVec numBits → String} {bits : BitVec numBits} {p : Int32} :
    toLpmPrefixLength toString bits = some (.ok p) ↔ maskForPrefixLength numBits p = .ok bits := by
  rw [toLpmPrefixLength,findPrefixLength_eq_ok (by omega),maskForPrefixLength]
  by_cases hrange : p.toInt < 0 ∨ (numBits : Int) < p.toInt
  · rw [if_pos hrange]
    exact iff_of_false (by omega) (by simp)
  · rw [if_neg hrange,Except.ok.injEq,← lpmMask]
    exact ⟨fun h => h.2.2.symm,fun h => ⟨by omega,by omega,h.symm⟩⟩

private theorem maskForPrefixLength_ok {p : Int32} (hpos : 0 ≤ p.toInt) (hle : p.toInt ≤ numBits) :
    maskForPrefixLength numBits p = .ok (lpmMask numBits p.toInt.toNat) := if_neg (by omega)

end Masks

section Comparisons
variable {numBits : Nat}

def compareBytes (compare : Bytes → Bytes → Bool) (a b : BitVec numBits) : Option Bool :=
  (bitsetToPaddedByteString a).bind fun bytes => (bitsetToPaddedByteString b).map fun other => compare bytes other

def lt (a b : BitVec numBits) : Option Bool := compareBytes (fun bytes other => bytes < other) a b

def le (a b : BitVec numBits) : Option Bool := compareBytes (fun bytes other => bytes ≤ other) a b

def gt (a b : BitVec numBits) : Option Bool := compareBytes (fun bytes other => bytes > other) a b

def ge (a b : BitVec numBits) : Option Bool := compareBytes (fun bytes other => bytes ≥ other) a b

theorem bytes_lt_iff {as bs : Bytes} (h : as.length = bs.length) : as < bs ↔ bytesToNat as < bytesToNat bs := by
  induction as generalizing bs with
  | nil =>
    obtain rfl := List.eq_nil_of_length_eq_zero h.symm
    exact iff_of_false (List.lt_irrefl []) (Nat.lt_irrefl _)
  | cons a as ih =>
    cases bs with
    | nil => exact absurd h (by simp)
    | cons b bs =>
      rw [List.length_cons,List.length_cons,Nat.add_right_cancel_iff] at h
      have hlow := bytesToNat_lt as
      have hlow' := bytesToNat_lt bs
      rw [List.cons_lt_cons_iff,ih h,bytesToNat_cons,bytesToNat_cons,UInt8.lt_iff_toNat_lt,← UInt8.toNat_inj,h]
      rw [h] at hlow
      rcases lt_trichotomy a.toNat b.toNat with hlt | heq | hgt
      · have hblock : a.toNat * 256 ^ bs.length + 256 ^ bs.length ≤ b.toNat * 256 ^ bs.length := by
          rw [← Nat.succ_mul]
          exact Nat.mul_le_mul_right _ hlt
        exact iff_of_true (.inl hlt) (by omega)
      · rw [heq]
        omega
      · have hblock : b.toNat * 256 ^ bs.length + 256 ^ bs.length ≤ a.toNat * 256 ^ bs.length := by
          rw [← Nat.succ_mul]
          exact Nat.mul_le_mul_right _ hgt
        exact iff_of_false (by omega) (by omega)

theorem paddedBytes_lt_iff (a b : BitVec numBits) :
    natToBytes ((numBits + 7) / 8) a.toNat < natToBytes ((numBits + 7) / 8) b.toNat ↔ a.toNat < b.toNat := by
  rw [bytes_lt_iff (by rw [length_natToBytes,length_natToBytes]),bytesToNat_natToBytes (lt_pow_bytes a.isLt),
    bytesToNat_natToBytes (lt_pow_bytes b.isLt)]

/-- The operators order addresses as numbers. -/
structure OrderedByValue (a b : BitVec numBits) : Prop where
  lt : Netaddr.lt a b = some (decide (a.toNat < b.toNat))
  le : Netaddr.le a b = some (decide (a.toNat ≤ b.toNat))
  gt : Netaddr.gt a b = some (decide (a.toNat > b.toNat))
  ge : Netaddr.ge a b = some (decide (a.toNat ≥ b.toNat))

private theorem orderedByValue (hcount : numBits + 7 < 2 ^ 31) (a b : BitVec numBits) : OrderedByValue a b := by
  have hcompare : ∀ compare : Bytes → Bytes → Bool,compareBytes compare a b =
      some (compare (natToBytes ((numBits + 7) / 8) a.toNat) (natToBytes ((numBits + 7) / 8) b.toNat)) := by
    intro compare
    rw [compareBytes,bitsetToPaddedByteString_eq hcount,bitsetToPaddedByteString_eq hcount]
    rfl
  refine ⟨?_,?_,?_,?_⟩
  · rw [Netaddr.lt,hcompare,decide_eq_decide.mpr (paddedBytes_lt_iff a b)]
  · rw [Netaddr.le,hcompare,Option.some.injEq,decide_eq_decide,← List.not_lt,← Nat.not_lt,paddedBytes_lt_iff b a]
  · rw [Netaddr.gt,hcompare,decide_eq_decide.mpr (paddedBytes_lt_iff b a)]
  · rw [Netaddr.ge,hcompare,Option.some.injEq,decide_eq_decide,ge_iff_le,ge_iff_le,← List.not_lt,← Nat.not_lt,paddedBytes_lt_iff a b]

end Comparisons

theorem getLsbD_onesAt (n k j : Nat) (hn : n + k ≤ 64) :
    ((BitVec.allOnes n).setWidth 64 <<< k).getLsbD j = decide (k ≤ j ∧ j < k + n) := by
  rw [BitVec.getLsbD_shiftLeft,BitVec.getLsbD_setWidth,BitVec.getLsbD_allOnes,← decide_not,← Bool.decide_and,← Bool.decide_and,
    ← Bool.decide_and]
  exact decide_eq_decide.mpr (by omega)

namespace MacAddress

def spread (mac : BitVec 64) : BitVec 64 :=
  (0x000000FFFE000000 : BitVec 64) ||| (mac &&& 0x000000FFFFFF) <<< 0 ||| (mac &&& 0xFFFFFF000000) <<< 16

def joined (id : BitVec 64) : BitVec 48 := ((id &&& 0xFFFFFF0000000000) >>> 16 ||| (id &&& 0x0000000000FFFFFF) >>> 0).setWidth 48

/-- The `u` bit is inverted. -/
def toInterfaceId (bits : BitVec 48) : BitVec 64 := spread (bits.setWidth 64 ^^^ 0x020000000000)

def toLinkLocalIpv6Address (bits : BitVec 48) : BitVec 128 :=
  (0xFE80 : BitVec 128) <<< 112 ||| (toInterfaceId bits).setWidth 128

def ofInterfaceId (id : BitVec 64) : StatusOr (BitVec 48) :=
  if id &&& 0x000000FFFF000000 ≠ 0x000000FFFE000000 then
    .error (invalidArgument ("invalid interface ID " ++ bitsetToHexString 64 id.toNat ++
      ": the two middle bytes must be equal to FF FE."))
  else .ok (joined id ^^^ 0x020000000000)

section Addresses
variable [InetText]

def ofLinkLocalIpv6Address (ipv6 : BitVec 128) : StatusOr (BitVec 48) :=
  let upper := (ipv6 >>> 64).setWidth 64
  let lower := (ipv6 &&& 0xFFFFFFFFFFFFFFFF).setWidth 64
  if upper ≠ (0xFE80000000000000 : BitVec 64) then
    .error (invalidArgument ("invalid link-local IPv6 address " ++ Ipv6Address.toString ipv6 ++
      ": the upper 64 bits must be fe80::/64"))
  else
    (ofInterfaceId lower).mapError
      (·.prepend ("in lower 64 bits of link-local IPv6 address '" ++ Ipv6Address.toString ipv6 ++ "': "))

end Addresses

theorem getLsbD_middle (j : Nat) :
    (0x000000FFFE000000 : BitVec 64).getLsbD j = (decide (24 ≤ j) && (0xFFFE#16).getLsbD (j - 24)) := by
  have hmiddle : (0x000000FFFE000000 : BitVec 64) = (0xFFFE#16).setWidth 64 <<< 24 := by decide
  rw [hmiddle,BitVec.getLsbD_shiftLeft,BitVec.getLsbD_setWidth]
  by_cases hj : j < 40
  · simp [show j < 64 by omega,show j - 24 < 64 by omega,← decide_not]
  · rw [BitVec.getLsbD_of_ge (0xFFFE#16) (j - 24) (by omega),Bool.and_false,Bool.and_false,Bool.and_false]

theorem getLsbD_spread (mac : BitVec 48) (j : Nat) : (spread (mac.setWidth 64)).getLsbD j =
    if j < 24 then mac.getLsbD j else if j < 40 then (0xFFFE#16).getLsbD (j - 24) else mac.getLsbD (j - 16) := by
  have hlow : (0x000000FFFFFF : BitVec 64) = (BitVec.allOnes 24).setWidth 64 <<< 0 := by decide
  have hhigh : (0xFFFFFF000000 : BitVec 64) = (BitVec.allOnes 24).setWidth 64 <<< 24 := by decide
  rw [spread,hlow,hhigh,BitVec.getLsbD_or,BitVec.getLsbD_or,getLsbD_middle,BitVec.getLsbD_shiftLeft,BitVec.getLsbD_shiftLeft,
    BitVec.getLsbD_and,BitVec.getLsbD_and,getLsbD_onesAt _ _ _ (by decide),getLsbD_onesAt _ _ _ (by decide),
    BitVec.getLsbD_setWidth,BitVec.getLsbD_setWidth]
  by_cases hj : j < 24
  · simp [hj,show j < 64 by omega,show ¬ 24 ≤ j - 16 by omega]
  · by_cases hj' : j < 40
    · simp [hj,hj',show 24 ≤ j by omega,show ¬ 24 ≤ j - 16 by omega]
    · have hzero : (0xFFFE#16).getLsbD (j - 24) = false := BitVec.getLsbD_of_ge _ _ (by omega)
      rw [hzero]
      by_cases hlast : j < 64
      · simp [hj,hj',hlast,show j - 16 < 64 by omega,show ¬ j < 16 by omega,show 24 ≤ j - 16 by omega,show j - 16 < 48 by omega]
      · simp [hj,hj',hlast,BitVec.getLsbD_of_ge mac (j - 16) (by omega)]

theorem getLsbD_joined (id : BitVec 64) (j : Nat) : (joined id).getLsbD j =
    (decide (j < 48) && if j < 24 then id.getLsbD j else id.getLsbD (j + 16)) := by
  have hlow : (0x0000000000FFFFFF : BitVec 64) = (BitVec.allOnes 24).setWidth 64 <<< 0 := by decide
  have hhigh : (0xFFFFFF0000000000 : BitVec 64) = (BitVec.allOnes 24).setWidth 64 <<< 40 := by decide
  rw [joined,hlow,hhigh,BitVec.getLsbD_setWidth,BitVec.getLsbD_or,BitVec.getLsbD_ushiftRight,BitVec.getLsbD_ushiftRight,
    BitVec.getLsbD_and,BitVec.getLsbD_and,getLsbD_onesAt _ _ _ (by decide),getLsbD_onesAt _ _ _ (by decide),Nat.zero_add,Nat.add_comm 16]
  by_cases hj : j < 24
  · simp [hj,show ¬ 40 ≤ j + 16 by omega]
  · by_cases hlast : j < 48
    · simp [hj,hlast,show 40 ≤ j + 16 by omega,show j + 16 < 64 by omega]
    · simp [hlast]

theorem getLsbD_middleBytes (id : BitVec 64) (j : Nat) :
    (id &&& 0x000000FFFF000000).getLsbD j = (id.getLsbD j && decide (24 ≤ j ∧ j < 40)) := by
  have hmask : (0x000000FFFF000000 : BitVec 64) = (BitVec.allOnes 16).setWidth 64 <<< 24 := by decide
  rw [hmask,BitVec.getLsbD_and,getLsbD_onesAt _ _ _ (by decide)]

private theorem joined_spread (mac : BitVec 48) : joined (spread (mac.setWidth 64)) = mac := by
  apply BitVec.eq_of_getLsbD_eq
  intro j hj
  rw [getLsbD_joined,getLsbD_spread,getLsbD_spread]
  by_cases hlow : j < 24
  · simp [hlow,hj]
  · simp [hlow,hj,show ¬ j + 16 < 24 by omega,show ¬ j + 16 < 40 by omega]

private theorem middleBytes_spread (mac : BitVec 48) : spread (mac.setWidth 64) &&& 0x000000FFFF000000 = 0x000000FFFE000000 := by
  apply BitVec.eq_of_getLsbD_eq
  intro j hj
  rw [getLsbD_middleBytes,getLsbD_spread,getLsbD_middle]
  by_cases hlow : j < 24
  · simp [hlow,show ¬ 24 ≤ j by omega]
  · by_cases hhigh : j < 40
    · simp [hlow,hhigh,show 24 ≤ j by omega]
    · simp [hlow,hhigh,BitVec.getLsbD_of_ge (0xFFFE#16) (j - 24) (by omega)]

theorem spread_joined {id : BitVec 64} (h : id &&& 0x000000FFFF000000 = 0x000000FFFE000000) : spread ((joined id).setWidth 64) = id := by
  apply BitVec.eq_of_getLsbD_eq
  intro j hj
  have hbit : (id &&& 0x000000FFFF000000).getLsbD j = (0x000000FFFE000000 : BitVec 64).getLsbD j := by rw [h]
  rw [getLsbD_middleBytes,getLsbD_middle] at hbit
  rw [getLsbD_spread,getLsbD_joined,getLsbD_joined]
  by_cases hlow : j < 24
  · simp [hlow,show j < 48 by omega]
  · by_cases hhigh : j < 40
    · rw [if_neg hlow,if_pos hhigh]
      simpa [hlow,hhigh,show 24 ≤ j by omega] using hbit.symm
    · rw [if_neg hlow,if_neg hhigh,if_neg (by omega),show j - 16 + 16 = j by omega,decide_eq_true (by omega),Bool.true_and]

private theorem toInterfaceId_eq (bits : BitVec 48) : toInterfaceId bits = spread ((bits ^^^ 0x020000000000).setWidth 64) := by
  rw [BitVec.setWidth_xor]
  rfl

private theorem ofInterfaceId_eq_ok {id : BitVec 64} {bits : BitVec 48} : ofInterfaceId id = .ok bits ↔ id = toInterfaceId bits := by
  rw [ofInterfaceId,toInterfaceId_eq]
  by_cases hmiddle : id &&& 0x000000FFFF000000 = 0x000000FFFE000000
  · rw [if_neg (not_not_intro hmiddle),Except.ok.injEq]
    constructor
    · rintro rfl
      rw [BitVec.xor_assoc,BitVec.xor_self,BitVec.xor_zero,spread_joined hmiddle]
    · rintro rfl
      rw [joined_spread,BitVec.xor_assoc,BitVec.xor_self,BitVec.xor_zero]
  · rw [if_pos hmiddle]
    refine iff_of_false (by simp) fun hid => hmiddle ?_
    rw [hid]
    exact middleBytes_spread _

private theorem toLinkLocalIpv6Address_eq (bits : BitVec 48) :
    toLinkLocalIpv6Address bits = (0xFE80000000000000 : BitVec 64) ++ toInterfaceId bits := by
  rw [BitVec.append_def,toLinkLocalIpv6Address]
  congr 1

private theorem eq_append_iff {ipv6 : BitVec 128} {upper lower : BitVec 64} : ipv6 = upper ++ lower ↔
    (ipv6 >>> 64).setWidth 64 = upper ∧ (ipv6 &&& 0xFFFFFFFFFFFFFFFF).setWidth 64 = lower := by
  have hlow : (0xFFFFFFFFFFFFFFFF : BitVec 128).setWidth 64 = BitVec.allOnes 64 := by decide
  rw [BitVec.setWidth_ushiftRight_eq_extractLsb,BitVec.setWidth_and,hlow,BitVec.and_allOnes]
  constructor
  · rintro rfl
    exact ⟨BitVec.extractLsb'_append_eq_left,BitVec.setWidth_append_eq_right⟩
  · rintro ⟨rfl,rfl⟩
    have hhalves : ∀ v : BitVec (64 + 64),v = v.extractLsb' 64 64 ++ v.extractLsb' 0 64 := fun v =>
      BitVec.extractLsb'_append_extractLsb'.symm
    rw [BitVec.setWidth_eq_extractLsb' (by decide)]
    exact hhalves ipv6

theorem ofLinkLocalIpv6Address_eq_ok [InetText] {ipv6 : BitVec 128} {bits : BitVec 48} :
    ofLinkLocalIpv6Address ipv6 = .ok bits ↔ ipv6 = toLinkLocalIpv6Address bits := by
  rw [toLinkLocalIpv6Address_eq,eq_append_iff,ofLinkLocalIpv6Address]
  by_cases hupper : (ipv6 >>> 64).setWidth 64 = (0xFE80000000000000 : BitVec 64)
  · rw [if_neg (not_not_intro hupper),← ofInterfaceId_eq_ok]
    cases ofInterfaceId ((ipv6 &&& 0xFFFFFFFFFFFFFFFF).setWidth 64) with
    | error e => exact iff_of_false (by simp [Except.mapError]) (by simp)
    | ok found => exact ⟨fun h => ⟨hupper,h⟩,fun h => h.2⟩
  · rw [if_pos hupper]
    exact iff_of_false (by simp) fun h => hupper h.1

end MacAddress

/-- What conversions, masks and comparisons of addresses guarantee. -/
structure NetworkAddressLaws [InetText] : Prop where
  macText : ∀ a,MacAddress.ofString (MacAddress.toString a) = .ok a
  ipv4Text : ∀ a,Ipv4Address.ofString (Ipv4Address.toString a) = .ok a
  macBytes : BytesRoundTrip AddressType.mac.numBits
  ipv4Bytes : BytesRoundTrip AddressType.ipv4.numBits
  lengthFound : ∀ (numBits : Nat) (toString : BitVec numBits → String) (p : Int32),0 ≤ p.toInt → p.toInt ≤ numBits →
    ∃ mask,maskForPrefixLength numBits p = .ok mask ∧ toLpmPrefixLength toString mask = some (.ok p)
  masksOnly : ∀ (numBits : Nat) (toString : BitVec numBits → String) (a : BitVec numBits) (p : Int32),
    toLpmPrefixLength toString a = some (.ok p) → maskForPrefixLength numBits p = .ok a
  ordered : ∀ (kind : AddressType) (a b : BitVec kind.numBits),OrderedByValue a b
  linkLocal : ∀ a,MacAddress.ofLinkLocalIpv6Address (MacAddress.toLinkLocalIpv6Address a) = .ok a
  linkLocalOnly : ∀ ipv6,(∃ a,MacAddress.ofLinkLocalIpv6Address ipv6 = .ok a) ↔ ∃ a,MacAddress.toLinkLocalIpv6Address a = ipv6

theorem networkAddressLaws [InetText] : NetworkAddressLaws where
  macText := MacAddress.text_read_back
  ipv4Text := Ipv4Address.text_read_back
  macBytes := (bytesRoundTrip_iff (by decide)).mpr (by decide)
  ipv4Bytes := (bytesRoundTrip_iff (by decide)).mpr (by decide)
  lengthFound := by
    intro numBits toString p hpos hle
    have hmask := maskForPrefixLength_ok hpos hle
    exact ⟨_,hmask,toLpmPrefixLength_eq_ok.mpr hmask⟩
  masksOnly := fun _ _ _ _ => toLpmPrefixLength_eq_ok.mp
  ordered := by
    intro kind a b
    apply orderedByValue
    cases kind <;> decide
  linkLocal := fun _ => MacAddress.ofLinkLocalIpv6Address_eq_ok.mpr rfl
  linkLocalOnly := fun _ => exists_congr fun _ => MacAddress.ofLinkLocalIpv6Address_eq_ok.trans eq_comm

end SonicPins.Netaddr
