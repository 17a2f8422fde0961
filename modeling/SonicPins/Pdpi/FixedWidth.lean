import SonicPins.Pdpi.NormalForm

/-! Numbers of a fixed width as byte strings: prefix masks and unsigned integers. -/
namespace SonicPins.Pdpi
open Lib

section Masks

/-- The number of `w` bits whose top `p` bits are one. -/
def prefixMask (w p : Nat) : Nat := 2 ^ w - 2 ^ (w - p)

theorem prefixMask_lt {w : Nat} (p : Nat) : prefixMask w p < 2 ^ w := by
  have hpos : 0 < 2 ^ (w - p) := by positivity
  have hfull : 0 < 2 ^ w := by positivity
  unfold prefixMask
  omega

private theorem prefixMask_mod (w p : Nat) : prefixMask w p % 2 ^ (w - p) = 0 := by
  have hdvd : 2 ^ (w - p) ∣ 2 ^ w := pow_dvd_pow 2 (Nat.sub_le w p)
  exact Nat.mod_eq_zero_of_dvd (Nat.dvd_sub hdvd (dvd_refl _))

theorem prefixMask_add (w k p : Nat) : prefixMask (w + k) (k + p) = (2 ^ k - 1) * 2 ^ w + prefixMask w p := by
  have hle : 2 ^ (w - p) ≤ 2 ^ w := Nat.pow_le_pow_right (by decide) (Nat.sub_le w p)
  have hge : 2 ^ w ≤ 2 ^ k * 2 ^ w := Nat.le_mul_of_pos_left _ (by positivity)
  unfold prefixMask
  rw [show w + k - (k + p) = w - p by omega,pow_add,Nat.sub_mul,Nat.one_mul,Nat.mul_comm]
  omega

theorem prefixMask_top {k p : Nat} (w : Nat) (h : p ≤ k) : prefixMask (w + k) p = prefixMask k p * 2 ^ w := by
  unfold prefixMask
  rw [show w + k - p = k - p + w by omega,Nat.sub_mul,← pow_add,← pow_add,Nat.add_comm w k]

private theorem prefixMask_mod_ne {w p k : Nat} (hpos : 0 < p) (hp : p ≤ w) (hk : w - p < k) : prefixMask w p % 2 ^ k ≠ 0 := by
  intro h
  have htop := prefixMask_top (w - p) (le_refl p)
  rw [Nat.sub_add_cancel hp] at htop
  have hdvd : 2 ^ (w - p) * 2 ∣ 2 ^ (w - p) * prefixMask p p := by
    rw [← pow_succ,Nat.mul_comm,← htop]
    exact (pow_dvd_pow 2 hk).trans (Nat.dvd_of_mod_eq_zero h)
  have heven := Nat.dvd_of_mul_dvd_mul_left (by positivity) hdvd
  have hfull : 2 ∣ 2 ^ p := dvd_pow_self 2 (by omega)
  have hone : 1 ≤ 2 ^ p := Nat.one_le_two_pow
  unfold prefixMask at heven
  rw [Nat.sub_self] at heven
  omega

theorem prefixMask_zero (w : Nat) : prefixMask w 0 = 0 := by simp [prefixMask]

theorem bytesToNat_prefixMaskBytes (n : Nat) (prefixLen : Int) :
    bytesToNat (prefixMaskBytes n prefixLen) = prefixMask (8 * n) prefixLen.toNat := by
  induction n generalizing prefixLen with
  | zero => simp [prefixMaskBytes,prefixMask]
  | succ n ih =>
    rw [prefixMaskBytes,bytesToNat_cons,length_prefixMaskBytes,ih,pow_256,Nat.mul_succ]
    by_cases hfull : prefixLen ≥ 8
    · have hsplit : prefixLen.toNat = 8 + (prefixLen - 8).toNat := by omega
      rw [if_pos hfull,hsplit,prefixMask_add]
      rfl
    · have hrest : (prefixLen - 8).toNat = 0 := by omega
      rw [if_neg hfull,hrest,prefixMask_zero,prefixMask_top _ (by omega)]
      by_cases hpos : prefixLen > 0
      · obtain ⟨q,rfl⟩ := Int.eq_ofNat_of_zero_le hpos.le
        have hq : q < 8 := by omega
        rw [if_pos hpos]
        simp only [Int.toNat_natCast,UInt8.toNat_ofNat',prefixMask]
        interval_cases q <;> rfl
      · have hzero : prefixLen.toNat = 0 := by omega
        rw [if_neg hpos,hzero]
        rfl

theorem prefixLenToMask_eq {w : Nat} {p : Int} (h : p ≤ w) :
    prefixLenToMask p w = .ok (natToBytes ((w + 7) / 8) (prefixMask w (max p.toNat (w % 8)))) := by
  have hok : ∃ mask,prefixLenToMask p w = .ok mask ∧ bytesToNat mask = prefixMask w (max p.toNat (w % 8)) := by
    unfold prefixLenToMask
    rw [if_neg (by omega)]
    simp only
    by_cases hpartial : w % 8 ≠ 0
    · refine ⟨_,if_pos hpartial,?_⟩
      have hbyte : (UInt8.ofNat (255 / 2 ^ (8 - w % 8))).toNat = 2 ^ (w % 8) - 1 := by
        have hlt := Nat.mod_lt w (show 8 > 0 by decide)
        generalize w % 8 = r at hlt
        interval_cases r <;> rfl
      have hwidth : w = 8 * (w / 8) + w % 8 := (Nat.div_add_mod w 8).symm
      have hlong : max p.toNat (w % 8) = w % 8 + (p - (w % 8 : Nat)).toNat := by omega
      rw [bytesToNat_cons,length_prefixMaskBytes,bytesToNat_prefixMaskBytes,pow_256,hbyte,hlong]
      conv_rhs => rw [hwidth,Nat.mul_add_mod,Nat.mod_mod,prefixMask_add]
    · refine ⟨_,if_neg hpartial,?_⟩
      have hwidth : 8 * (w / 8) = w := by omega
      rw [bytesToNat_prefixMaskBytes,hwidth,not_not.mp hpartial,Nat.max_zero]
  obtain ⟨mask,hmask,hvalue⟩ := hok
  exact hmask.trans (congrArg Except.ok (eq_natToBytes (length_prefixLenToMask hmask) hvalue))

/-- The mask of `p` bits is the number whose top `p` bits are one. -/
def ExactMask (w p : Nat) : Prop := prefixLenToMask p w = .ok (natToBytes ((w + 7) / 8) (prefixMask w p))

/-- An accepted LPM match of this width and prefix stores a value without bits below the prefix. -/
def LpmMasked [InetText] (w : Nat) (p : Int32) : Prop :=
  ∀ (options : TranslationOptions) (d : IrMatchFieldDefinition) (fieldId : UInt32) (value : Bytes) (ir : IrMatch),
    d.matchField.bitwidth = w → piMatchFieldToIr options d ⟨fieldId,.lpm value p⟩ = .ok ir →
    bytesToNat value < 2 ^ w ∧ bytesToNat value % 2 ^ (w - p.toInt).toNat = 0 ∧
      ∃ v,arbitraryByteStringToIrValue d.format w (natToBytes ((w + 7) / 8) (bytesToNat value)) = .ok v ∧ ir.value = .lpm v p

/-- The prefix covers the leading partial byte, if there is one. -/
def CoversTop (w : Nat) (p : Int) : Prop := w % 8 = 0 ∨ ((w % 8 : Nat) : Int) ≤ p

instance (w : Nat) (p : Int) : Decidable (CoversTop w p) := inferInstanceAs (Decidable (_ ∨ _))

private theorem prefixMask_injective {w p q : Nat} (hp : p ≤ w) (hq : q ≤ w) (h : prefixMask w p = prefixMask w q) : p = q := by
  have hpw : 2 ^ (w - p) ≤ 2 ^ w := Nat.pow_le_pow_right (by decide) (Nat.sub_le w p)
  have hqw : 2 ^ (w - q) ≤ 2 ^ w := Nat.pow_le_pow_right (by decide) (Nat.sub_le w q)
  unfold prefixMask at h
  have heq := Nat.pow_right_injective (le_refl 2) (show 2 ^ (w - p) = 2 ^ (w - q) by omega)
  omega

theorem exactMask_iff {w p : Nat} (hp : p ≤ w) : ExactMask w p ↔ CoversTop w p := by
  have htop : max p (w % 8) ≤ w := max_le hp (Nat.mod_le w 8)
  have hcomputed := prefixLenToMask_eq (w := w) (p := p) (by omega)
  rw [Int.toNat_natCast] at hcomputed
  unfold ExactMask CoversTop
  rw [hcomputed,Except.ok.injEq]
  constructor
  · intro h
    have hvalue := congrArg bytesToNat h
    rw [bytesToNat_natToBytes (lt_pow_bytes (prefixMask_lt _)),bytesToNat_natToBytes (lt_pow_bytes (prefixMask_lt _))] at hvalue
    have := prefixMask_injective htop hp hvalue
    omega
  · intro h
    rw [show max p (w % 8) = p by omega]

private theorem masked_of_intersection {w : Nat} {p : Int} (hp : p ≤ w) (htop : CoversTop w p) {v : Nat} (hv : v < 2 ^ w)
    {mask : Bytes} (hmask : prefixLenToMask p w = .ok mask)
    (h : intersection (natToBytes ((w + 7) / 8) v) mask = .ok (natToBytes ((w + 7) / 8) v)) :
    v % 2 ^ (w - p).toNat = 0 := by
  rw [prefixLenToMask_eq hp] at hmask
  cases hmask
  have hvalue := congrArg bytesToNat (intersection_eq_ok.mp h).2
  rw [bytesToNat_zipWith_and (by simp),bytesToNat_natToBytes (lt_pow_bytes hv),
    bytesToNat_natToBytes (lt_pow_bytes (prefixMask_lt _))] at hvalue
  rcases le_or_gt 0 p with hpos | hneg
  · have hlong : max p.toNat (w % 8) = p.toNat := by
      rcases htop with hzero | hle <;> omega
    have hbits : (w - p).toNat = w - p.toNat := by omega
    rw [hlong] at hvalue
    rw [hbits,← hvalue,Nat.and_mod_two_pow,prefixMask_mod,Nat.and_zero]
  · have hwhole : w % 8 = 0 := htop.resolve_right (by omega)
    rw [hwhole,show max p.toNat 0 = 0 by omega,prefixMask_zero,Nat.and_zero] at hvalue
    rw [← hvalue,Nat.zero_mod]

variable [InetText]

theorem piMatchFieldToIr_eq_ok {options : TranslationOptions} {d : IrMatchFieldDefinition} {m : FieldMatch} {ir : IrMatch} :
    piMatchFieldToIr options d m = .ok ir ↔ unsupportedReason "Match field" d.isUnsupported options = [] ∧
      ir.name = d.matchField.name ∧ piMatchValueToIr d m.value = .ok ir.value := by
  obtain ⟨name,v⟩ := ir
  unfold piMatchFieldToIr
  cases hvalue : piMatchValueToIr d m.value with
  | error reasons => simp
  | ok v' =>
    simp only [unlessInvalid_eq_ok,IrMatch.mk.injEq,Except.ok.injEq]
    rw [eq_comm (a := name)]

/-- A field of any width that takes LPM matches. -/
def lpmField (w : Nat) : IrMatchFieldDefinition := { matchField := { id := 1,name := "field",bitwidth := w,matchType := .lpm } }

private theorem mask_accepted {w : Nat} (hw : 0 < w) {p : Int32} (hzero : p ≠ 0) (hp : p.toInt ≤ w) :
    ∃ ir,piMatchFieldToIr {} (lpmField w)
      ⟨1,.lpm (natToBytes ((w + 7) / 8) (prefixMask w (max p.toInt.toNat (w % 8)))) p⟩ = .ok ir := by
  have hlt := prefixMask_lt (w := w) (max p.toInt.toNat (w % 8))
  have hmask := prefixLenToMask_eq hp
  generalize prefixMask w (max p.toInt.toNat (w % 8)) = m at hlt hmask
  have hne : natToBytes ((w + 7) / 8) m ≠ [] := List.ne_nil_of_length_pos (by simp; omega)
  have hnormalized : arbitraryToNormalizedByteString (natToBytes ((w + 7) / 8) m) w = .ok (natToBytes ((w + 7) / 8) m) := by
    rw [arbitraryToNormalizedByteString_eq_ok hne hw,bytesToNat_natToBytes (lt_pow_bytes hlt)]
    exact ⟨hlt,rfl⟩
  have hself : intersection (natToBytes ((w + 7) / 8) m) (natToBytes ((w + 7) / 8) m) = .ok (natToBytes ((w + 7) / 8) m) := by
    rw [intersection_eq_ok,List.zipWith_self]
    simp
  have hir := (hex_of_bytes hne hw).mpr ⟨by rwa [bytesToNat_natToBytes (lt_pow_bytes hlt)],rfl⟩
  exact ⟨⟨"field",.lpm _ p⟩,piMatchFieldToIr_eq_ok.mpr ⟨rfl,rfl,piMatchValueToIr_eq_ok.mpr
    (.lpm rfl hzero (piLpmToIr_eq_ok.mpr ⟨_,_,_,hmask,hnormalized,hself,hir,rfl⟩))⟩⟩

theorem lpmMasked_iff {w : Nat} (hw : 0 < w) (p : Int32) : LpmMasked w p ↔ p = 0 ∨ CoversTop w p.toInt := by
  constructor
  · intro h
    by_contra hcond
    obtain ⟨hzero,htop⟩ := not_or.mp hcond
    obtain ⟨haligned,hshort⟩ := not_or.mp htop
    have hle := Nat.mod_le w 8
    have hlt := Nat.mod_lt w (show 8 > 0 by decide)
    have hlong : max p.toInt.toNat (w % 8) = w % 8 := by omega
    obtain ⟨ir,hir⟩ := mask_accepted hw hzero (by omega)
    have hmasked := (h _ _ _ _ _ rfl hir).2.1
    rw [bytesToNat_natToBytes (lt_pow_bytes (prefixMask_lt _)),hlong] at hmasked
    exact prefixMask_mod_ne (by omega) hle (by omega) hmasked
  · rintro hcond options d fieldId value ir rfl hir
    obtain ⟨-,-,hvalue⟩ := piMatchFieldToIr_eq_ok.mp hir
    generalize ir.value = v at hvalue ⊢
    obtain ⟨_⟩ | ⟨-,hzero,hlpm⟩ | ⟨_⟩ | ⟨_⟩ := piMatchValueToIr_eq_ok.mp hvalue
    obtain ⟨mask,n,irValue,hmask,hn,hcommon,hirValue,rfl⟩ := piLpmToIr_eq_ok.mp hlpm
    have hp : p.toInt ≤ d.matchField.bitwidth := by
      by_contra hlong
      unfold prefixLenToMask at hmask
      rw [if_pos (by omega)] at hmask
      cases hmask
    obtain ⟨hv,rfl⟩ := (arbitraryToNormalizedByteString_eq_ok (normalized_pos hn).1 hw).mp hn
    exact ⟨hv,masked_of_intersection hp (hcond.resolve_left hzero) hv hmask hcommon,irValue,hirValue,rfl⟩

/-- Prefix masks are exact, and LPM values masked, when the prefix covers the leading partial byte. -/
theorem prefix_masks_iff {w : Nat} (hw : 0 < w) : (∀ p ≤ w,ExactMask w p ↔ CoversTop w p) ∧
    ∀ p : Int32,LpmMasked w p ↔ p = 0 ∨ CoversTop w p.toInt :=
  ⟨fun _ hp => exactMask_iff hp,lpmMasked_iff hw⟩

omit [InetText] in
theorem prefix_masks_of_bytes : letI := uncompressedInet
    (∀ p ≤ 32,ExactMask 32 p ↔ CoversTop 32 p) ∧ ∀ p : Int32,LpmMasked 32 p ↔ p = 0 ∨ CoversTop 32 p.toInt :=
  letI := uncompressedInet
  prefix_masks_iff (by decide)

omit [InetText] in
/-- A prefix of one bit of ten is masked with two. -/
theorem short_prefix_mask : letI := uncompressedInet
    prefixLenToMask 1 10 = .ok [3,0] ∧ natToBytes 2 (prefixMask 10 1) = [2,0] ∧ ¬ ExactMask 10 1 ∧
      piMatchFieldToIr {} (lpmField 10) ⟨1,.lpm [3,0] 1⟩ = .ok ⟨"field",.lpm (.hexStr "0x300") 1⟩ ∧ ¬ LpmMasked 10 1 := by
  let _ := uncompressedInet
  refine ⟨by decide,by decide,?_,by decide,?_⟩
  · rw [exactMask_iff (by decide)]
    decide
  · rw [lpmMasked_iff (by decide)]
    decide

end Masks

/-- The bytes of `value` in network order, in the smallest container that the width fits. -/
def uintBytes (value : UInt64) (bitwidth : Nat) : Bytes :=
  if bitwidth ≤ 8 then natToBytes 1 value.toUInt8.toNat
  else if bitwidth ≤ 16 then natToBytes 2 value.toUInt16.toNat
  else if bitwidth ≤ 32 then natToBytes 4 value.toUInt32.toNat
  else natToBytes 8 value.toNat

def uintToNormalizedByteString (value : UInt64) (bitwidth : Nat) : StatusOr Bytes :=
  if bitwidth = 0 ∨ bitwidth > 64 then
    .error (invalidArgument ("Cannot convert value with bitwidth " ++ natText bitwidth ++ " to ByteString."))
  else arbitraryToNormalizedByteString (uintBytes value bitwidth) bitwidth

def arbitraryByteStringToUint (bytes : Bytes) (bitwidth : Nat) : StatusOr UInt64 :=
  if bitwidth > 64 then
    .error (invalidArgument ("Cannot convert value with bitwidth " ++ natText bitwidth ++ " to uint."))
  else (arbitraryToNormalizedByteString bytes bitwidth).map fun stripped =>
    UInt64.ofNat (bytesToNat (List.replicate (8 - stripped.length) 0 ++ stripped))

/-- The value of a byte string; the empty one has none. -/
def byteStringValue (bytes : Bytes) : Option Nat := if bytes.isEmpty then none else some (bytesToNat bytes)

/-- The width of the container that holds values of `w` bits. -/
def containerBits (w : Nat) : Nat := if w ≤ 8 then 8 else if w ≤ 16 then 16 else if w ≤ 32 then 32 else 64

/-- An unsigned integer is encoded when it fits the width, and its encoding reads back. -/
structure UintEncodes (w : Nat) (v : UInt64) : Prop where
  fits : (∃ bytes,uintToNormalizedByteString v w = .ok bytes) ↔ v.toNat < 2 ^ w
  bytes : ∀ bytes,uintToNormalizedByteString v w = .ok bytes → bytes = natToBytes ((w + 7) / 8) v.toNat
  back : ∀ bytes,uintToNormalizedByteString v w = .ok bytes → arbitraryByteStringToUint bytes w = .ok v

variable {w : Nat} {v : UInt64} {bytes : Bytes}

private theorem uintBytes_value (v : UInt64) (w : Nat) :
    uintBytes v w ≠ [] ∧ bytesToNat (uintBytes v w) = v.toNat % 2 ^ containerBits w := by
  have hv := v.toNat_lt
  have hne {n : Nat} (m : Nat) (hn : 0 < n) : natToBytes n m ≠ [] := List.ne_nil_of_length_pos (by simpa using hn)
  unfold uintBytes containerBits
  split_ifs
  · exact ⟨hne _ (by decide),bytesToNat_natToBytes (v.toUInt8.toNat_lt)⟩
  · exact ⟨hne _ (by decide),bytesToNat_natToBytes (v.toUInt16.toNat_lt)⟩
  · exact ⟨hne _ (by decide),bytesToNat_natToBytes (v.toUInt32.toNat_lt)⟩
  · refine ⟨hne _ (by decide),?_⟩
    rw [bytesToNat_natToBytes (by omega),Nat.mod_eq_of_lt hv]

private theorem containerBits_ge (hw : w ≤ 64) : w ≤ containerBits w := by
  unfold containerBits
  split_ifs <;> omega

theorem uintToNormalizedByteString_eq_ok (hpos : 1 ≤ w) (hw : w ≤ 64) : uintToNormalizedByteString v w = .ok bytes ↔
    v.toNat % 2 ^ containerBits w < 2 ^ w ∧ bytes = natToBytes ((w + 7) / 8) (v.toNat % 2 ^ containerBits w) := by
  obtain ⟨hne,hvalue⟩ := uintBytes_value v w
  unfold uintToNormalizedByteString
  rw [if_neg (by omega),arbitraryToNormalizedByteString_eq_ok hne hpos,hvalue]

theorem arbitraryByteStringToUint_eq_ok (hpos : 1 ≤ w) (hw : w ≤ 64) : arbitraryByteStringToUint bytes w = .ok v ↔
    ∃ n,byteStringValue bytes = some n ∧ n < 2 ^ w ∧ v = UInt64.ofNat n := by
  unfold arbitraryByteStringToUint byteStringValue
  rw [if_neg (by omega),map_eq_ok]
  cases bytes with
  | nil => simp [arbitraryToNormalizedByteString]
  | cons b rest =>
    simp only [arbitraryToNormalizedByteString_eq_ok (List.cons_ne_nil b rest) hpos]
    constructor
    · rintro ⟨n,⟨hfits,rfl⟩,rfl⟩
      refine ⟨_,rfl,hfits,?_⟩
      rw [bytesToNat_zeros_append,bytesToNat_natToBytes (lt_pow_bytes hfits)]
    · rintro ⟨n,hn,hfits,rfl⟩
      cases hn
      refine ⟨_,⟨hfits,rfl⟩,?_⟩
      rw [bytesToNat_zeros_append,bytesToNat_natToBytes (lt_pow_bytes hfits)]

/-- Integers are encoded right unless the container cuts an oversized one down to the width;
byte strings are read exactly when their value fits. -/
theorem uint_encodes_iff (hpos : 1 ≤ w) (hw : w ≤ 64) :
    (∀ v : UInt64,UintEncodes w v ↔ v.toNat < 2 ^ w ∨ 2 ^ w ≤ v.toNat % 2 ^ containerBits w) ∧
      ∀ bytes,(∃ v,arbitraryByteStringToUint bytes w = .ok v) ↔ ∃ n,byteStringValue bytes = some n ∧ n < 2 ^ w := by
  constructor
  · intro v
    constructor
    · intro h
      by_contra hcond
      obtain ⟨hlarge,hsmall⟩ := not_or.mp hcond
      exact hlarge (h.fits.mp ⟨_,(uintToNormalizedByteString_eq_ok hpos hw).mpr ⟨Nat.lt_of_not_le hsmall,rfl⟩⟩)
    · rintro (hfits | hlarge)
      · have hmod : v.toNat % 2 ^ containerBits w = v.toNat :=
          Nat.mod_eq_of_lt (hfits.trans_le (Nat.pow_le_pow_right (by decide) (containerBits_ge hw)))
        have hencoded {b : Bytes} : uintToNormalizedByteString v w = .ok b ↔ _ := uintToNormalizedByteString_eq_ok hpos hw
        rw [hmod] at hencoded
        refine ⟨⟨fun _ => hfits,fun _ => ⟨_,hencoded.mpr ⟨hfits,rfl⟩⟩⟩,fun bytes h => (hencoded.mp h).2,?_⟩
        intro bytes h
        obtain ⟨-,rfl⟩ := hencoded.mp h
        refine (arbitraryByteStringToUint_eq_ok hpos hw).mpr ⟨v.toNat,?_,hfits,by simp⟩
        have hne : natToBytes ((w + 7) / 8) v.toNat ≠ [] := List.ne_nil_of_length_pos (by simp; omega)
        rw [byteStringValue,if_neg (by simpa using hne),bytesToNat_natToBytes (lt_pow_bytes hfits)]
      · have hfails {bytes : Bytes} : ¬ uintToNormalizedByteString v w = .ok bytes := fun h =>
          absurd ((uintToNormalizedByteString_eq_ok hpos hw).mp h).1 (Nat.not_lt.mpr hlarge)
        have hlarger : ¬ v.toNat < 2 ^ w := Nat.not_lt.mpr (hlarge.trans (Nat.mod_le _ _))
        exact ⟨⟨fun ⟨_,h⟩ => absurd h hfails,fun h => absurd h hlarger⟩,fun _ h => absurd h hfails,fun _ h => absurd h hfails⟩
  · intro bytes
    simp only [arbitraryByteStringToUint_eq_ok hpos hw]
    constructor
    · rintro ⟨-,n,hn,hfits,-⟩
      exact ⟨n,hn,hfits⟩
    · rintro ⟨n,hn,hfits⟩
      exact ⟨_,n,hn,hfits,rfl⟩

theorem byte_encodes_iff :
    (∀ v : UInt64,UintEncodes 8 v ↔ v.toNat < 2 ^ 8 ∨ 2 ^ 8 ≤ v.toNat % 2 ^ containerBits 8) ∧
      ∀ bytes,(∃ v,arbitraryByteStringToUint bytes 8 = .ok v) ↔ ∃ n,byteStringValue bytes = some n ∧ n < 2 ^ 8 :=
  uint_encodes_iff (by decide) (by decide)

/-- The first value that does not fit a byte is encoded as zero. -/
theorem oversized_byte : uintToNormalizedByteString 256 8 = .ok [0] ∧ arbitraryByteStringToUint [0] 8 = .ok 0 ∧
    ¬ UintEncodes 8 256 := by
  refine ⟨by decide,by decide,fun h => ?_⟩
  have hfits := h.fits.mp ⟨[0],by decide⟩
  revert hfits
  decide

end SonicPins.Pdpi
