import SonicPins.Packetlib.HexStrings

/-! Bit strings that bits are appended to and consumed from. An operation in which an `int`
leaves its range, or which reads outside the bits, has no result. -/
namespace SonicPins.StringEncodings
open Lib Pdpi
open Packetlib (int32 int32_of_lt int32_le int32_eq int32_bounds numHexDigits hexStringToByteString)

variable {numBits : Nat}

/-- The bits start at an index that is an `int`; those before it have been consumed. -/
structure BitString where
  bits : List Bool := []
  startIndex : Nat := 0
  startIndex_le : startIndex ≤ bits.length := by simp
  startIndex_lt : startIndex < 2 ^ 31 := by decide

namespace BitString

def appendBit (s : BitString) (bit : Bool) : BitString where
  bits := s.bits ++ [bit]
  startIndex := s.startIndex
  startIndex_le := s.startIndex_le.trans (by simp)
  startIndex_lt := s.startIndex_lt

/-- The most significant bit first. -/
def pushBits {numBits : Nat} (s : BitString) (bits : BitVec numBits) : BitString :=
  (List.range numBits).foldl (fun s i => s.appendBit (bits.getLsbD (numBits - 1 - i))) s

/-- The index of the bit is an `int`. -/
def appendBits {numBits : Nat} (s : BitString) (bits : BitVec numBits) : Option BitString :=
  if 2 ^ 31 ≤ numBits then none else some (s.pushBits bits)

/-- The index of the byte is an `int`. -/
def appendBytes (s : BitString) (bytes : Bytes) : Option BitString :=
  if 2 ^ 31 ≤ bytes.length then none else some (bytes.foldl (fun s byte => s.pushBits byte.toBitVec) s)

def appendHexString (s : BitString) (hexString : String) : Option (StatusOr Unit × BitString) :=
  match hexStringToByteString hexString with
  | .error status => some (.error status,s)
  | .ok bytes => (s.appendBytes bytes).map fun s => (.ok (),s)

/-- An `int`, so not the number of bits of a very long string. -/
def size (s : BitString) : Int := int32 (s.bits.length - s.startIndex : Nat)

def consume (s : BitString) (numBits : Int) : Option (StatusOr Unit × BitString) :=
  if numBits < 0 then some (.error (invalidArgument ("Cannot consume " ++ decimal numBits ++ " bits.")),s)
  else if h : s.size < numBits then
    some (.error ⟨.failedPrecondition,"Only " ++ decimal s.size ++ " bits left, but attempted to consume " ++ decimal numBits ++
      " bits."⟩,s)
  else if hstart : s.startIndex + numBits.toNat < 2 ^ 31 then
    some (.ok (),{
      bits := s.bits
      startIndex := s.startIndex + numBits.toNat
      startIndex_le := by
        have hle := int32_le (s.bits.length - s.startIndex)
        have hstart_le := s.startIndex_le
        unfold size at h
        omega
      startIndex_lt := hstart })
  else none

/-- The bits are written from the most significant one on. -/
def consumeBitset (s : BitString) (numBits : Nat) : Option (StatusOr (BitVec numBits) × BitString) :=
  (s.consume (int32 numBits)).bind fun (status,rest) =>
    match status with
    | .error e => some (.error e,rest)
    | .ok () =>
      if 2 ^ 31 ≤ numBits ∨ s.bits.length < s.startIndex + numBits then none
      else
        some (.ok ((List.range numBits).foldl (fun result i => if (s.bits.getD (s.startIndex + i) false) then
          result ||| BitVec.twoPow numBits (numBits - i - 1) else result) 0),rest)

/-- A bit is shifted in from the left. -/
def shiftIn (character : Nat) (bit : Bool) : Nat := character >>> 1 ||| bit.toNat <<< 7

/-- The byte counted from the end, with so many bits as it has; the first byte may have fewer than eight. -/
def byteFromEnd (bits : List Bool) (start numBits byte : Nat) : Nat :=
  let count := min 8 (numBits - byte * 8)
  let character := (List.range count).foldl
    (fun character bit => shiftIn character (bits.getD (start + numBits - 1 - (byte * 8 + bit)) false)) 0
  (List.range (8 - count)).foldl (fun character _ => character >>> 1) character

/-- The digits of a byte with the last one first, a single one for up to four bits. -/
def reversedHex (character count : Nat) : List Char :=
  if count ≤ 4 then [Nat.digitChar (character % 16)] else [Nat.digitChar (character % 16),Nat.digitChar (character / 16)]

def toHexStringFrom (s : BitString) (start numBits : Nat) : Option (List Char) :=
  if 2 ^ 31 ≤ numBits + 7 ∨ 2 ^ 31 ≤ start + numBits ∨ s.bits.length < start + numBits then none
  else
    some (['0','x'] ++ ((List.range ((numBits + 7) / 8)).flatMap fun byte =>
      reversedHex (byteFromEnd s.bits start numBits byte) (min 8 (numBits - byte * 8))).reverse)

def peekHexString (s : BitString) (numBits : Int) : Option (StatusOr (List Char) × BitString) :=
  if numBits < 0 then some (.error (invalidArgument ("Cannot peek " ++ decimal numBits ++ " bits.")),s)
  else if s.size < numBits then
    some (.error ⟨.failedPrecondition,"Only " ++ decimal s.size ++ " bits left, but attempted to peek " ++ decimal numBits ++
      " bits."⟩,s)
  else (s.toHexStringFrom s.startIndex numBits.toNat).map fun text => (.ok text,s)

/-- The bits that were consumed end where the rest starts. -/
def consumeHexString (s : BitString) (numBits : Int) : Option (StatusOr (List Char) × BitString) :=
  (s.consume numBits).bind fun (status,rest) =>
    match status with
    | .error e => some (.error e,rest)
    | .ok () => (rest.toHexStringFrom (rest.startIndex - numBits.toNat) numBits.toNat).map fun text => (.ok text,rest)

/-- What appending gives: more bits, read from where they were read before. -/
structure Extends (s : BitString) (more : List Bool) (t : BitString) : Prop where
  bits : t.bits = s.bits ++ more
  startIndex : t.startIndex = s.startIndex

theorem Extends.refl (s : BitString) : Extends s [] s := ⟨(List.append_nil _).symm,rfl⟩

theorem Extends.trans {s t u : BitString} {more more' : List Bool} (h : Extends s more t) (h' : Extends t more' u) :
    Extends s (more ++ more') u :=
  ⟨by rw [h'.bits,h.bits,List.append_assoc],h'.startIndex.trans h.startIndex⟩

theorem foldl_extends {α : Type} (push : BitString → α → BitString) (toBits : α → List Bool)
    (h : ∀ s a,Extends s (toBits a) (push s a)) (s : BitString) (l : List α) : Extends s (l.flatMap toBits) (l.foldl push s) := by
  induction l generalizing s with
  | nil => exact .refl s
  | cons a l ih =>
    rw [List.flatMap_cons,List.foldl_cons]
    exact (h s a).trans (ih _)

theorem map_testBit (numBits v : Nat) : (List.range numBits).map (fun i => v.testBit (numBits - 1 - i)) = natToBits numBits v := by
  induction numBits generalizing v with
  | zero => rfl
  | succ numBits ih =>
    have hlow : v.testBit 0 = decide (v % 2 = 1) := Nat.testBit_zero v
    rw [List.range_succ,List.map_append,List.map_singleton,natToBits,← ih,← hlow,Nat.add_sub_cancel,Nat.sub_self]
    congr 1
    apply List.map_congr_left
    intro i hi
    have hlt := List.mem_range.mp hi
    rw [Nat.testBit_div_two,show numBits - 1 - i + 1 = numBits - i by omega]

theorem pushBits_extends (s : BitString) (bits : BitVec numBits) :
    Extends s (natToBits numBits bits.toNat) (s.pushBits bits) := by
  have hpush := foldl_extends (fun s i => s.appendBit (bits.getLsbD (numBits - 1 - i)))
    (fun i => [bits.getLsbD (numBits - 1 - i)]) (fun s i => ⟨rfl,rfl⟩) s (List.range numBits)
  rw [← List.map_eq_flatMap] at hpush
  rw [← map_testBit]
  exact hpush

private theorem pushBytes_extends (s : BitString) (bytes : Bytes) :
    Extends s (bytesToBits bytes) (bytes.foldl (fun s byte => s.pushBits byte.toBitVec) s) :=
  foldl_extends _ _ (fun s byte => pushBits_extends s byte.toBitVec) s bytes

section Digits
variable {bits : List Bool}

private theorem testBit_bitsToNat (bits : List Bool) (k : Nat) (hk : k < bits.length) :
    (bitsToNat bits).testBit k = bits.getD (bits.length - 1 - k) false := by
  induction bits using List.reverseRecOn generalizing k with
  | nil => exact absurd hk (by simp)
  | append_singleton bits b ih =>
    rw [List.length_append,List.length_singleton] at hk ⊢
    rw [bitsToNat_concat]
    cases k with
    | zero =>
      rw [Nat.testBit_zero,Nat.add_sub_cancel,Nat.sub_zero,List.getD_eq_getElem?_getD,List.getElem?_concat_length]
      cases b <;> simp
    | succ k =>
      have hdiv : (bitsToNat bits * 2 + b.toNat) / 2 = bitsToNat bits := by
        have hb := b.toNat_le
        omega
      rw [Nat.testBit_succ,hdiv,ih k (by omega),show bits.length + 1 - 1 - (k + 1) = bits.length - 1 - k by omega,
        List.getD_eq_getElem?_getD,List.getD_eq_getElem?_getD,List.getElem?_append_left (by omega)]

theorem shiftIn_eq {character : Nat} (h : character < 256) (bit : Bool) : shiftIn character bit = character / 2 + 128 * bit.toNat := by
  have hhalf : character >>> 1 < 2 ^ 7 := by
    rw [Nat.shiftRight_eq_div_pow]
    omega
  rw [shiftIn,Nat.or_comm,← Nat.shiftLeft_add_eq_or_of_lt hhalf,Nat.shiftLeft_eq,Nat.shiftRight_eq_div_pow]
  omega

private theorem foldl_shiftIn (w : Nat) {count : Nat} (h : count ≤ 8) :
    (List.range count).foldl (fun character bit => shiftIn character (w.testBit bit)) 0 = w % 2 ^ count * 2 ^ (8 - count) := by
  induction count with
  | zero => simp [Nat.mod_one]
  | succ count ih =>
    have hlt : w % 2 ^ count * 2 ^ (8 - count) < 256 := by
      calc w % 2 ^ count * 2 ^ (8 - count) < 2 ^ count * 2 ^ (8 - count) :=
            Nat.mul_lt_mul_of_pos_right (Nat.mod_lt _ (Nat.two_pow_pos _)) (Nat.two_pow_pos _)
        _ = 2 ^ 8 := by rw [← pow_add,show count + (8 - count) = 8 by omega]
    have hhalf : w % 2 ^ count * 2 ^ (8 - count) / 2 = w % 2 ^ count * 2 ^ (8 - (count + 1)) := by
      rw [show 8 - count = 8 - (count + 1) + 1 by omega,pow_succ,← Nat.mul_assoc,Nat.mul_div_cancel _ (by decide)]
    have htop : 2 ^ 7 = 2 ^ count * 2 ^ (8 - (count + 1)) := by
      rw [← pow_add,show count + (8 - (count + 1)) = 7 by omega]
    rw [List.range_succ,List.foldl_append,List.foldl_cons,List.foldl_nil,ih (by omega),shiftIn_eq hlt,hhalf,Nat.mod_pow_succ,
      ← Nat.toNat_testBit,Nat.add_mul,show 128 = 2 ^ 7 from rfl,htop]
    ring

private theorem foldl_shiftRight (character count : Nat) :
    (List.range count).foldl (fun character _ => character >>> 1) character = character / 2 ^ count := by
  induction count with
  | zero => simp
  | succ count ih =>
    rw [List.range_succ,List.foldl_append,ih,List.foldl_cons,List.foldl_nil,Nat.shiftRight_eq_div_pow,Nat.div_div_eq_div_mul,
      pow_one,← pow_succ]

def rangeValue (bits : List Bool) (start numBits : Nat) : Nat := bitsToNat ((bits.drop start).take numBits)

private theorem testBit_rangeValue {start k : Nat} (hrange : start + numBits ≤ bits.length) (hk : k < numBits) :
    (rangeValue bits start numBits).testBit k = bits.getD (start + numBits - 1 - k) false := by
  have hlength : ((bits.drop start).take numBits).length = numBits := by
    rw [List.length_take,List.length_drop]
    omega
  rw [rangeValue,testBit_bitsToNat _ _ (by omega),hlength,List.getD_eq_getElem?_getD,List.getD_eq_getElem?_getD,
    List.getElem?_take_of_lt (by omega),List.getElem?_drop,show start + (numBits - 1 - k) = start + numBits - 1 - k by omega]

theorem rangeValue_lt (bits : List Bool) (start numBits : Nat) : rangeValue bits start numBits < 2 ^ numBits := by
  refine (bitsToNat_lt _).trans_le (Nat.pow_le_pow_right (by decide) ?_)
  exact List.length_take_le _ _

theorem byteFromEnd_eq {start byte : Nat} (hrange : start + numBits ≤ bits.length) (hbyte : byte * 8 < numBits) :
    byteFromEnd bits start numBits byte = rangeValue bits start numBits / 256 ^ byte % 256 := by
  obtain ⟨count,hcount⟩ : ∃ count,count = min 8 (numBits - byte * 8) := ⟨_,rfl⟩
  have hplace : (256 : Nat) ^ byte = 2 ^ (byte * 8) := by
    rw [Nat.mul_comm,pow_mul]
    rfl
  have hfold : (List.range count).foldl
      (fun character bit => shiftIn character (bits.getD (start + numBits - 1 - (byte * 8 + bit)) false)) 0 =
      (List.range count).foldl (fun character bit =>
        shiftIn character ((rangeValue bits start numBits / 256 ^ byte).testBit bit)) 0 := by
    apply List.foldl_ext
    intro character bit hbit
    have hlt := List.mem_range.mp hbit
    rw [hplace,Nat.testBit_div_two_pow,Nat.add_comm bit,testBit_rangeValue hrange (by omega)]
  have hshort : rangeValue bits start numBits / 256 ^ byte % 2 ^ count = rangeValue bits start numBits / 256 ^ byte % 256 := by
    rcases Nat.lt_or_ge (numBits - byte * 8) 8 with hlast | hfull
    · have hvalue : rangeValue bits start numBits / 256 ^ byte < 2 ^ count := by
        rw [hplace,Nat.div_lt_iff_lt_mul (Nat.two_pow_pos _),← pow_add,show count + byte * 8 = numBits by omega]
        exact rangeValue_lt bits start numBits
      have hbound : 2 ^ count ≤ 2 ^ 8 := Nat.pow_le_pow_right (by decide) (by omega)
      rw [Nat.mod_eq_of_lt hvalue,Nat.mod_eq_of_lt (by omega)]
    · rw [show count = 8 by omega]
      rfl
  rw [byteFromEnd,← hcount,hfold,foldl_shiftIn _ (by omega),foldl_shiftRight,Nat.mul_div_cancel _ (Nat.two_pow_pos _),hshort]

/-- The digit at a place counted from the end. -/
def digitFromEnd (v j : Nat) : Char := Nat.digitChar (v / 16 ^ j % 16)

private theorem reverse_natToHexDigits (count v : Nat) : (natToHexDigits count v).reverse = (List.range count).map (digitFromEnd v) := by
  induction count generalizing v with
  | zero => rfl
  | succ count ih =>
    have hshift : digitFromEnd (v / 16) = fun j => digitFromEnd v (j + 1) := by
      funext j
      rw [digitFromEnd,digitFromEnd,Nat.div_div_eq_div_mul,← pow_succ']
    rw [natToHexDigits,List.reverse_append,ih,List.range_succ_eq_map,List.map_cons,List.map_map,hshift,digitFromEnd,pow_zero,Nat.div_one]
    rfl

theorem reversedHex_eq (v byte count : Nat) : reversedHex (v / 256 ^ byte % 256) count =
    if count ≤ 4 then [digitFromEnd v (2 * byte)] else [digitFromEnd v (2 * byte),digitFromEnd v (2 * byte + 1)] := by
  have hplace : (16 : Nat) ^ (2 * byte) = 256 ^ byte := by
    rw [pow_mul]
    rfl
  have hlow : v / 256 ^ byte % 256 % 16 = v / 256 ^ byte % 16 := by omega
  have hhigh : v / 256 ^ byte % 256 / 16 = v / 256 ^ byte / 16 % 16 := by omega
  rw [reversedHex,digitFromEnd,digitFromEnd,pow_succ,hplace,← Nat.div_div_eq_div_mul,hlow,hhigh]

private theorem flatMap_reversedHex (v count : Nat) :
    ((List.range count).flatMap fun byte => reversedHex (v / 256 ^ byte % 256) 8) = (List.range (2 * count)).map (digitFromEnd v) := by
  induction count with
  | zero => rfl
  | succ count ih =>
    rw [List.range_succ,List.flatMap_append,ih,List.flatMap_singleton,reversedHex_eq,if_neg (by decide),Nat.mul_succ,
      List.range_succ,List.range_succ,List.map_append,List.map_append,List.append_assoc]
    rfl

theorem toHexStringFrom_eq {s : BitString} {start : Nat} (hrange : start + numBits ≤ s.bits.length)
    (hcount : numBits + 7 < 2 ^ 31) (hend : start + numBits < 2 ^ 31) :
    s.toHexStringFrom start numBits =
      some (['0','x'] ++ natToHexDigits (numHexDigits numBits) (rangeValue s.bits start numBits)) := by
  obtain ⟨v,hv⟩ : ∃ v,v = rangeValue s.bits start numBits := ⟨_,rfl⟩
  obtain ⟨full,last,hlast,hbits⟩ : ∃ full last,last < 8 ∧ numBits = 8 * full + last :=
    ⟨numBits / 8,numBits % 8,Nat.mod_lt _ (by decide),(Nat.div_add_mod _ _).symm⟩
  have hfull : ((List.range full).flatMap fun byte =>
      reversedHex (byteFromEnd s.bits start numBits byte) (min 8 (numBits - byte * 8))) =
        (List.range (2 * full)).map (digitFromEnd v) := by
    rw [← flatMap_reversedHex]
    apply List.flatMap_congr
    intro byte hbyte
    have hlt := List.mem_range.mp hbyte
    rw [byteFromEnd_eq hrange (by omega),← hv,show min 8 (numBits - byte * 8) = 8 by omega]
  have hdigits : ((List.range ((numBits + 7) / 8)).flatMap fun byte =>
      reversedHex (byteFromEnd s.bits start numBits byte) (min 8 (numBits - byte * 8))) =
      (List.range (numHexDigits numBits)).map (digitFromEnd v) := by
    rcases Nat.eq_zero_or_pos last with rfl | hpos
    · rw [show (numBits + 7) / 8 = full by omega,show numHexDigits numBits = 2 * full by rw [numHexDigits]; omega,hfull]
    · rw [show (numBits + 7) / 8 = full + 1 by omega,List.range_succ,List.flatMap_append,hfull,List.flatMap_singleton,
        byteFromEnd_eq hrange (by omega),← hv,reversedHex_eq]
      by_cases hshort : last ≤ 4
      · rw [if_pos (by omega),show numHexDigits numBits = 2 * full + 1 by rw [numHexDigits]; omega,List.range_succ,List.map_append]
        rfl
      · rw [if_neg (by omega),show numHexDigits numBits = 2 * full + 1 + 1 by rw [numHexDigits]; omega,List.range_succ,
          List.range_succ,List.map_append,List.map_append,List.append_assoc]
        rfl
  rw [toHexStringFrom,if_neg (by omega),hdigits,← reverse_natToHexDigits,List.reverse_reverse,hv]

private theorem hexDigitsToNat_rangeValue (bits : List Bool) (start numBits : Nat) :
    hexDigitsToNat (natToHexDigits (numHexDigits numBits) (rangeValue bits start numBits)) = rangeValue bits start numBits :=
  hexDigitsToNat_natToHexDigits (Packetlib.lt_pow_numHexDigits (rangeValue_lt bits start numBits))

end Digits

section Queue
variable {s : BitString}

def remaining (s : BitString) : List Bool := s.bits.drop s.startIndex

theorem length_remaining (s : BitString) : s.remaining.length = s.bits.length - s.startIndex := List.length_drop

theorem size_eq (hshort : s.bits.length < 2 ^ 31) : s.size = s.remaining.length := by
  rw [size,length_remaining]
  exact int32_of_lt (by omega)

theorem consume_fits (hshort : s.bits.length < 2 ^ 31) (h : numBits ≤ s.remaining.length) :
    ∃ t,s.consume numBits = some (.ok (),t) ∧ t.bits = s.bits ∧ t.startIndex = s.startIndex + numBits := by
  have hsize := size_eq hshort
  have hremaining := length_remaining s
  have hstart := s.startIndex_le
  have hcast : ((numBits : Int)).toNat = numBits := Int.toNat_natCast numBits
  rw [consume,if_neg (by omega),dif_neg (by omega)]
  simp only [hcast]
  rw [dif_pos (by omega)]
  exact ⟨_,rfl,rfl,rfl⟩

theorem consume_refused (hshort : s.bits.length < 2 ^ 31) {numBits : Int} (h : numBits < 0 ∨ s.remaining.length < numBits) :
    ∃ status,s.consume numBits = some (.error status,s) := by
  have hsize := size_eq hshort
  rw [consume]
  by_cases hneg : numBits < 0
  · rw [if_pos hneg]
    exact ⟨_,rfl⟩
  · rw [if_neg hneg,dif_pos (by omega)]
    exact ⟨_,rfl⟩

private theorem getLsbD_foldl_twoPow {count : Nat} (f : Nat → Bool) (hcount : count ≤ numBits) (j : Nat) :
    ((List.range count).foldl (fun result i => if f i then result ||| BitVec.twoPow numBits (numBits - i - 1) else result)
      (0 : BitVec numBits)).getLsbD j = (decide (j < numBits ∧ numBits - 1 - j < count) && f (numBits - 1 - j)) := by
  induction count with
  | zero => simp
  | succ count ih =>
    rw [List.range_succ,List.foldl_append,List.foldl_cons,List.foldl_nil]
    by_cases hlast : j < numBits ∧ numBits - 1 - j = count
    · rw [decide_eq_true (by omega),hlast.2,Bool.true_and]
      cases hf : f count with
      | false => rw [if_neg Bool.false_ne_true,ih (by omega),decide_eq_false (by omega),Bool.false_and]
      | true =>
        rw [if_pos rfl,BitVec.getLsbD_or,BitVec.getLsbD_twoPow,decide_eq_true (by omega),decide_eq_true (by omega),Bool.and_self,
          Bool.or_true]
    · have hsame : decide (j < numBits ∧ numBits - 1 - j < count + 1) = decide (j < numBits ∧ numBits - 1 - j < count) :=
        decide_eq_decide.mpr (by omega)
      rw [hsame,← ih (by omega)]
      cases hf : f count with
      | false => rw [if_neg Bool.false_ne_true]
      | true => rw [if_pos rfl,BitVec.getLsbD_or,BitVec.getLsbD_twoPow,decide_eq_false (p := _ = j) (by omega),
        Bool.and_false,Bool.or_false]

private theorem consumeBitset_fits (hshort : s.bits.length < 2 ^ 31) (h : numBits ≤ s.remaining.length) :
    ∃ bits t,s.consumeBitset numBits = some (.ok bits,t) ∧ natToBits numBits bits.toNat = s.remaining.take numBits ∧
      t.bits = s.bits ∧ t.startIndex = s.startIndex + numBits := by
  have hremaining := length_remaining s
  have hstart := s.startIndex_le
  obtain ⟨t,hconsume,hbits,hindex⟩ := consume_fits hshort h
  have hint : int32 numBits = numBits := int32_of_lt (by omega)
  rw [consumeBitset,hint,hconsume,Option.bind_some]
  simp only
  rw [if_neg (by omega)]
  refine ⟨_,t,rfl,?_,hbits,hindex⟩
  rw [← map_testBit]
  apply List.ext_getElem
  · rw [List.length_map,List.length_range,List.length_take]
    omega
  · intro i hi hi'
    rw [List.length_map,List.length_range] at hi
    rw [List.getElem_map,List.getElem_range,BitVec.testBit_toNat,getLsbD_foldl_twoPow _ le_rfl,
      show numBits - 1 - (numBits - 1 - i) = i by omega,decide_eq_true (by omega),Bool.true_and,List.getElem_take,
      List.getD_eq_getElem?_getD,List.getElem?_eq_getElem (by omega),Option.getD_some]
    exact (List.getElem_drop ..).symm

end Queue

/-- How bits are asked for: as a bit set or as text, which can also be peeked at. -/
inductive Request where
  | bitset (numBits : Nat)
  | hex (numBits : Int32)
  | peek (numBits : Int32)

inductive Answer where
  | bits (bits : List Bool)
  | text (text : List Char)

def hexText (bits : List Bool) : Answer := .text (['0','x'] ++ natToHexDigits (numHexDigits bits.length) (bitsToNat bits))

def perform (s : BitString) : Request → Option (StatusOr Answer × BitString)
  | .bitset numBits => (s.consumeBitset numBits).map fun (result,t) => (result.map fun bits => .bits (natToBits numBits bits.toNat),t)
  | .hex numBits => (s.consumeHexString numBits.toInt).map fun (result,t) => (result.map .text,t)
  | .peek numBits => (s.peekHexString numBits.toInt).map fun (result,t) => (result.map .text,t)

namespace Request

def width : Request → Int
  | .bitset numBits => numBits
  | .hex numBits => numBits.toInt
  | .peek numBits => numBits.toInt

def Fits (r : Request) (queue : List Bool) : Prop := 0 ≤ r.width ∧ r.width ≤ queue.length

instance (r : Request) (queue : List Bool) : Decidable (r.Fits queue) := inferInstanceAs (Decidable (_ ∧ _))

/-- The bits as they are asked for. -/
def answer (bits : List Bool) : Request → Answer
  | .bitset _ => .bits bits
  | .hex _ => hexText bits
  | .peek _ => hexText bits

def rest (r : Request) (queue : List Bool) : List Bool :=
  if r.Fits queue then
    match r with
    | .bitset numBits => queue.drop numBits
    | .hex numBits => queue.drop numBits.toInt.toNat
    | .peek _ => queue
  else queue

def IsPeek : Request → Prop
  | .peek _ => True
  | _ => False

/-- No bit set is so wide that its number of bits, as an `int`, is one that the queue has. -/
def Narrow (r : Request) (queue : List Bool) : Prop :=
  match r with
  | .bitset numBits => numBits < 2 ^ 31 ∨ int32 numBits < 0 ∨ queue.length < int32 numBits
  | _ => True

end Request

/-- The next bits of the queue if there are enough, and an error that changes nothing otherwise. -/
structure Answered (queue : List Bool) (s : BitString) (r : Request) (result : StatusOr Answer) (t : BitString) : Prop where
  answer : r.Fits queue → result = .ok (r.answer (queue.take r.width.toNat))
  refusal : ¬ r.Fits queue → (∃ status,result = .error status) ∧ t = s
  peek : r.IsPeek → t = s

/-- The requests are answered like those to a queue. -/
def Serves : List Bool → BitString → List Request → Prop
  | _,_,[] => True
  | queue,s,r :: rs => ∃ result t,s.perform r = some (result,t) ∧ Answered queue s r result t ∧ Serves (r.rest queue) t rs

def AllNarrow : List Bool → List Request → Prop
  | _,[] => True
  | queue,r :: rs => r.Narrow queue ∧ AllNarrow (r.rest queue) rs

section Answers
variable {s : BitString}

/-- What a request leaves behind: the bits, read from where the rest of the queue starts. -/
structure Leaves (queue : List Bool) (s : BitString) (r : Request) (t : BitString) : Prop where
  bits : t.bits = s.bits
  remaining : t.remaining = r.rest queue

theorem remaining_of_consumed {t : BitString} (hbits : t.bits = s.bits) (hstart : t.startIndex = s.startIndex + numBits) :
    t.remaining = s.remaining.drop numBits := by
  rw [remaining,remaining,hbits,hstart,List.drop_drop]

theorem leaves_refused {r : Request} (h : ¬ r.Fits s.remaining) : Leaves s.remaining s r s :=
  ⟨rfl,(if_neg h).symm⟩

private theorem rangeValue_remaining (numBits : Nat) : rangeValue s.bits s.startIndex numBits = bitsToNat (s.remaining.take numBits) := rfl

private theorem perform_bitset (hshort : s.bits.length < 2 ^ 31) (h : (Request.bitset numBits).Narrow s.remaining) :
    ∃ result t,s.perform (.bitset numBits) = some (result,t) ∧ Answered s.remaining s (.bitset numBits) result t ∧
      Leaves s.remaining s (.bitset numBits) t := by
  have hlength := length_remaining s
  by_cases hfits : numBits ≤ s.remaining.length
  · have hfit : (Request.bitset numBits).Fits s.remaining := ⟨Int.natCast_nonneg _,Int.ofNat_le.mpr hfits⟩
    obtain ⟨bits,t,hconsume,hvalue,hbits,hstart⟩ := consumeBitset_fits hshort hfits
    refine ⟨.ok (.bits (s.remaining.take numBits)),t,?_,⟨fun _ => rfl,fun hno => absurd hfit hno,False.elim⟩,hbits,?_⟩
    · rw [perform,hconsume,Option.map_some]
      simp only [Except.map,hvalue]
    · rw [Request.rest,if_pos hfit]
      exact remaining_of_consumed hbits hstart
  · have hno : ¬ (Request.bitset numBits).Fits s.remaining := fun hfit => hfits (Int.ofNat_le.mp hfit.2)
    have hint : int32 numBits < 0 ∨ s.remaining.length < int32 numBits := by
      rcases h with hnarrow | hwide
      · rw [int32_of_lt hnarrow]
        omega
      · exact hwide
    obtain ⟨status,hconsume⟩ := consume_refused hshort hint
    refine ⟨.error status,s,?_,⟨fun hfit => absurd hfit hno,fun _ => ⟨⟨status,rfl⟩,rfl⟩,False.elim⟩,leaves_refused hno⟩
    rw [perform,consumeBitset,hconsume]
    rfl

private theorem perform_wide (hshort : s.bits.length < 2 ^ 31) (h : ¬ (Request.bitset numBits).Narrow s.remaining) :
    s.perform (.bitset numBits) = none := by
  simp only [Request.Narrow,not_or,not_lt] at h
  obtain ⟨hwide,hpos,hle⟩ := h
  obtain ⟨count,hcount⟩ := Int.eq_ofNat_of_zero_le hpos
  have hfits : count ≤ s.remaining.length := by omega
  obtain ⟨t,hconsume,-,-⟩ := consume_fits hshort hfits
  rw [perform,consumeBitset,hcount,hconsume,Option.bind_some]
  simp only
  rw [if_pos (.inl hwide)]
  rfl

theorem toHexStringFrom_remaining (hshort : s.bits.length + 7 < 2 ^ 31) (h : numBits ≤ s.remaining.length) :
    s.toHexStringFrom s.startIndex numBits = some (['0','x'] ++ natToHexDigits (numHexDigits (s.remaining.take numBits).length)
      (bitsToNat (s.remaining.take numBits))) := by
  have hlength := length_remaining s
  have hstart := s.startIndex_le
  rw [toHexStringFrom_eq (by omega) (by omega) (by omega),rangeValue_remaining,List.length_take,Nat.min_eq_left h]

theorem consumeHexString_fits (hshort : s.bits.length + 7 < 2 ^ 31) (h : numBits ≤ s.remaining.length) :
    ∃ t,s.consumeHexString numBits = some (.ok (['0','x'] ++ natToHexDigits (numHexDigits (s.remaining.take numBits).length)
      (bitsToNat (s.remaining.take numBits))),t) ∧ t.bits = s.bits ∧ t.startIndex = s.startIndex + numBits := by
  obtain ⟨t,hconsume,hbits,hstart⟩ := consume_fits (by omega) h
  have hback : t.startIndex - numBits = s.startIndex := by omega
  have hsame : t.toHexStringFrom s.startIndex numBits = s.toHexStringFrom s.startIndex numBits := by
    rw [toHexStringFrom,toHexStringFrom,hbits]
  refine ⟨t,?_,hbits,hstart⟩
  rw [consumeHexString,hconsume,Option.bind_some]
  simp only [Int.toNat_natCast]
  rw [hback,hsame,toHexStringFrom_remaining hshort h]
  rfl

private theorem perform_hex (hshort : s.bits.length + 7 < 2 ^ 31) (numBits : Int32) :
    ∃ result t,s.perform (.hex numBits) = some (result,t) ∧ Answered s.remaining s (.hex numBits) result t ∧
      Leaves s.remaining s (.hex numBits) t := by
  by_cases hfits : (Request.hex numBits).Fits s.remaining
  · obtain ⟨count,hcount⟩ := Int.eq_ofNat_of_zero_le hfits.1
    have hint : numBits.toInt = (count : Int) := hcount
    have hnat : numBits.toInt.toNat = count := by
      rw [hint,Int.toNat_natCast]
    have hle : count ≤ s.remaining.length := by
      have hwidth := hfits.2
      rw [hcount] at hwidth
      exact Int.ofNat_le.mp hwidth
    obtain ⟨t,hconsume,hbits,hstart⟩ := consumeHexString_fits hshort hle
    refine ⟨.ok (hexText (s.remaining.take count)),t,?_,⟨fun _ => ?_,fun hno => absurd hfits hno,False.elim⟩,hbits,?_⟩
    · rw [perform,hint,hconsume]
      rfl
    · rw [Request.answer,Request.width,hnat]
    · rw [Request.rest,if_pos hfits]
      simp only [hnat]
      exact remaining_of_consumed hbits hstart
  · have hint : numBits.toInt < 0 ∨ s.remaining.length < numBits.toInt := by
      simp only [Request.Fits,Request.width] at hfits
      omega
    obtain ⟨status,hconsume⟩ := consume_refused (by omega) hint
    refine ⟨.error status,s,?_,⟨fun hfit => absurd hfit hfits,fun _ => ⟨⟨status,rfl⟩,rfl⟩,False.elim⟩,leaves_refused hfits⟩
    rw [perform,consumeHexString,hconsume]
    rfl

private theorem perform_peek (hshort : s.bits.length + 7 < 2 ^ 31) (numBits : Int32) :
    ∃ result t,s.perform (.peek numBits) = some (result,t) ∧ Answered s.remaining s (.peek numBits) result t ∧
      Leaves s.remaining s (.peek numBits) t := by
  have hsize := size_eq (s := s) (by omega)
  by_cases hfits : (Request.peek numBits).Fits s.remaining
  · obtain ⟨count,hcount⟩ := Int.eq_ofNat_of_zero_le hfits.1
    have hnat : numBits.toInt.toNat = count := by
      rw [show numBits.toInt = (count : Int) from hcount,Int.toNat_natCast]
    have hle : count ≤ s.remaining.length := by
      have hwidth := hfits.2
      rw [hcount] at hwidth
      exact Int.ofNat_le.mp hwidth
    refine ⟨.ok (hexText (s.remaining.take count)),s,?_,⟨fun _ => ?_,fun hno => absurd hfits hno,fun _ => rfl⟩,rfl,
      by rw [Request.rest,if_pos hfits]⟩
    · rw [perform,peekHexString,show numBits.toInt = (count : Int) from hcount,if_neg (by omega),if_neg (by omega),
        Int.toNat_natCast,toHexStringFrom_remaining hshort hle]
      rfl
    · rw [Request.answer,Request.width,hnat]
  · have hpeek : ∃ status,s.peekHexString numBits.toInt = some (.error status,s) := by
      simp only [Request.Fits,Request.width] at hfits
      rw [peekHexString]
      by_cases hneg : numBits.toInt < 0
      · rw [if_pos hneg]
        exact ⟨_,rfl⟩
      · rw [if_neg hneg,if_pos (by omega)]
        exact ⟨_,rfl⟩
    obtain ⟨status,hstatus⟩ := hpeek
    refine ⟨.error status,s,?_,⟨fun hfit => absurd hfit hfits,fun _ => ⟨⟨status,rfl⟩,rfl⟩,fun _ => rfl⟩,leaves_refused hfits⟩
    rw [perform,hstatus]
    rfl

theorem perform_spec (hshort : s.bits.length + 7 < 2 ^ 31) {r : Request} (h : r.Narrow s.remaining) :
    ∃ result t,s.perform r = some (result,t) ∧ Answered s.remaining s r result t ∧ Leaves s.remaining s r t := by
  cases r with
  | bitset numBits => exact perform_bitset (by omega) h
  | hex numBits => exact perform_hex hshort numBits
  | peek numBits => exact perform_peek hshort numBits

private theorem narrow_of_perform (hshort : s.bits.length + 7 < 2 ^ 31) {r : Request} {p : StatusOr Answer × BitString}
    (h : s.perform r = some p) : r.Narrow s.remaining := by
  cases r with
  | bitset numBits =>
    by_contra hwide
    rw [perform_wide (by omega) hwide] at h
    cases h
  | hex numBits => exact trivial
  | peek numBits => exact trivial

theorem serves_iff (hshort : s.bits.length + 7 < 2 ^ 31) {requests : List Request} :
    Serves s.remaining s requests ↔ AllNarrow s.remaining requests := by
  induction requests generalizing s with
  | nil => exact Iff.rfl
  | cons r requests ih =>
    rw [Serves,AllNarrow]
    constructor
    · rintro ⟨result,t,hperform,-,hrest⟩
      have hnarrow := narrow_of_perform hshort hperform
      obtain ⟨result',t',hperform',-,hleaves⟩ := perform_spec hshort hnarrow
      obtain ⟨rfl,rfl⟩ := Prod.mk.inj (Option.some.inj (hperform'.symm.trans hperform))
      rw [← hleaves.remaining] at hrest ⊢
      exact ⟨hnarrow,(ih (by rw [hleaves.bits]; exact hshort)).mp hrest⟩
    · rintro ⟨hnarrow,hrest⟩
      obtain ⟨result,t,hperform,hanswered,hleaves⟩ := perform_spec hshort hnarrow
      rw [← hleaves.remaining] at hrest ⊢
      exact ⟨result,t,hperform,hanswered,(ih (by rw [hleaves.bits]; exact hshort)).mpr hrest⟩

end Answers

inductive Append where
  | bit (bit : Bool)
  | bitset (numBits : Nat) (bits : BitVec numBits)
  | byteString (bytes : Bytes)
  | hex (hexString : String)

/-- The bits of what is appended; a text that is refused has none. -/
def Append.toBits : Append → List Bool
  | .bit b => [b]
  | .bitset numBits bits => natToBits numBits bits.toNat
  | .byteString bytes => bytesToBits bytes
  | .hex hexString =>
    match hexStringToByteString hexString with
    | .error _ => []
    | .ok bytes => bytesToBits bytes

def append (s : BitString) : Append → Option BitString
  | .bit b => some (s.appendBit b)
  | .bitset _ bits => s.appendBits bits
  | .byteString bytes => s.appendBytes bytes
  | .hex hexString => (s.appendHexString hexString).map Prod.snd

def appendAll (s : BitString) (appends : List Append) : Option BitString := appends.foldlM append s

theorem appendBytes_extends (s : BitString) {bytes : Bytes} (h : bytes.length < 2 ^ 31) :
    ∃ t,s.appendBytes bytes = some t ∧ Extends s (bytesToBits bytes) t :=
  ⟨_,if_neg (by omega),pushBytes_extends s bytes⟩

private theorem append_extends (s : BitString) {a : Append} (h : a.toBits.length < 2 ^ 31) :
    ∃ t,s.append a = some t ∧ Extends s a.toBits t := by
  cases a with
  | bit b => exact ⟨_,rfl,rfl,rfl⟩
  | bitset numBits bits =>
    rw [Append.toBits,length_natToBits] at h
    exact ⟨_,if_neg (by omega),pushBits_extends s bits⟩
  | byteString bytes =>
    rw [Append.toBits,length_bytesToBits] at h
    exact appendBytes_extends s (by omega)
  | hex hexString =>
    rw [Append.toBits] at h ⊢
    rw [append,appendHexString]
    cases htext : hexStringToByteString hexString with
    | error status => exact ⟨s,rfl,.refl s⟩
    | ok bytes =>
      rw [htext,length_bytesToBits] at h
      obtain ⟨t,happend,hextends⟩ := appendBytes_extends s (show bytes.length < 2 ^ 31 by omega)
      refine ⟨t,?_,hextends⟩
      simp only [happend,Option.map_some]

private theorem appendAll_extends (s : BitString) {appends : List Append} (h : (appends.flatMap Append.toBits).length < 2 ^ 31) :
    ∃ t,s.appendAll appends = some t ∧ Extends s (appends.flatMap Append.toBits) t := by
  induction appends generalizing s with
  | nil => exact ⟨s,rfl,.refl s⟩
  | cons a appends ih =>
    rw [List.flatMap_cons,List.length_append] at h
    obtain ⟨t,happend,hextends⟩ := append_extends s (a := a) (by omega)
    obtain ⟨u,hrest,hextends'⟩ := ih (s := t) (by omega)
    refine ⟨u,?_,?_⟩
    · rw [appendAll,List.foldlM_cons,happend]
      exact hrest
    · rw [List.flatMap_cons]
      exact hextends.trans hextends'

section Faithfulness
variable {appends : List Append} {requests : List Request}

/-- Requests are answered from the bits in the order in which they were appended, and the text of
any range of them has their value. -/
def FaithfulQueue (appends : List Append) (requests : List Request) : Prop :=
  ∃ s,appendAll {} appends = some s ∧ Serves (appends.flatMap Append.toBits) s requests ∧
    ∀ start numBits : Nat,start < 2 ^ 31 → numBits < 2 ^ 31 → start + numBits ≤ (appends.flatMap Append.toBits).length →
      ∃ digits,s.toHexStringFrom start numBits = some (['0','x'] ++ digits) ∧
        hexDigitsToNat digits = rangeValue (appends.flatMap Append.toBits) start numBits

theorem not_faithfulQueue (hlong : 2 ^ 31 ≤ (appends.flatMap Append.toBits).length + 7) : ¬ FaithfulQueue appends requests := by
  rintro ⟨s,-,-,hranges⟩
  obtain ⟨digits,hdigits,-⟩ := hranges 0 (2 ^ 31 - 7) (by norm_num) (by norm_num) (by omega)
  rw [toHexStringFrom,if_pos (.inl (by norm_num))] at hdigits
  cases hdigits

/-- A bit string is a queue as long as the number of its bits, rounded up to bytes, is an `int`. -/
theorem faithfulQueue_iff (appends : List Append) (requests : List Request) :
    FaithfulQueue appends requests ↔
      (appends.flatMap Append.toBits).length + 7 < 2 ^ 31 ∧ AllNarrow (appends.flatMap Append.toBits) requests := by
  by_cases hlong : 2 ^ 31 ≤ (appends.flatMap Append.toBits).length + 7
  · exact iff_of_false (not_faithfulQueue hlong) fun h => by omega
  · obtain ⟨s,happend,hextends⟩ := appendAll_extends {} (show (appends.flatMap Append.toBits).length < 2 ^ 31 by omega)
    have hbits : s.bits = appends.flatMap Append.toBits := hextends.bits
    have hremaining : s.remaining = appends.flatMap Append.toBits := by
      rw [remaining,hextends.startIndex,hbits]
      rfl
    have hshort : s.bits.length + 7 < 2 ^ 31 := by
      rw [hbits]
      omega
    rw [← hremaining]
    constructor
    · rintro ⟨s',happend',hserves,-⟩
      obtain rfl := Option.some.inj (happend.symm.trans happend')
      rw [← hremaining] at hserves
      refine ⟨?_,(serves_iff hshort).mp hserves⟩
      rw [hremaining]
      omega
    · rintro ⟨-,hnarrow⟩
      rw [hremaining] at hnarrow
      refine ⟨s,happend,?_,fun start numBits _ _ hrange => ?_⟩
      · rw [← hremaining] at hnarrow ⊢
        exact (serves_iff hshort).mpr hnarrow
      · rw [← hbits] at hrange ⊢
        exact ⟨_,toHexStringFrom_eq hrange (by omega) (by omega),hexDigitsToNat_rangeValue _ _ _⟩

/-- Already the number of bits of 256 MiB is negative as an `int`. -/
theorem bits_of_large_payload : ¬ FaithfulQueue [.byteString (List.replicate (2 ^ 28) 0)] [.hex 8] := by
  apply not_faithfulQueue
  rw [List.flatMap_singleton,Append.toBits,length_bytesToBits,List.length_replicate]
  norm_num

end Faithfulness

section Packets
variable {s : BitString}

theorem consumeHexString_of_packetlib (hshort : s.bits.length + 7 < 2 ^ 31) {numBits : Int} {text : String} {rest : List Bool}
    (h : Packetlib.BitString.consumeHexString numBits s.remaining = .ok (text,rest)) :
    ∃ t,s.consumeHexString numBits = some (.ok text.toList,t) ∧ t.bits = s.bits ∧ t.remaining = rest := by
  have hsize : Packetlib.BitString.size s.remaining = s.remaining.length := by
    have hlength := length_remaining s
    exact int32_of_lt (by omega)
  obtain ⟨⟨front,back⟩,hconsume,htext⟩ := map_eq_ok.mp h
  rw [Packetlib.BitString.consume,hsize] at hconsume
  split_ifs at hconsume with hneg hshort'
  obtain ⟨rfl,rfl⟩ := Prod.mk.inj (Except.ok.inj hconsume)
  obtain ⟨count,rfl⟩ := Int.eq_ofNat_of_zero_le (Int.not_lt.mp hneg)
  have hfits : count ≤ s.remaining.length := by omega
  obtain ⟨t,hread,hbits,hstart⟩ := consumeHexString_fits hshort hfits
  obtain ⟨rfl,rfl⟩ := Prod.mk.inj htext
  refine ⟨t,?_,hbits,remaining_of_consumed hbits hstart⟩
  rw [hread,Packetlib.BitString.toHexString,String.toList_ofList]
  rfl

end Packets
end BitString
end SonicPins.StringEncodings
