import Mathlib.Algebra.Order.BigOperators.Group.List
import SonicPins.Lib.OnesComplement
import SonicPins.Packetlib.Serialization

/-! The checksum over all sixteen bit words of a bit string, as its loops compute it, and when it is
the complement of the ones' complement sum. -/
namespace SonicPins.Packetlib
open Lib

/-- Zero bits are appended up to a multiple of a word. -/
def padded (data : BitString) : BitString := if data.size % 16 ≠ 0 then padded (data ++ [false]) else data
termination_by (16 - data.length % 16) % 16
decreasing_by
  rename_i h
  unfold BitString.size at h
  rw [int32_eq] at h
  rw [List.length_append,List.length_singleton]
  split at h <;> omega

/-- A round of the loop; the sum is an `int`, to which the word is added in a wider type. -/
def addWord (next : BitString → Int → Option (StatusOr Int)) (data : BitString) (sum : Int) : Option (StatusOr Int) :=
  if data.size = 0 then some (.ok sum)
  else
    match data.consume 16 with
    | .error s => some (.error ⟨.internal,s.message⟩)
    | .ok (word,rest) => next rest (int32 (sum + bitsToNat word))

/-- So many rounds at most. -/
def addWords : Nat → BitString → Int → Option (StatusOr Int)
  | 0 => fun _ _ => none
  | rounds + 1 => addWord (addWords rounds)

/-- A round for every bit is enough. The complement of a number is the one that makes minus one with it. -/
def onesComplementChecksumLoop (data : BitString) : Option (StatusOr Nat) :=
  (addWords ((padded data).length + 1) (padded data) 0).map fun sum =>
    sum.map fun sum => ((-1 - addCarryBits sum) % 65536).toNat

/-- The sixteen bit words, the last of which may have fewer bits. -/
def words : List Bool → List Nat
  | [] => []
  | b :: rest => bitsToNat ((b :: rest).take 16) :: words ((b :: rest).drop 16)
termination_by data => data.length
decreasing_by
  rw [List.length_drop,List.length_cons]
  omega

theorem words_of_pos {data : List Bool} (h : 0 < data.length) : words data = bitsToNat (data.take 16) :: words (data.drop 16) := by
  cases data with
  | nil => exact absurd h (by simp)
  | cons b rest => rw [words]

theorem words_lt (data : List Bool) : ∀ w ∈ words data,w < 2 ^ 16 := by
  fun_induction words data with
  | case1 => simp
  | case2 b rest ih =>
    rw [List.forall_mem_cons]
    refine ⟨(bitsToNat_lt _).trans_le (Nat.pow_le_pow_right (by decide) ?_),ih⟩
    exact List.length_take_le _ _

private theorem length_words {data : List Bool} (h : data.length % 16 = 0) : 16 * (words data).length = data.length := by
  fun_induction words data with
  | case1 => rfl
  | case2 b rest ih =>
    rw [List.length_drop] at ih
    rw [List.length_cons]
    have hih := ih (by omega)
    rw [List.length_cons] at h hih ⊢
    omega

private theorem words_append {before : List Bool} (h : before.length % 16 = 0) (rest : List Bool) :
    words (before ++ rest) = words before ++ words rest := by
  fun_induction words before with
  | case1 => rfl
  | case2 b before ih =>
    have hlong : 16 ≤ (b :: before).length := by
      rw [List.length_cons] at h ⊢
      omega
    have hih := ih (by rw [List.length_drop]; omega)
    rw [words_of_pos (by rw [List.length_append]; omega),List.take_append_of_le_length hlong,List.drop_append_of_le_length hlong,
      hih]
    rfl

theorem words_of_length {field : List Bool} (h : field.length = 16) (rest : List Bool) :
    words (field ++ rest) = bitsToNat field :: words rest := by
  rw [words_of_pos (by rw [List.length_append]; omega),List.take_left' h,List.drop_left' h]

theorem padded_eq (data : BitString) : padded data = data ++ List.replicate ((16 - data.length % 16) % 16) false := by
  fun_induction padded data with
  | case1 data h ih =>
    unfold BitString.size at h
    have hmod : data.length % 16 ≠ 0 := by
      rw [int32_eq] at h
      split at h <;> omega
    obtain ⟨k,hk,hk'⟩ : ∃ k,(16 - data.length % 16) % 16 = k + 1 ∧ (16 - (data ++ [false]).length % 16) % 16 = k := by
      refine ⟨15 - data.length % 16,by omega,?_⟩
      rw [List.length_append,List.length_singleton]
      omega
    rw [ih,hk,hk',List.append_assoc,List.replicate_succ]
    rfl
  | case2 data h =>
    unfold BitString.size at h
    have hmod : data.length % 16 = 0 := by
      rw [int32_eq] at h
      split at h <;> omega
    rw [hmod]
    simp

theorem length_padded (data : BitString) : (padded data).length % 16 = 0 := by
  rw [padded_eq,List.length_append,List.length_replicate]
  omega

theorem padded_append {before : BitString} (h : before.length % 16 = 0) (rest : BitString) :
    padded (before ++ rest) = before ++ padded rest := by
  have hmod : (before ++ rest).length % 16 = rest.length % 16 := by
    rw [List.length_append]
    omega
  rw [padded_eq,padded_eq,hmod,List.append_assoc]

private theorem int32_add (a b : Int) : int32 (int32 a + b) = int32 (a + b) := by
  rw [int32_eq,int32_eq,int32_eq]
  split <;> split <;> split <;> omega

private theorem size_mod {data : BitString} (h : data.length % 16 = 0) : data.size % 16 = 0 := by
  have hint := int32_eq data.length
  rw [BitString.size,hint]
  split <;> omega

private theorem addWords_eq (rounds : Nat) {data : BitString} (h : data.length % 16 = 0) (hsize : 0 ≤ data.size)
    (hrounds : data.size < rounds) (sum : Int) :
    addWords rounds data (int32 sum) = some (.ok (int32 (sum + ((words data).take (data.size.toNat / 16)).sum))) := by
  induction rounds generalizing data sum with
  | zero => omega
  | succ rounds ih =>
    have hmod := size_mod h
    rw [addWords,addWord]
    by_cases hzero : data.size = 0
    · rw [if_pos hzero,hzero]
      simp
    · have hle := int32_le data.length
      rw [← BitString.size] at hle
      have hword : data.consume 16 = .ok (data.take 16,data.drop 16) := by
        rw [BitString.consume,if_neg (by decide),if_neg (by omega)]
        rfl
      have hrest : BitString.size (data.drop 16) = data.size - 16 := by
        have hsub := int32_sub (n := data.length) (k := 16) (by rw [← BitString.size]; omega)
        rw [BitString.size,List.length_drop]
        exact hsub
      have hcount : data.size.toNat / 16 = (data.size - 16).toNat / 16 + 1 := by omega
      rw [if_neg hzero,hword]
      simp only
      rw [int32_add,ih (by rw [List.length_drop]; omega) (by rw [hrest]; omega) (by rw [hrest]; omega),hrest,
        words_of_pos (show 0 < List.length data by omega),hcount,List.take_succ_cons,List.sum_cons]
      push_cast
      rw [Int.add_assoc]

private theorem addWords_negative {rounds : Nat} {data : BitString} (hsize : data.size < 0) (sum : Int) :
    addWords (rounds + 1) data sum =
      some (.error ⟨.internal,"Only " ++ decimal data.size ++ " bits left, but attempted to consume 16 bits."⟩) := by
  have hconsume : data.consume 16 = .error ⟨.failedPrecondition,"Only " ++ decimal data.size ++
      " bits left, but attempted to consume " ++ decimal 16 ++ " bits."⟩ := by
    rw [BitString.consume,if_neg (by decide),if_pos (by omega)]
  rw [addWords,addWord,if_neg (by omega),hconsume]
  have htext : decimal 16 ++ " bits." = "16 bits." := by decide
  simp only [Option.some.injEq,Except.error.injEq,Status.mk.injEq,true_and,String.append_assoc,htext]
  rfl

theorem addCarryBits_natCast (s : Nat) : addCarryBits s = onesResidue 16 s := by
  induction s using Nat.strong_induction_on with
  | _ s ih =>
    rw [addCarryBits]
    by_cases hsmall : s < 65536
    · rw [if_neg (by omega),onesResidue_of_lt (show s < 2 ^ 16 from hsmall)]
    · have hnext : ((s : Int) % 65536 + (s : Int) / 65536) = ((s % 65536 + s / 65536 : Nat) : Int) := by
        push_cast
        rfl
      rw [if_pos (by omega),hnext,ih _ (by omega)]
      have hsame : onesResidue 16 (s % 65536 + s / 65536) = onesResidue 16 s := by
        rw [onesResidue_eq_iff (by decide),show 2 ^ 16 - 1 = 65535 from rfl]
        omega
      rw [hsame]

theorem addCarryBits_negative {sum : Int} (h : sum < 0) : addCarryBits sum = sum % 65535 := by
  obtain ⟨n,hn⟩ : ∃ n : Nat,n = sum.natAbs := ⟨_,rfl⟩
  induction n using Nat.strong_induction_on generalizing sum with
  | _ n ih =>
    rw [addCarryBits,if_pos (by omega)]
    by_cases hagain : sum % 65536 + sum / 65536 < 0
    · rw [ih _ (by omega) hagain rfl]
      omega
    · rw [addCarryBits,if_neg (by omega)]
      omega

theorem addCarryBits_bounds (sum : Int) : 0 ≤ addCarryBits sum ∧ addCarryBits sum ≤ 65535 := by
  rcases lt_or_ge sum 0 with hneg | hpos
  · rw [addCarryBits_negative hneg]
    omega
  · obtain ⟨s,rfl⟩ := Int.eq_ofNat_of_zero_le hpos
    rw [addCarryBits_natCast]
    have hle := onesResidue_le (n := 16) (by decide) s
    rw [show 2 ^ 16 - 1 = 65535 from rfl] at hle
    omega

theorem onesComplementChecksumLoop_cases (data : BitString) :
    ((padded data).size < 0 ∧ onesComplementChecksumLoop data = some (.error
      ⟨.internal,"Only " ++ decimal (padded data).size ++ " bits left, but attempted to consume 16 bits."⟩)) ∨
    (0 ≤ (padded data).size ∧ onesComplementChecksumLoop data = some (.ok (65535 -
      addCarryBits (int32 ((words (padded data)).take ((padded data).size.toNat / 16)).sum)).toNat)) := by
  rcases lt_or_ge (padded data).size 0 with hneg | hpos
  · refine .inl ⟨hneg,?_⟩
    rw [onesComplementChecksumLoop,addWords_negative hneg]
    rfl
  · refine .inr ⟨hpos,?_⟩
    have hle : (padded data).size ≤ (padded data).length := int32_le _
    have hzero : int32 0 = 0 := by
      rw [int32_eq]
      decide
    have hsum := addWords_eq ((padded data).length + 1) (length_padded data) hpos (by omega) 0
    rw [hzero,Int.zero_add] at hsum
    have hbounds := addCarryBits_bounds (int32 ((words (padded data)).take ((padded data).size.toNat / 16)).sum)
    rw [onesComplementChecksumLoop,hsum]
    simp only [Option.map_some,Except.map,Option.some.injEq,Except.ok.injEq]
    omega

private theorem words_take {data : List Bool} {count : Nat} (h : 16 * count ≤ data.length) :
    (words data).take count = (List.range count).map fun i => bitsToNat ((data.drop (16 * i)).take 16) := by
  induction count generalizing data with
  | zero => rfl
  | succ count ih =>
    rw [words_of_pos (by omega),List.take_succ_cons,ih (by rw [List.length_drop]; omega),List.range_succ_eq_map,List.map_cons,
      List.map_map]
    congr 1
    apply List.map_congr_left
    intro i _
    rw [Function.comp_apply,List.drop_drop]
    congr 3
    omega

theorem onesComplementChecksumLoop_eq (data : BitString) : onesComplementChecksumLoop data = some (onesComplementChecksum data) := by
  rcases onesComplementChecksumLoop_cases data with ⟨hneg,hloop⟩ | ⟨hpos,hloop⟩
  · rw [hloop,onesComplementChecksum]
    rw [padded_eq] at hneg ⊢
    rw [if_pos hneg]
  · have hle : (padded data).size ≤ (padded data).length := int32_le _
    rw [words_take (by omega)] at hloop
    rw [hloop,onesComplementChecksum]
    rw [padded_eq] at hpos ⊢
    rw [if_neg (by omega)]

variable {data : BitString}

/-- The complement of the ones' complement sum; in a field that was zero, it completes the sum. -/
structure ChecksumCorrect (data : BitString) : Prop where
  complement : onesComplementChecksumLoop data = some (.ok (65535 - onesSum 16 (words (padded data))))
  completes : ∀ before after,data = before ++ List.replicate 16 false ++ after → before.length % 16 = 0 →
    ∀ checksum,onesComplementChecksumLoop data = some (.ok checksum) →
      onesSum 16 (words (padded (before ++ natToBits 16 checksum ++ after))) = 0xffff

/-- A number of type `int` has the same carries as a sum. -/
def SameCarries (sum : Int) (total : Nat) : Prop :=
  (total - sum) % 65535 = 0 ∧ (0 ≤ sum → (sum = 0 ↔ total = 0)) ∧ (sum < 0 → total = 0 ∨ total % 65535 ≠ 0)

/-- Neither the number of bits nor the sum of the words leaves the range of an `int`, or what
is left of them does no harm. -/
def SumInRange (data : BitString) : Prop :=
  (padded data).length < 2 ^ 31 ∧ (words (padded data)).sum < 2 ^ 31 ∨
    2 ^ 32 ≤ (padded data).length ∧ (padded data).length % 2 ^ 32 < 2 ^ 31 ∧
      SameCarries (int32 ((words (padded data)).take ((padded data).length % 2 ^ 32 / 16)).sum) (words (padded data)).sum

private theorem addCarryBits_eq_iff {sum : Int} {total : Nat} : addCarryBits sum = onesResidue 16 total ↔ SameCarries sum total := by
  have hmod := onesResidue_mod (n := 16) total
  have hle := onesResidue_le (n := 16) (by decide) total
  rw [show 2 ^ 16 - 1 = 65535 from rfl] at hmod hle
  rcases lt_or_ge sum 0 with hneg | hpos
  · rw [addCarryBits_negative hneg,SameCarries]
    rcases Nat.eq_zero_or_pos total with rfl | htotal
    · have hzero : onesResidue 16 0 = 0 := rfl
      rw [hzero]
      omega
    · obtain ⟨-,-,hone,-⟩ := exists_onesResidue (n := 16) (by decide) htotal
      omega
  · obtain ⟨s,rfl⟩ := Int.eq_ofNat_of_zero_le hpos
    rw [addCarryBits_natCast,Nat.cast_inj,onesResidue_eq_iff (by decide),show 2 ^ 16 - 1 = 65535 from rfl,SameCarries]
    omega

private theorem sum_words_le (data : BitString) (count : Nat) : ((words data).take count).sum ≤ 65535 * (words data).length := by
  calc ((words data).take count).sum ≤ ((words data).take count).length * 65535 :=
        List.sum_le_card_nsmul _ _ fun w hw => Nat.le_of_lt_succ (words_lt data w (List.mem_of_mem_take hw))
    _ ≤ (words data).length * 65535 := Nat.mul_le_mul_right _ (List.length_take_le' _ _)
    _ = 65535 * (words data).length := Nat.mul_comm _ _

theorem sameCarries_int32 {total : Nat} (h : total < 2 ^ 43) : SameCarries (int32 total) total ↔ total < 2 ^ 31 := by
  have hint := int32_eq total
  generalize int32 total = sum at hint ⊢
  rw [SameCarries]
  split at hint <;> omega

private theorem completes_of_complement (h : onesComplementChecksumLoop data = some (.ok (65535 - onesSum 16 (words (padded data))))) :
    ChecksumCorrect data := by
  refine ⟨h,?_⟩
  rintro before after rfl hbefore checksum hchecksum
  rw [h] at hchecksum
  obtain rfl := Except.ok.inj (Option.some.inj hchecksum)
  have hwords : ∀ field : List Bool,field.length = 16 →
      words (padded (before ++ field ++ after)) = words before ++ bitsToNat field :: words (padded after) := by
    intro field hfield
    rw [List.append_assoc,padded_append hbefore,padded_append (by omega),words_append hbefore,words_of_length hfield]
  have hzero : bitsToNat (List.replicate 16 false) = 0 := by decide
  have hfit : 65535 - onesSum 16 (words (padded (before ++ List.replicate 16 false ++ after))) < 2 ^ 16 := by omega
  rw [hwords _ (length_natToBits 16 _),bitsToNat_natToBits hfit,hwords _ (List.length_replicate ..),hzero]
  exact onesSum_complement (by decide) (words_lt before) (words_lt _)

theorem size_nonneg {data : BitString} (h : 0 ≤ data.size) :
    data.length % 2 ^ 32 < 2 ^ 31 ∧ data.size.toNat = data.length % 2 ^ 32 := by
  have hint := int32_eq data.length
  rw [← BitString.size] at hint
  generalize data.size = size at h hint ⊢
  split at hint <;> omega

private theorem size_negative {data : BitString} (h : data.size < 0) : ¬ data.length % 2 ^ 32 < 2 ^ 31 := by
  have hint := int32_eq data.length
  rw [← BitString.size] at hint
  generalize data.size = size at h hint
  split at hint <;> omega

theorem checksumCorrect_iff_sameCarries (hpos : 0 ≤ (padded data).size) :
    ChecksumCorrect data ↔
      SameCarries (int32 ((words (padded data)).take ((padded data).length % 2 ^ 32 / 16)).sum) (words (padded data)).sum := by
  have hsum := onesSum_eq (n := 16) (by decide) (words_lt (padded data))
  have hle := onesResidue_le (n := 16) (by decide) (words (padded data)).sum
  rw [show 2 ^ 16 - 1 = 65535 from rfl] at hle
  rw [← addCarryBits_eq_iff]
  rcases onesComplementChecksumLoop_cases data with ⟨hneg,-⟩ | ⟨-,hloop⟩
  · exact absurd hneg (Int.not_lt.mpr hpos)
  · rw [(size_nonneg hpos).2] at hloop
    have hbounds := addCarryBits_bounds (int32 ((words (padded data)).take ((padded data).length % 2 ^ 32 / 16)).sum)
    generalize addCarryBits (int32 ((words (padded data)).take ((padded data).length % 2 ^ 32 / 16)).sum) = carries at hloop hbounds ⊢
    constructor
    · intro h
      have hcomplement := h.complement
      rw [hloop,hsum] at hcomplement
      have hvalue := Except.ok.inj (Option.some.inj hcomplement)
      omega
    · intro h
      apply completes_of_complement
      rw [hloop,hsum,h]
      congr 2
      omega

/-- The loops always end, and they compute the checksum exactly if the sum stays in range. -/
theorem checksumCorrect_iff (data : BitString) : ChecksumCorrect data ↔ SumInRange data := by
  rw [SumInRange]
  rcases lt_or_ge (padded data).size 0 with hneg | hpos
  · have hlarge := size_negative hneg
    refine iff_of_false (fun h => ?_) ?_
    · rcases onesComplementChecksumLoop_cases data with ⟨-,hloop⟩ | ⟨hpos,-⟩
      · rw [h.complement] at hloop
        cases hloop
      · exact absurd hneg (Int.not_lt.mpr hpos)
    · rintro (⟨hlength,-⟩ | ⟨-,hlength,-⟩)
      · exact hlarge (by omega)
      · exact hlarge hlength
  · have hlength := (size_nonneg hpos).1
    rw [checksumCorrect_iff_sameCarries hpos]
    by_cases hsmall : (padded data).length < 2 ^ 31
    · have htotal := sum_words_le (padded data) (words (padded data)).length
      have hwords := length_words (length_padded data)
      rw [List.take_length] at htotal
      rw [Nat.mod_eq_of_lt (by omega),List.take_of_length_le (by omega),sameCarries_int32 (by omega)]
      exact ⟨fun h => .inl ⟨hsmall,h⟩,fun h => h.elim And.right fun hlong => absurd hlong.1 (by omega)⟩
    · exact ⟨fun h => .inr ⟨by omega,hlength,h⟩,fun h => h.elim (fun hshort => absurd hshort.1 hsmall) fun hlong => hlong.2.2⟩

theorem words_replicate (count : Nat) : words (List.replicate (16 * count) true) = List.replicate count 65535 := by
  induction count with
  | zero => rw [Nat.mul_zero,List.replicate_zero,words,List.replicate_zero]
  | succ count ih =>
    have hones : bitsToNat (List.replicate 16 true) = 65535 := by decide
    rw [Nat.mul_succ,Nat.add_comm,List.replicate_add,words_of_length (List.length_replicate ..),ih,hones,List.replicate_succ]

/-- The words of all ones add up to more than an `int` can hold. -/
theorem checksum_of_ones : ¬ ChecksumCorrect (List.replicate (16 * 32769) true) := by
  have hpadded : padded (List.replicate (16 * 32769) true) = List.replicate (16 * 32769) true := by
    rw [padded_eq,List.length_replicate,show (16 - 16 * 32769 % 16) % 16 = 0 by norm_num,List.replicate_zero,List.append_nil]
  have hsize : BitString.size (List.replicate (16 * 32769) true) = 524304 := by
    rw [BitString.size,List.length_replicate]
    exact int32_of_lt (by norm_num)
  have hsum : (words (List.replicate (16 * 32769) true)).sum = 2147516415 := by
    rw [words_replicate,List.sum_replicate_nat]
  have hlength : (words (List.replicate (16 * 32769) true)).length = 32769 := by
    rw [words_replicate,List.length_replicate]
  rw [checksumCorrect_iff_sameCarries (by rw [hpadded,hsize]; norm_num),hpadded,List.length_replicate,
    List.take_of_length_le (by rw [hlength]; norm_num),hsum,sameCarries_int32 (by norm_num)]
  norm_num

end SonicPins.Packetlib
