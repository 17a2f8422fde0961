import Mathlib
import SonicPins.Lib.Text

/-! Reading text back: letter case, joined words and decimal numerals. -/
namespace SonicPins.Lib

@[simp] theorem toList_asciiToUpper (s : String) : (asciiToUpper s).toList = s.toList.map Char.toUpper := by
  simp [asciiToUpper]

@[simp] theorem asciiToLower_asciiToLower (s : String) : asciiToLower (asciiToLower s) = asciiToLower s := by
  simp [asciiToLower,Function.comp_def]

@[simp] theorem asciiToUpper_append (s t : String) : asciiToUpper (s ++ t) = asciiToUpper s ++ asciiToUpper t := by
  simp [asciiToUpper]

theorem toUpper_eq_iff {c d : Char} (hd : d.isAlpha = false) : c.toUpper = d ↔ c = d := by
  constructor
  · rintro rfl
    have hlower : c.isLower = false := by
      rw [Char.isAlpha_toUpper_eq_isAlpha,Char.isAlpha,Bool.or_eq_false_iff] at hd
      exact hd.2
    exact (Char.toUpper_eq_of_not_isLower (by simp [hlower])).symm
  · rintro rfl
    have hlower : c.isLower = false := by
      rw [Char.isAlpha,Bool.or_eq_false_iff] at hd
      exact hd.2
    exact Char.toUpper_eq_of_not_isLower (by simp [hlower])

theorem mem_joinChars {sep c : Char} {ws : List (List Char)} (h : c ∈ joinChars sep ws) : c = sep ∨ ∃ w ∈ ws,c ∈ w := by
  induction ws with
  | nil => cases h
  | cons w ws ih =>
    cases ws with
    | nil => exact .inr ⟨w,List.mem_cons_self,h⟩
    | cons w' ws =>
      have hjoin : joinChars sep (w :: w' :: ws) = w ++ sep :: joinChars sep (w' :: ws) := rfl
      rw [hjoin,List.mem_append,List.mem_cons] at h
      rcases h with h | h | h
      · exact .inr ⟨w,List.mem_cons_self,h⟩
      · exact .inl h
      · rcases ih h with h | ⟨v,hv,hc⟩
        · exact .inl h
        · exact .inr ⟨v,List.mem_cons_of_mem _ hv,hc⟩

theorem span_append_cons {α : Type} [DecidableEq α] {sep : α} {l : List α} (h : sep ∉ l) (r : List α) :
    (l ++ sep :: r).takeWhile (· ≠ sep) = l ∧ (l ++ sep :: r).dropWhile (· ≠ sep) = sep :: r := by
  induction l with
  | nil => simp
  | cons c l ih =>
    have hc : c ≠ sep := fun hc => h (by simp [hc])
    obtain ⟨htake,hdrop⟩ := ih fun hm => h (by simp [hm])
    rw [List.cons_append,List.takeWhile_cons,List.dropWhile_cons,if_pos (decide_eq_true hc),if_pos (decide_eq_true hc),htake,hdrop]
    exact ⟨rfl,rfl⟩

theorem toList_decimal (i : Int) : (0 ≤ i ∧ (decimal i).toList = numeral 10 i.natAbs) ∨
    (i < 0 ∧ (decimal i).toList = '-' :: numeral 10 i.natAbs) := by
  cases i with
  | ofNat n => exact .inl ⟨Int.natCast_nonneg n,by simp [decimal]⟩
  | negSucc n => exact .inr ⟨Int.negSucc_lt_zero n,by simp [decimal]⟩

theorem digitChar_decimal : ∀ d < 10,isAsciiSpace (Nat.digitChar d) = false ∧ Nat.digitChar d ≠ '-' ∧
    Nat.digitChar d ≠ '+' := by decide

theorem mem_decimal_numeral {n : Nat} {c : Char} (h : c ∈ numeral 10 n) :
    isAsciiSpace c = false ∧ c ≠ '-' ∧ c ≠ '+' := by
  obtain ⟨d,hd,rfl⟩ := digitValue_of_mem_numeral (by decide) (by decide) h
  exact digitChar_decimal d hd

theorem dropWhile_of_forall_false {α : Type} {p : α → Bool} {l : List α} (h : ∀ c ∈ l,p c = false) : l.dropWhile p = l := by
  cases l with
  | nil => rfl
  | cons c l => rw [List.dropWhile_cons_of_neg (by simp [h c List.mem_cons_self])]

theorem stripAsciiWhitespace_of_forall {l : List Char} (h : ∀ c ∈ l,isAsciiSpace c = false) : stripAsciiWhitespace l = l := by
  unfold stripAsciiWhitespace
  rw [dropWhile_of_forall_false h,dropWhile_of_forall_false fun c hc => h c (List.mem_reverse.mp hc),List.reverse_reverse]

theorem isAsciiSpace_decimal {i : Int} {c : Char} (h : c ∈ (decimal i).toList) : isAsciiSpace c = false := by
  rcases toList_decimal i with ⟨-,hi⟩ | ⟨-,hi⟩ <;> rw [hi] at h
  · exact (mem_decimal_numeral h).1
  · rcases List.mem_cons.mp h with rfl | h
    · decide
    · exact (mem_decimal_numeral h).1

theorem safeParseInt_decimal (i : Int) : safeParseInt 10 (decimal i) = some i := by
  have hread := readNumeral_numeral (by decide : 1 < 10) (by decide) i.natAbs
  unfold safeParseInt
  rw [stripAsciiWhitespace_of_forall fun c hc => isAsciiSpace_decimal hc]
  rcases toList_decimal i with ⟨hi,htext⟩ | ⟨hi,htext⟩
  · rw [htext]
    obtain ⟨c,l,hcl⟩ := List.exists_cons_of_ne_nil (numeral_ne_nil 10 i.natAbs)
    have hc := mem_decimal_numeral (hcl ▸ List.mem_cons_self : c ∈ numeral 10 i.natAbs)
    rw [hcl] at hread ⊢
    simp only
    split
    · rename_i heq
      exact absurd (List.cons.inj heq).1 hc.2.1
    · rename_i heq
      exact absurd (List.cons.inj heq).1 hc.2.2
    · have habs : ((i.natAbs : Nat) : Int) = i := Int.natAbs_of_nonneg hi
      split <;> simp [hread,habs]
  · rw [htext]
    simp only
    split <;> simp [hread,abs_of_neg hi]

theorem simpleAtoi64_decimal {i : Int} (h : -2 ^ 63 ≤ i ∧ i < 2 ^ 63) : simpleAtoi64 (decimal i) = some i := by
  have hle : i ≤ 2 ^ 63 - 1 := by omega
  rw [simpleAtoi64,safeParseInt_decimal,Option.bind_some,inRange,if_pos ⟨h.1,hle⟩]

theorem readNumeral_zeros {base : Nat} (hb : 0 < base) (k : Nat) {l : List Char} (hl : l ≠ []) :
    readNumeral base (List.replicate k '0' ++ l) = readNumeral base l := by
  induction k with
  | zero => rfl
  | succ k ih =>
    have hrest : List.replicate k '0' ++ l ≠ [] := by simp [hl]
    have hzero : digitValue '0' = some 0 := by decide
    rw [← ih,List.replicate_succ,List.cons_append]
    unfold readNumeral
    rw [if_neg (by simp),if_neg (by simpa using hrest),List.foldl_cons]
    simp [hzero,hb]

theorem isAsciiSpace_digitChar : ∀ d < 16,isAsciiSpace (Nat.digitChar d) = false := by decide

theorem isAsciiSpace_hexPadded {width n : Nat} {c : Char} (h : c ∈ ("0x" ++ hexPadded width n).toList) : isAsciiSpace c = false := by
  simp only [hexPadded,String.toList_append,String.toList_ofList,List.mem_append] at h
  rcases h with h | h | h
  · have hprefix : c = '0' ∨ c = 'x' := by simpa using h
    rcases hprefix with rfl | rfl <;> decide
  · rw [List.eq_of_mem_replicate h]
    decide
  · obtain ⟨d,hd,rfl⟩ := digitValue_of_mem_numeral (by decide) (by decide) h
    exact isAsciiSpace_digitChar d hd

theorem strip_hexPadded (width n : Nat) : stripAsciiWhitespace ("0x" ++ hexPadded width n).toList =
    '0' :: 'x' :: (List.replicate (width - (numeral 16 n).length) '0' ++ numeral 16 n) := by
  rw [stripAsciiWhitespace_of_forall fun c hc => isAsciiSpace_hexPadded hc]
  simp [hexPadded]

theorem safeParseInt_hexPadded (width n : Nat) : safeParseInt 16 ("0x" ++ hexPadded width n) = some (n : Int) := by
  have hstrip := strip_hexPadded width n
  have hread := readNumeral_zeros (by decide : 0 < 16) (width - (numeral 16 n).length) (numeral_ne_nil 16 n)
  rw [readNumeral_numeral (by decide) (by decide)] at hread
  generalize "0x" ++ hexPadded width n = text at hstrip ⊢
  simp [safeParseInt,hstrip,hread]

theorem simpleHexAtoiU32_hexPadded (width : Nat) (n : UInt32) :
    simpleHexAtoiU32 ("0x" ++ hexPadded width n.toNat) = some (n.toNat : Int) := by
  have hstrip := strip_hexPadded width n.toNat
  have hparse := safeParseInt_hexPadded width n.toNat
  have hrange : ((n.toNat : Nat) : Int) ≤ 2 ^ 32 - 1 := by
    have := n.toNat_lt
    omega
  generalize "0x" ++ hexPadded width n.toNat = text at hstrip hparse ⊢
  have hminus : refuseMinus text = some () := by simp [refuseMinus,hstrip]
  rw [simpleHexAtoiU32,hminus,Option.bind_some,hparse,Option.bind_some,inRange,if_pos ⟨Int.natCast_nonneg _,hrange⟩]

end SonicPins.Lib
