import SonicPins.Lib.Text
import SonicPins.Pdpi.Values

/-! Decimal strings of integers, a character for each byte of the string. A conversion in which
an intermediate result leaves the integer type has no result. -/
namespace SonicPins.StringEncodings
open Lib Pdpi

/-- The types that a decimal string is converted to; `int` is the first one. -/
inductive IntType where
  | int32 | int64 | uint32 | uint64
  deriving DecidableEq,Repr

namespace IntType

def minValue : IntType → Int
  | .int32 => -2 ^ 31
  | .int64 => -2 ^ 63
  | .uint32 => 0
  | .uint64 => 0

def maxValue : IntType → Int
  | .int32 => 2 ^ 31 - 1
  | .int64 => 2 ^ 63 - 1
  | .uint32 => 2 ^ 32 - 1
  | .uint64 => 2 ^ 64 - 1

def result (t : IntType) (n : Int) : Option Int := if t.minValue ≤ n ∧ n ≤ t.maxValue then some n else none

end IntType

def containsNonDigit (decimalString : List Char) (decimalChar : Char) : Status :=
  invalidArgument ("invalid decimal string, " ++ String.ofList decimalString ++ " contains non-digit character: " ++
    String.singleton decimalChar ++ ".")

def startsWithZero (decimalString : List Char) : Status :=
  invalidArgument ("invalid decimal string, " ++ String.ofList decimalString ++ " starts with 0.")

def exceedsLimit (t : IntType) (decimalString : List Char) : Status :=
  invalidArgument ("invalid decimal string, " ++ String.ofList decimalString ++ " exceeds the numeric limit of " ++
    decimal t.maxValue ++ ".")

/-- The second comparison is made only if the first one fails. -/
def overflows (t : IntType) (result digit : Int) : Option Bool := do
  let tenth ← t.result (t.maxValue / 10)
  if result > tenth then some true
  else
    let shifted ← t.result (result * 10)
    let limit ← t.result (t.maxValue - digit)
    some (shifted > limit)

/-- A byte that is negative as a `char` is no digit. -/
def readDigits (t : IntType) (decimalString : List Char) : List Char → Int → Option (StatusOr Int)
  | [],result => some (.ok result)
  | decimalChar :: rest,result =>
    if !decimalChar.isDigit then some (.error (containsNonDigit decimalString decimalChar))
    else do
      let digit ← t.result (decimalChar.toNat - '0'.toNat)
      if result = 0 ∧ digit = 0 ∧ 1 < decimalString.length then some (.error (startsWithZero decimalString))
      else if ← overflows t result digit then some (.error (exceedsLimit t decimalString))
      else
        let shifted ← t.result (result * 10)
        let next ← t.result (shifted + digit)
        readDigits t decimalString rest next

def decimalStringTo (t : IntType) (decimalString : List Char) : Option (StatusOr Int) :=
  readDigits t decimalString decimalString 0

def toDecimalString (value : Int) : StatusOr (List Char) :=
  if value < 0 then
    .error (invalidArgument ("invalid decimal value, only positive value is allowed but input value is: " ++ decimal value ++ "."))
  else .ok (decimal value).toList

section Steps
variable {t : IntType}

theorem IntType.minValue_le (t : IntType) : t.minValue ≤ 0 := by
  cases t <;> decide

theorem IntType.nine_le_maxValue (t : IntType) : 9 ≤ t.maxValue := by
  cases t <;> decide

theorem IntType.result_eq {n : Int} (h : 0 ≤ n) (hle : n ≤ t.maxValue) : t.result n = some n :=
  if_pos ⟨t.minValue_le.trans h,hle⟩

private theorem overflows_eq {result digit : Int} (hresult : 0 ≤ result) (hdigit : 0 ≤ digit) (hnine : digit ≤ 9) :
    overflows t result digit = some (decide (t.maxValue < result * 10 + digit)) := by
  have hmax := t.nine_le_maxValue
  rw [overflows,IntType.result_eq (by omega) (by omega)]
  simp only [Option.bind_eq_bind,Option.bind_some]
  by_cases htenth : t.maxValue / 10 < result
  · rw [if_pos htenth,decide_eq_true (by omega)]
  · rw [if_neg htenth,IntType.result_eq (by omega) (by omega),IntType.result_eq (by omega) (by omega)]
    simp only [Option.bind_some,Option.some.injEq,decide_eq_decide]
    omega

theorem digit_bounds {c : Char} (h : c.isDigit = true) : 48 ≤ c.toNat ∧ c.toNat ≤ 57 := by
  simpa [Char.isDigit,UInt32.le_iff_toNat_le] using h

theorem readDigits_cons (t : IntType) (decimalString rest : List Char) {c : Char} (value : Nat) (hc : c.isDigit = true) :
    readDigits t decimalString (c :: rest) value =
      if value = 0 ∧ c.toNat - 48 = 0 ∧ 1 < decimalString.length then some (.error (startsWithZero decimalString))
      else if t.maxValue < ((10 * value + (c.toNat - 48) : Nat) : Int) then some (.error (exceedsLimit t decimalString))
      else readDigits t decimalString rest ((10 * value + (c.toNat - 48) : Nat) : Int) := by
  obtain ⟨hlow,hhigh⟩ := digit_bounds hc
  have hmax := t.nine_le_maxValue
  obtain ⟨digit,hdigit⟩ : ∃ digit : Nat,digit = c.toNat - 48 := ⟨_,rfl⟩
  have hint : (c.toNat : Int) - ('0'.toNat : Int) = (digit : Int) := by
    rw [hdigit,show ('0'.toNat : Int) = 48 from rfl]
    omega
  have hnext : ((10 * value + digit : Nat) : Int) = (value : Int) * 10 + digit := by
    push_cast
    ring
  rw [readDigits,if_neg (by simp [hc]),hint,← hdigit,hnext,IntType.result_eq (by omega) (by omega)]
  simp only [Option.bind_eq_bind,Option.bind_some,Int.natCast_eq_zero]
  split
  · rfl
  · rw [overflows_eq (by omega) (by omega) (by omega),Option.bind_some]
    by_cases hover : t.maxValue < (value : Int) * 10 + digit
    · rw [if_pos (decide_eq_true hover),if_pos hover]
    · rw [if_neg (by simpa using hover),if_neg hover,IntType.result_eq (by omega) (by omega),Option.bind_some,
        IntType.result_eq (by omega) (by omega),Option.bind_some]

end Steps

section Grammar
variable {t : IntType} {decimalString rest : List Char} {value : Nat}

/-- Digits without superfluous leading zeros. -/
structure IsDecimal (decimalString : List Char) : Prop where
  nonempty : decimalString ≠ []
  digits : ∀ c ∈ decimalString,c.isDigit = true
  leading : decimalString.head? = some '0' → decimalString.length = 1

/-- The result for a string is the value that the digits make of the given number, if there is one. -/
def ReadsRest (t : IntType) (decimalString rest : List Char) (value : Nat) : Prop :=
  ∃ result,readDigits t decimalString rest value = some result ∧
    ∀ n,result = .ok n ↔ (∀ c ∈ rest,c.isDigit = true) ∧ (Nat.ofDigitChars 10 rest value : Int) ≤ t.maxValue ∧
      n = Nat.ofDigitChars 10 rest value

private theorem le_ofDigitChars (rest : List Char) (value : Nat) : value ≤ Nat.ofDigitChars 10 rest value := by
  rw [Nat.ofDigitChars_eq_ofDigitChars_zero]
  have hpos : 1 * value ≤ 10 ^ rest.length * value := Nat.mul_le_mul_right _ (Nat.one_le_pow _ _ (by decide))
  omega

theorem ReadsRest.of_nonDigit {c : Char} (hc : ¬ c.isDigit = true) : ReadsRest t decimalString (c :: rest) value := by
  refine ⟨_,by rw [readDigits,if_pos (by simp [hc])],fun n => ?_⟩
  exact iff_of_false (by simp) fun h => hc (h.1 c List.mem_cons_self)

theorem ReadsRest.step {c : Char} (hc : c.isDigit = true)
    (hleading : ¬ (value = 0 ∧ c.toNat - 48 = 0 ∧ 1 < decimalString.length))
    (hnext : ((10 * value + (c.toNat - 48) : Nat) : Int) ≤ t.maxValue → ReadsRest t decimalString rest (10 * value + (c.toNat - 48))) :
    ReadsRest t decimalString (c :: rest) value := by
  have hvalue : Nat.ofDigitChars 10 (c :: rest) value = Nat.ofDigitChars 10 rest (10 * value + (c.toNat - 48)) :=
    Nat.ofDigitChars_cons
  unfold ReadsRest
  rw [readDigits_cons _ _ _ _ hc,if_neg hleading,hvalue]
  by_cases hover : t.maxValue < ((10 * value + (c.toNat - 48) : Nat) : Int)
  · rw [if_pos hover]
    refine ⟨_,rfl,fun n => iff_of_false (by simp) fun h => ?_⟩
    have hgrows := le_ofDigitChars rest (10 * value + (c.toNat - 48))
    omega
  · rw [if_neg hover]
    obtain ⟨result,hresult,hspec⟩ := hnext (by omega)
    refine ⟨result,hresult,fun n => ?_⟩
    rw [hspec,List.forall_mem_cons]
    simp [hc]

private theorem readsRest_of_pos (hpos : 0 < value) (hle : (value : Int) ≤ t.maxValue) : ReadsRest t decimalString rest value := by
  induction rest generalizing value with
  | nil =>
    refine ⟨_,rfl,fun n => ?_⟩
    rw [Nat.ofDigitChars_nil,Except.ok.injEq,eq_comm]
    simp [hle]
  | cons c rest ih =>
    by_cases hc : c.isDigit = true
    · exact .step hc (by omega) fun hnext => ih (by omega) hnext
    · exact .of_nonDigit hc

theorem char_eq_zero {c : Char} (hc : c.isDigit = true) : c.toNat - 48 = 0 ↔ c = '0' := by
  have hbounds := digit_bounds hc
  constructor
  · intro h
    exact Char.toNat_inj.mp (by rw [show '0'.toNat = 48 from rfl]; omega)
  · rintro rfl
    rfl

/-- Exactly the decimal texts of the numbers in range are read. -/
def ReadsDecimal (t : IntType) (decimalString : List Char) : Prop :=
  ∃ result,decimalStringTo t decimalString = some result ∧
    ∀ n,result = .ok n ↔ IsDecimal decimalString ∧ (Nat.ofDigitChars 10 decimalString 0 : Int) ≤ t.maxValue ∧
      n = Nat.ofDigitChars 10 decimalString 0

theorem readsDecimal_of_nonempty (h : decimalString ≠ []) : ReadsDecimal t decimalString := by
  obtain ⟨c,rest,rfl⟩ := List.exists_cons_of_ne_nil h
  have hmax := t.nine_le_maxValue
  by_cases hc : c.isDigit = true
  · by_cases hleading : c = '0' ∧ 1 < (c :: rest).length
    · have hzero := (char_eq_zero hc).mpr hleading.1
      refine ⟨.error (startsWithZero (c :: rest)),?_,fun n => iff_of_false (by simp) fun h => ?_⟩
      · have hstep := readDigits_cons t (c :: rest) rest 0 hc
        rw [if_pos ⟨rfl,hzero,hleading.2⟩] at hstep
        exact hstep
      · have hone := h.1.leading (by rw [hleading.1]; rfl)
        omega
    · have hread : ReadsRest t (c :: rest) (c :: rest) 0 := by
        refine .step hc (fun h => hleading ⟨(char_eq_zero hc).mp h.2.1,h.2.2⟩) fun hnext => ?_
        rcases Nat.eq_zero_or_pos (10 * 0 + (c.toNat - 48)) with hzero | hpos
        · have hrest : rest = [] := by
            have hone : ¬ 1 < (c :: rest).length := fun hlong => hleading ⟨(char_eq_zero hc).mp (by omega),hlong⟩
            rw [List.length_cons] at hone
            exact List.eq_nil_of_length_eq_zero (by omega)
          subst hrest
          refine ⟨_,rfl,fun n => ?_⟩
          rw [Nat.ofDigitChars_nil,Except.ok.injEq,eq_comm]
          exact ⟨fun hn => ⟨by simp,hnext,hn⟩,fun h => h.2.2⟩
        · exact readsRest_of_pos hpos hnext
      obtain ⟨result,hresult,hspec⟩ := hread
      refine ⟨result,hresult,fun n => ?_⟩
      rw [hspec]
      refine and_congr_left fun _ => ⟨fun hdigits => ⟨by simp,hdigits,fun hhead => ?_⟩,fun hdecimal => hdecimal.digits⟩
      have hzero : c = '0' := Option.some.inj hhead
      by_contra hlong
      rw [List.length_cons] at hlong
      exact hleading ⟨hzero,by rw [List.length_cons]; omega⟩
  · obtain ⟨result,hresult,hspec⟩ : ReadsRest t (c :: rest) (c :: rest) 0 := .of_nonDigit hc
    refine ⟨result,hresult,fun n => ?_⟩
    rw [hspec]
    exact iff_of_false (fun h => hc (h.1 c List.mem_cons_self)) fun h => hc (h.1.digits c List.mem_cons_self)

end Grammar

variable {t : IntType}

private theorem numeral_eq_toDigits (n : Nat) : numeral 10 n = Nat.toDigits 10 n := by
  induction n using Nat.strong_induction_on with
  | _ n ih =>
    rw [Nat.toDigits_eq_if (by decide)]
    by_cases hn : n < 10
    · rw [if_pos hn]
      by_cases hzero : n = 0
      · rw [hzero]
        rfl
      · rw [numeral,if_neg hzero,Nat.digits_of_lt 10 n hzero hn]
        rfl
    · rw [if_neg hn,← ih (n / 10) (by omega),numeral,numeral,if_neg (by omega),if_neg (by omega),
        Nat.digits_def' (by decide) (by omega),List.reverse_cons,List.map_append]
      rfl

private theorem head_toDigits {n : Nat} (h : 0 < n) : (Nat.toDigits 10 n).head? ≠ some '0' := by
  induction n using Nat.strong_induction_on with
  | _ n ih =>
    rw [Nat.toDigits_eq_if (by decide)]
    by_cases hn : n < 10
    · rw [if_pos hn,List.head?_cons]
      interval_cases n <;> decide
    · rw [if_neg hn,List.head?_append_of_ne_nil _ Nat.toDigits_ne_nil]
      exact ih (n / 10) (by omega) (by omega)

theorem isDecimal_toDigits (n : Nat) : IsDecimal (Nat.toDigits 10 n) where
  nonempty := Nat.toDigits_ne_nil
  digits c hc := Nat.isDigit_of_mem_toDigits (by decide) (by decide) hc
  leading hhead := by
    rcases Nat.eq_zero_or_pos n with rfl | hpos
    · rfl
    · exact absurd hhead (head_toDigits hpos)

/-- Every number in range is read from its text. -/
def DecimalRoundTrip (t : IntType) : Prop :=
  ∀ value,0 ≤ value → value ≤ t.maxValue →
    ∃ text,toDecimalString value = .ok text ∧ decimalStringTo t text = some (.ok value)

private theorem decimalRoundTrip (t : IntType) : DecimalRoundTrip t := by
  intro value hpos hle
  obtain ⟨n,rfl⟩ := Int.eq_ofNat_of_zero_le hpos
  have htext : (decimal (n : Int)).toList = Nat.toDigits 10 n := by
    rw [← numeral_eq_toDigits]
    exact String.toList_ofList
  obtain ⟨result,hresult,hspec⟩ := readsDecimal_of_nonempty (t := t) (isDecimal_toDigits n).nonempty
  refine ⟨_,if_neg (by omega),?_⟩
  rw [htext,hresult,(hspec n).mpr ⟨isDecimal_toDigits n,by rwa [Nat.ofDigitChars_ten_toDigits],by rw [Nat.ofDigitChars_ten_toDigits]⟩]

private theorem decimalStringTo_nil (t : IntType) : decimalStringTo t [] = some (.ok 0) := rfl

theorem not_readsDecimal_nil (t : IntType) : ¬ ReadsDecimal t [] := by
  rintro ⟨result,hresult,hspec⟩
  rw [decimalStringTo_nil] at hresult
  exact ((hspec 0).mp (Option.some.inj hresult).symm).1.nonempty rfl

/-- The texts that are read are those of the grammar, except that the empty one is read as well. -/
theorem decimal_conversions_iff (t : IntType) (decimalString : List Char) :
    ReadsDecimal t decimalString ∧ DecimalRoundTrip t ↔ decimalString ≠ [] := by
  constructor
  · rintro ⟨hreads,-⟩ rfl
    exact not_readsDecimal_nil t hreads
  · exact fun h => ⟨readsDecimal_of_nonempty h,decimalRoundTrip t⟩

example : decimalStringTo .int32 ['2','1','4','7','4','8','3','6','4','7'] = some (.ok 2147483647) := by decide

/-- Read as the `int` zero. -/
theorem empty_decimal : ¬ (ReadsDecimal .int32 [] ∧ DecimalRoundTrip .int32) := fun h => not_readsDecimal_nil _ h.1

end SonicPins.StringEncodings
