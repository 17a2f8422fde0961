import Mathlib.Data.Nat.Digits.Defs
import Mathlib.Data.Nat.Digits.Lemmas

/-! Byte strings, ASCII text and numerals, as the string utilities of the
standard library and of Abseil treat them. -/
namespace SonicPins.Lib

variable {l : List Char} {sep : Char}

/-- The contents of a `std::string` that need not be text. -/
abbrev Bytes := List UInt8

def utf8 (s : String) : Bytes := s.toUTF8.data.toList

/-- `utf8_range::IsStructurallyValid`, with the text it validates. -/
def ofUtf8? (b : Bytes) : Option String := String.fromUTF8? ⟨b.toArray⟩

@[simp] theorem ofUtf8?_utf8 (s : String) : ofUtf8? (utf8 s) = some s := by
  unfold ofUtf8? utf8 String.fromUTF8?
  simp only [Array.toArray_toList]
  rw [dif_pos (by simpa using s.isValidUTF8)]
  rfl

theorem utf8_of_ofUtf8? {b : Bytes} {s : String} (h : ofUtf8? b = some s) : utf8 s = b := by
  unfold ofUtf8? String.fromUTF8? at h
  split at h
  · rw [← Option.some_injective _ h]
    simp [utf8,String.fromUTF8]
  · cases h

theorem utf8_injective : Function.Injective utf8 := by
  intro s t h
  have h := congrArg ofUtf8? h
  simpa using h

theorem utf8_ofList_cons (c : Char) (l : List Char) :
    utf8 (String.ofList (c :: l)) = String.utf8EncodeChar c ++ utf8 (String.ofList l) := by
  simp [utf8,String.toByteArray_ofList,List.utf8Encode_singleton]

theorem length_utf8_ofList (h : ∀ c ∈ l,c ≤ '\x7f') : (utf8 (String.ofList l)).length = l.length := by
  induction l with
  | nil => rfl
  | cons c l ih =>
    have hsize : c.utf8Size = 1 := Char.utf8Size_eq_one_iff.mpr (h c List.mem_cons_self)
    rw [utf8_ofList_cons,List.length_append,ih fun x hx => h x (List.mem_cons_of_mem _ hx),
      String.utf8EncodeChar_eq_singleton hsize,List.length_singleton,List.length_cons,Nat.add_comm]

def asciiToUpper (s : String) : String := String.ofList (s.toList.map Char.toUpper)

def asciiToLower (s : String) : String := String.ofList (s.toList.map Char.toLower)

/-- `absl::StrSplit` at a single character. -/
def splitChars (sep : Char) : List Char → List (List Char)
  | [] => [[]]
  | c :: cs =>
    if c = sep then [] :: splitChars sep cs
    else match splitChars sep cs with
      | [] => [[c]]
      | w :: ws => (c :: w) :: ws

def strSplit (sep : Char) (s : String) : List String := (splitChars sep s.toList).map String.ofList

theorem splitChars_ne_nil (sep : Char) (l : List Char) : splitChars sep l ≠ [] := by
  cases l with
  | nil => simp [splitChars]
  | cons c l => unfold splitChars; split <;> [simp; (split <;> simp)]

theorem splitChars_of_notMem (h : sep ∉ l) : splitChars sep l = [l] := by
  induction l with
  | nil => rfl
  | cons c l ih =>
    have hc : c ≠ sep := fun hc => h (by simp [hc])
    have hl := ih fun hm => h (by simp [hm])
    simp [splitChars,hc,hl]

theorem splitChars_append_cons (h : sep ∉ l) (r : List Char) : splitChars sep (l ++ sep :: r) = l :: splitChars sep r := by
  induction l with
  | nil => simp [splitChars]
  | cons c l ih =>
    have hc : c ≠ sep := fun hc => h (by simp [hc])
    have hl := ih fun hm => h (by simp [hm])
    simp [splitChars,hc,hl]

/-- `absl::StrJoin` with a single character. -/
def joinChars (sep : Char) : List (List Char) → List Char
  | [] => []
  | [w] => w
  | w :: ws => w ++ sep :: joinChars sep ws

theorem splitChars_joinChars {ws : List (List Char)} (hne : ws ≠ []) (h : ∀ w ∈ ws,sep ∉ w) :
    splitChars sep (joinChars sep ws) = ws := by
  induction ws with
  | nil => exact absurd rfl hne
  | cons w ws ih =>
    have hw : sep ∉ w := h w List.mem_cons_self
    cases ws with
    | nil => exact splitChars_of_notMem hw
    | cons w' ws =>
      have hrest := ih (by simp) fun x hx => h x (List.mem_cons_of_mem _ hx)
      have hjoin : joinChars sep (w :: w' :: ws) = w ++ sep :: joinChars sep (w' :: ws) := rfl
      rw [hjoin,splitChars_append_cons hw,hrest]

/-- `std::string::starts_with` together with the rest of the text. -/
def dropPrefixChars : List Char → List Char → Option (List Char)
  | [],s => some s
  | p :: ps,c :: cs => if p = c then dropPrefixChars ps cs else none
  | _ :: _,[] => none

/-- `absl::StartsWith` followed by `absl::StripPrefix`. -/
def strDropPrefix (p s : String) : Option String := (dropPrefixChars p.toList s.toList).map String.ofList

@[simp] theorem dropPrefixChars_append (p s : List Char) : dropPrefixChars p (p ++ s) = some s := by
  induction p with
  | nil => rfl
  | cons c p ih => simp [dropPrefixChars,ih]

@[simp] theorem strDropPrefix_append (p s : String) : strDropPrefix p (p ++ s) = some s := by
  simp [strDropPrefix]

theorem prefixed_injective (text : String) : Function.Injective fun name : String => text ++ name := by
  intro a b h
  have h := congrArg (strDropPrefix text) h
  simpa using h

theorem dropPrefixChars_eq_some {p s r : List Char} (h : dropPrefixChars p s = some r) : s = p ++ r := by
  induction p generalizing s with
  | nil => simpa [dropPrefixChars] using h
  | cons c p ih =>
    cases s with
    | nil => simp [dropPrefixChars] at h
    | cons d s =>
      unfold dropPrefixChars at h
      split at h
      · rename_i hcd
        rw [ih h,hcd,List.cons_append]
      · cases h

/-- The value of a digit in any base up to sixteen. -/
def digitValue (c : Char) : Option Nat :=
  if '0' ≤ c ∧ c ≤ '9' then some (c.toNat - '0'.toNat)
  else if 'a' ≤ c ∧ c ≤ 'f' then some (c.toNat - 'a'.toNat + 10)
  else if 'A' ≤ c ∧ c ≤ 'F' then some (c.toNat - 'A'.toNat + 10)
  else none

/-- The numeral of a natural number, lower case and without leading zeros. -/
def numeral (base n : Nat) : List Char :=
  if n = 0 then ['0'] else ((Nat.digits base n).reverse).map Nat.digitChar

/-- Reads a nonempty run of digits. -/
def readNumeral (base : Nat) (l : List Char) : Option Nat :=
  if l.isEmpty then none
  else l.foldl (fun acc c => acc.bind fun a => (digitValue c).bind fun d =>
    if d < base then some (a * base + d) else none) (some 0)

theorem digitValue_digitChar : ∀ d < 16,digitValue (Nat.digitChar d) = some d := by
  decide

theorem numeral_ne_nil (base n : Nat) : numeral base n ≠ [] := by
  unfold numeral
  split
  · simp
  · rename_i hn
    simpa [Nat.digits_eq_nil_iff_eq_zero] using hn

theorem readNumeral_numeral {base : Nat} (hb : 1 < base) (hb16 : base ≤ 16) (n : Nat) :
    readNumeral base (numeral base n) = some n := by
  have hread (ds : List Nat) (hds : ∀ d ∈ ds,d < base) :
      (ds.reverse.map Nat.digitChar).foldl (fun acc c => acc.bind fun a => (digitValue c).bind fun d =>
        if d < base then some (a * base + d) else none) (some 0) = some (Nat.ofDigits base ds) := by
    rw [List.foldl_map,List.foldl_reverse]
    induction ds with
    | nil => simp
    | cons d ds ih =>
      have hd : d < base := hds d (by simp)
      rw [List.foldr_cons,ih fun e he => hds e (by simp [he])]
      simp only [Option.bind_some,digitValue_digitChar d (by omega),hd,if_true,Nat.ofDigits_cons]
      congr 1
      ring
  unfold readNumeral
  rw [if_neg (by simpa using numeral_ne_nil base n)]
  unfold numeral
  split
  · rename_i hn
    simp [hn,digitValue,show 0 < base by omega]
  · rw [hread _ fun d hd => Nat.digits_lt_base hb hd,Nat.ofDigits_digits]

theorem digitValue_of_mem_numeral {base : Nat} (hb : 1 < base) (hb16 : base ≤ 16) {n : Nat} {c : Char}
    (hc : c ∈ numeral base n) : ∃ d,d < base ∧ c = Nat.digitChar d := by
  unfold numeral at hc
  split at hc
  · exact ⟨0,by omega,List.mem_singleton.mp hc⟩
  · obtain ⟨d,hd,rfl⟩ := List.mem_map.mp hc
    exact ⟨d,Nat.digits_lt_base hb (List.mem_reverse.mp hd),rfl⟩

/-- `absl::StrCat` of a signed integer. -/
def decimal : Int → String
  | .ofNat n => String.ofList (numeral 10 n)
  | .negSucc n => String.ofList ('-' :: numeral 10 (n + 1))

def isAsciiSpace (c : Char) : Bool := c = ' ' || ('\t' ≤ c && c ≤ '\r')

/-- The sign that `std::stoi` and `std::stoull` read. -/
def splitSign : List Char → Bool × List Char
  | '-' :: l => (true,l)
  | '+' :: l => (false,l)
  | l => (false,l)

theorem splitSign_unsigned {c : Char} (hminus : c ≠ '-') (hplus : c ≠ '+') : splitSign (c :: l) = (false,c :: l) := by
  unfold splitSign
  split
  · rename_i h
    exact absurd (List.cons.inj h).1 hminus
  · rename_i h
    exact absurd (List.cons.inj h).1 hplus
  · rfl

def stripAsciiWhitespace (l : List Char) : List Char :=
  ((l.dropWhile isAsciiSpace).reverse.dropWhile isAsciiSpace).reverse

/-- The numeral parser behind `absl::SimpleAtoi` and `absl::SimpleHexAtoi`: outer
whitespace, an optional sign, and for base sixteen an optional `0x`. -/
def safeParseInt (base : Nat) (s : String) : Option Int :=
  let body (l : List Char) : Option Nat :=
    match l with
    | '0' :: x :: ds => if base = 16 ∧ (x = 'x' ∨ x = 'X') then readNumeral base ds else readNumeral base l
    | l => readNumeral base l
  match stripAsciiWhitespace s.toList with
  | '-' :: l => (body l).map fun n => -(n : Int)
  | '+' :: l => (body l).map fun n => (n : Int)
  | l => (body l).map fun n => (n : Int)

def inRange (lo hi : Int) (n : Int) : Option Int := if lo ≤ n ∧ n ≤ hi then some n else none

/-- Unsigned targets refuse a minus sign, also before zero. -/
def refuseMinus (s : String) : Option Unit :=
  match stripAsciiWhitespace s.toList with
  | '-' :: _ => none
  | _ => some ()

def simpleAtoi32 (s : String) : Option Int := (safeParseInt 10 s).bind (inRange (-2 ^ 31) (2 ^ 31 - 1))
def simpleAtoi64 (s : String) : Option Int := (safeParseInt 10 s).bind (inRange (-2 ^ 63) (2 ^ 63 - 1))
def simpleAtoiU32 (s : String) : Option Int :=
  (refuseMinus s).bind fun _ => (safeParseInt 10 s).bind (inRange 0 (2 ^ 32 - 1))
def simpleAtoiU64 (s : String) : Option Int :=
  (refuseMinus s).bind fun _ => (safeParseInt 10 s).bind (inRange 0 (2 ^ 64 - 1))
def simpleHexAtoi32 (s : String) : Option Int := (safeParseInt 16 s).bind (inRange (-2 ^ 31) (2 ^ 31 - 1))
def simpleHexAtoiU32 (s : String) : Option Int :=
  (refuseMinus s).bind fun _ => (safeParseInt 16 s).bind (inRange 0 (2 ^ 32 - 1))

/-- `absl::Hex` and `%0Nx`: a lower case hexadecimal numeral, padded with zeros. -/
def hexPadded (width n : Nat) : String :=
  let ds := numeral 16 n
  String.ofList (List.replicate (width - ds.length) '0' ++ ds)

end SonicPins.Lib
