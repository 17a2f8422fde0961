import Mathlib.Data.List.TakeWhile
import SonicPins.Lib.TextReading
import SonicPins.P4Symbolic.Z3Util

/-! What the readers make of the texts of bit-vector values, and what the deparser writes. -/
namespace SonicPins.P4Symbolic
open Lib Pdpi Packetlib Ir

variable {n base : Nat} {l : List Char} {headerName : String}

private theorem natToHexDigits_mod (n v : Nat) : natToHexDigits n (v % 16 ^ n) = natToHexDigits n v := by
  induction n generalizing v with
  | zero => rfl
  | succ n ih =>
    have hdiv : v % 16 ^ (n + 1) / 16 = v / 16 % 16 ^ n := by
      rw [Nat.pow_succ,Nat.mul_comm,Nat.mod_mul_right_div_self]
    have hmod : v % 16 ^ (n + 1) % 16 = v % 16 := Nat.mod_mod_of_dvd v (Dvd.intro_left _ (Nat.pow_succ ..).symm)
    rw [natToHexDigits,natToHexDigits,hdiv,hmod,ih]

private theorem natToHexDigits_cons (n v : Nat) :
    natToHexDigits (n + 1) v = Nat.digitChar (v / 16 ^ n % 16) :: natToHexDigits n v := by
  induction n generalizing v with
  | zero => simp [natToHexDigits]
  | succ n ih =>
    have hdiv : v / 16 / 16 ^ n = v / 16 ^ (n + 1) := by rw [Nat.div_div_eq_div_mul,Nat.pow_succ,Nat.mul_comm]
    rw [natToHexDigits,ih,hdiv,natToHexDigits,List.cons_append]

theorem pow_sixteen (n : Nat) : 16 ^ n = 2 ^ (4 * n) := by
  rw [Nat.pow_mul]

theorem hexStringToByteString_digits (heven : n % 2 = 0) (v : Nat) :
    ∃ bytes,hexStringToByteString (String.ofList ('0' :: 'x' :: natToHexDigits n v)) = .ok bytes ∧
      bytesToBits bytes = natToBits (4 * n) v := by
  have hlength := length_natToBits (4 * n) v
  have hlt : v % 2 ^ (4 * n) < 2 ^ (4 * n) := Nat.mod_lt _ (Nat.two_pow_pos _)
  have hdigits : numHexDigits (4 * n) = n := by unfold numHexDigits; omega
  have htext : BitString.toHexString (natToBits (4 * n) v) = String.ofList ('0' :: 'x' :: natToHexDigits n v) := by
    rw [BitString.toHexString,hlength,hdigits,← natToBits_mod,bitsToNat_natToBits hlt,← pow_sixteen,natToHexDigits_mod]
  have h8 : (natToBits (4 * n) v).length % 8 = 0 := by omega
  rw [← htext]
  exact ⟨_,hexStringToByteString_toHexString h8,bytesToBits_bitsToBytes h8⟩

private theorem hexCharToDigit_digitChar {d : Nat} (hd : d < 16) : hexCharToDigit (Nat.digitChar d) = .ok d := by
  rw [hexCharToDigit,digitValue_digitChar d hd]

private theorem appendHexCharString_digits (result : BitString) (n v : Nat) :
    appendHexCharStringToPDPIBitString result (natToHexDigits n v) (4 * n) = .ok (result ++ natToBits (4 * n) v) := by
  have hpad : 4 * n - n * 4 = 0 := by omega
  unfold appendHexCharStringToPDPIBitString
  rw [length_natToHexDigits,if_neg (by omega),hpad]
  simp only [List.replicate_zero,List.append_nil]
  by_cases hodd : n % 2 = 1
  · obtain ⟨m,rfl⟩ : ∃ m,n = m + 1 := ⟨n - 1,by omega⟩
    have hdigit : v / 16 ^ m % 16 < 16 := Nat.mod_lt _ (by decide)
    obtain ⟨bytes,hbytes,hbits⟩ := hexStringToByteString_digits (n := m) (by omega) v
    have hsplit : natToBits (4 * (m + 1)) v = natToBits 4 (v / 16 ^ m % 16) ++ natToBits (4 * m) v := by
      rw [show 4 * (m + 1) = 4 + 4 * m by omega,natToBits_append,pow_sixteen,← natToBits_mod 4]
      rfl
    rw [if_pos hodd,natToHexDigits_cons]
    simp only [List.headD_cons,List.drop_one,List.tail_cons]
    rw [hexCharToDigit_digitChar hdigit,hsplit,← List.append_assoc,← hbits]
    change (hexStringToByteString _).map _ = _
    rw [hbytes]
    rfl
  · obtain ⟨bytes,hbytes,hbits⟩ := hexStringToByteString_digits (n := n) (by omega) v
    rw [if_neg hodd,← hbits,appendHexString,hbytes]
    rfl

private theorem readBitChars_bits (whole : List Char) (bits : List Bool) : readBitChars whole (bits.map bitChar) = .ok bits := by
  induction bits with
  | nil => rfl
  | cons b bits ih =>
    rw [List.map_cons]
    cases b with
    | true =>
      change (readBitChars whole (bits.map bitChar)).map (true :: ·) = _
      rw [ih]
      rfl
    | false =>
      change (readBitChars whole (bits.map bitChar)).map (false :: ·) = _
      rw [ih]
      rfl

private theorem appendBitCharString_bits (result : BitString) (bits : List Bool) :
    appendBitCharStringToPDPIBitString result (bits.map bitChar) bits.length = .ok (result ++ bits) := by
  unfold appendBitCharStringToPDPIBitString
  rw [List.length_map,if_neg (by omega),Nat.sub_self,readBitChars_bits]
  simp [Except.map]

theorem appendZ3ValueString_bitVectorText (result : BitString) (w v : Nat) :
    appendZ3ValueStringToBitString result (bitVectorText w v) w = .ok (result ++ natToBits w v) := by
  unfold bitVectorText appendZ3ValueStringToBitString
  by_cases hw : w % 4 = 0
  · have hwidth : 4 * (w / 4) = w := by omega
    have happend := appendHexCharString_digits result (w / 4) v
    rw [hwidth] at happend
    rw [if_pos hw,String.toList_ofList]
    exact happend
  · have happend := appendBitCharString_bits result (natToBits w v)
    rw [length_natToBits] at happend
    rw [if_neg hw,String.toList_ofList]
    exact happend

theorem readNumeral_append {c : Char} {v d : Nat} (hl : l = [] ∧ v = 0 ∨ readNumeral base l = some v)
    (hc : digitValue c = some d) (hd : d < base) : readNumeral base (l ++ [c]) = some (v * base + d) := by
  have hfold : l.foldl (fun acc c => acc.bind fun a => (digitValue c).bind fun d =>
      if d < base then some (a * base + d) else none) (some 0) = some v := by
    rcases hl with ⟨rfl,rfl⟩ | hl
    · rfl
    · unfold readNumeral at hl
      split at hl
      · cases hl
      · exact hl
  unfold readNumeral
  rw [if_neg (by simp),List.foldl_append,hfold]
  simp [hc,hd]

theorem readNumeral_hexDigits {v : Nat} (hn : 0 < n) (hv : v < 16 ^ n) : readNumeral 16 (natToHexDigits n v) = some v := by
  have hgeneral : natToHexDigits n v = [] ∧ v = 0 ∨ readNumeral 16 (natToHexDigits n v) = some v := by
    clear hn
    induction n generalizing v with
    | zero => exact .inl ⟨rfl,by simpa using hv⟩
    | succ n ih =>
      have hdiv : v / 16 < 16 ^ n := by
        rw [Nat.div_lt_iff_lt_mul (by decide)]
        simpa [Nat.pow_succ] using hv
      have hmod : v % 16 < 16 := Nat.mod_lt v (by decide)
      have hread := readNumeral_append (ih hdiv) (digitValue_digitChar _ hmod) hmod
      right
      rw [natToHexDigits,hread]
      congr 1
      omega
  rcases hgeneral with ⟨hnil,-⟩ | hread
  · have hlength := length_natToHexDigits n v
    rw [hnil,List.length_nil] at hlength
    omega
  · exact hread

theorem digitValue_bitChar (b : Bool) : digitValue (bitChar b) = some b.toNat := by
  cases b <;> rfl

theorem readNumeral_bits {bits : List Bool} (h : bits ≠ []) : readNumeral 2 (bits.map bitChar) = some (bitsToNat bits) := by
  have hgeneral : bits.map bitChar = [] ∧ bitsToNat bits = 0 ∨ readNumeral 2 (bits.map bitChar) = some (bitsToNat bits) := by
    clear h
    induction bits using List.reverseRecOn with
    | nil => exact .inl ⟨rfl,rfl⟩
    | append_singleton bits b ih =>
      have hb : b.toNat < 2 := by cases b <;> decide
      right
      rw [List.map_append,List.map_singleton,bitsToNat_concat]
      exact readNumeral_append ih (digitValue_bitChar b) hb
  rcases hgeneral with ⟨hnil,-⟩ | hread
  · exact absurd (List.map_eq_nil_iff.mp hnil) h
  · exact hread

/-- Texts of nothing but digits, in a base that has them. -/
structure DigitText (base : Nat) (l : List Char) : Prop where
  digits : ∀ c ∈ l,(digitValue c).any (· < base) = true
  base : base = 2 ∨ base = 16

theorem DigitText.char (h : DigitText base l) {c : Char} (hc : c ∈ l) :
    isAsciiSpace c = false ∧ c ≠ '-' ∧ c ≠ '+' ∧ c ≠ 'x' ∧ c ≠ 'X' := by
  have hdigit := h.digits c hc
  have hnot : ∀ d,digitValue d = none → c ≠ d := by
    rintro d hd rfl
    rw [hd] at hdigit
    cases hdigit
  refine ⟨?_,hnot _ (by decide),hnot _ (by decide),hnot _ (by decide),hnot _ (by decide)⟩
  cases hspace : isAsciiSpace c with
  | false => rfl
  | true =>
    have hcases : c = ' ' ∨ '\t' ≤ c ∧ c ≤ '\r' := by simpa [isAsciiSpace] using hspace
    rcases hcases with rfl | ⟨hlow,hhigh⟩
    · exact absurd rfl (hnot ' ' (by decide))
    · simp only [Char.le_def,UInt32.le_iff_toNat_le] at hhigh
      change c.toNat ≤ 13 at hhigh
      have hnone : digitValue c = none := by
        unfold digitValue
        simp only [Char.le_def,UInt32.le_iff_toNat_le]
        change (if 48 ≤ c.toNat ∧ c.toNat ≤ 57 then some (c.toNat - 48) else if 97 ≤ c.toNat ∧ c.toNat ≤ 102 then
          some (c.toNat - 97 + 10) else if 65 ≤ c.toNat ∧ c.toNat ≤ 70 then some (c.toNat - 65 + 10) else none) = none
        rw [if_neg (by omega),if_neg (by omega),if_neg (by omega)]
      rw [hnone] at hdigit
      cases hdigit

theorem digitText_hex (n v : Nat) : DigitText 16 (natToHexDigits n v) where
  base := .inr rfl
  digits c hc := by
    induction n generalizing v with
    | zero => cases hc
    | succ n ih =>
      rcases List.mem_append.mp hc with hc | hc
      · exact ih _ hc
      · have hmod : v % 16 < 16 := Nat.mod_lt v (by decide)
        rw [List.mem_singleton.mp hc,digitValue_digitChar _ hmod]
        simpa using hmod

theorem digitText_bits (bits : List Bool) : DigitText 2 (bits.map bitChar) where
  base := .inl rfl
  digits c hc := by
    obtain ⟨b,-,rfl⟩ := List.mem_map.mp hc
    rw [digitValue_bitChar]
    cases b <;> rfl

private theorem dropWhile_of_head {p : Char → Bool} (h : ∀ c ∈ l,p c = false) : l.dropWhile p = l := by
  cases l with
  | nil => rfl
  | cons c l => rw [List.dropWhile_cons,h c List.mem_cons_self]; rfl

theorem stoull_digits (h : DigitText base l) (hread : readNumeral base l = some n) (hn : n < 2 ^ 64) :
    stoull base l = .ok (UInt64.ofNat n) := by
  have hspace : l.dropWhile isAsciiSpace = l := dropWhile_of_head fun c hc => (h.char hc).1
  have hsign : splitSign l = (false,l) := by
    cases l with
    | nil => rfl
    | cons c l => exact splitSign_unsigned (h.char List.mem_cons_self).2.1 (h.char List.mem_cons_self).2.2.1
  have hprefix : dropHexPrefix base l = l := by
    unfold dropHexPrefix
    split
    · rename_i x l
      have hx := h.char (List.mem_cons_of_mem _ List.mem_cons_self)
      rw [if_neg fun hhex => hhex.2.elim hx.2.2.2.1 hx.2.2.2.2]
    · rfl
  have htake : l.takeWhile (fun c => (digitValue c).any (· < base)) = l :=
    List.takeWhile_eq_self_iff.mpr h.digits
  unfold stoull
  simp only
  rw [hspace,hsign, hprefix,htake,hread]
  simp only
  rw [if_pos hn]
  rfl

section Values
variable {w v : Nat}

theorem lt_pow_digits (hw4 : w % 4 = 0) (hv : v < 2 ^ w) : v < 16 ^ (w / 4) := by
  rwa [pow_sixteen,show 4 * (w / 4) = w by omega]

private theorem z3ValueStringToInt_bitVectorText (hw : 0 < w) (hv : v < 2 ^ w) (h64 : w ≤ 64) :
    z3ValueStringToInt (bitVectorText w v) = .ok (UInt64.ofNat v) := by
  have hv64 : v < 2 ^ 64 := Nat.lt_of_lt_of_le hv (Nat.pow_le_pow_right (by decide) h64)
  unfold z3ValueStringToInt bitVectorText
  by_cases hw4 : w % 4 = 0
  · have hdigits := readNumeral_hexDigits (n := w / 4) (by omega) (lt_pow_digits hw4 hv)
    rw [if_pos hw4,String.toList_ofList]
    exact stoull_digits (digitText_hex _ _) hdigits hv64
  · have hne : natToBits w v ≠ [] := fun hnil => by
      have hlength := length_natToBits w v
      rw [hnil,List.length_nil] at hlength
      omega
    have hbits := readNumeral_bits hne
    rw [bitsToNat_natToBits hv] at hbits
    rw [if_neg hw4,String.toList_ofList]
    exact stoull_digits (digitText_bits _) hbits hv64

theorem stoull_bits (hn : 0 < n) (h64 : n ≤ 64) (v : Nat) :
    stoull 2 ((natToBits n v).map bitChar) = .ok (UInt64.ofNat (v % 2 ^ n)) := by
  have hlt : v % 2 ^ n < 2 ^ n := Nat.mod_lt _ (Nat.two_pow_pos _)
  have hne : natToBits n v ≠ [] := fun hnil => by
    have hlength := length_natToBits n v
    rw [hnil,List.length_nil] at hlength
    omega
  have hbits := readNumeral_bits hne
  rw [← natToBits_mod,bitsToNat_natToBits hlt] at hbits
  rw [← natToBits_mod]
  exact stoull_digits (digitText_bits _) hbits (Nat.lt_of_lt_of_le hlt (Nat.pow_le_pow_right (by decide) h64))

private theorem stripAsciiWhitespace_digits (h : DigitText base l) : stripAsciiWhitespace l = l :=
  stripAsciiWhitespace_of_forall fun _ hc => (h.char hc).1

private theorem simpleHexAtoiU128_digits (h : DigitText 16 l) (hread : readNumeral 16 l = some n)
    (hn : n < 2 ^ 128) : simpleHexAtoiU128 (String.ofList l) = some (n : Int) := by
  have hstrip : stripAsciiWhitespace (String.ofList l).toList = l := by
    rw [String.toList_ofList,stripAsciiWhitespace_digits h]
  have hminus : refuseMinus (String.ofList l) = some () := by
    unfold refuseMinus
    rw [hstrip]
    split
    · exact absurd rfl (h.char List.mem_cons_self).2.1
    · rfl
  have hparse : safeParseInt 16 (String.ofList l) = some (n : Int) := by
    unfold safeParseInt
    rw [hstrip]
    simp only
    split
    · exact absurd rfl (h.char List.mem_cons_self).2.1
    · exact absurd rfl (h.char List.mem_cons_self).2.2.1
    · split
      · rename_i x ds hplus hminus
        have hx := h.char (List.mem_cons_of_mem _ List.mem_cons_self)
        rw [if_neg fun hhex => hhex.2.elim hx.2.2.2.1 hx.2.2.2.2,hread]
        rfl
      · rw [hread]
        rfl
  rw [simpleHexAtoiU128,hminus,Option.bind_some,hparse,Option.bind_some,inRange,if_pos ⟨by omega,by omega⟩]

private theorem uint128OfZ3ValueString_bitVectorText (hw : 0 < w) (hv : v < 2 ^ w) (h128 : w ≤ 128) :
    uint128OfZ3ValueString (bitVectorText w v) = .ok v := by
  unfold uint128OfZ3ValueString bitVectorText
  by_cases hw4 : w % 4 = 0
  · have hdigits := readNumeral_hexDigits (n := w / 4) (by omega) (lt_pow_digits hw4 hv)
    have hv128 : v < 2 ^ 128 := Nat.lt_of_lt_of_le hv (Nat.pow_le_pow_right (by decide) h128)
    rw [if_pos hw4,String.toList_ofList]
    simp only
    rw [simpleHexAtoiU128_digits (digitText_hex _ _) hdigits hv128]
    rfl
  · rw [if_neg hw4,String.toList_ofList]
    simp only [List.length_map,length_natToBits]
    by_cases hwide : w > 64
    · rw [if_pos hwide]
      have hsplit : natToBits w v = natToBits (w - 64) (v / 2 ^ 64) ++ natToBits 64 v := by
        rw [← natToBits_append,Nat.sub_add_cancel (by omega)]
      have hlength : ((natToBits (w - 64) (v / 2 ^ 64)).map bitChar).length = w - 64 := by simp
      have hhigh : v / 2 ^ 64 < 2 ^ (w - 64) := by
        rw [Nat.div_lt_iff_lt_mul (Nat.two_pow_pos _),← Nat.pow_add,Nat.sub_add_cancel (by omega)]
        exact hv
      have hhigh64 : v / 2 ^ 64 < 2 ^ 64 := Nat.lt_of_lt_of_le hhigh (Nat.pow_le_pow_right (by decide) (by omega))
      have hlow : v % 2 ^ 64 < 2 ^ 64 := Nat.mod_lt _ (Nat.two_pow_pos _)
      rw [hsplit,List.map_append,List.take_left' hlength,List.drop_left' hlength,stoull_bits (by omega) (by omega),
        stoull_bits (by omega) (by omega)]
      change Except.ok _ = _
      rw [Nat.mod_eq_of_lt hhigh,UInt64.toNat_ofNat_of_lt' hhigh64,UInt64.toNat_ofNat_of_lt' hlow,Nat.div_add_mod']
    · rw [if_neg hwide,stoull_bits hw (by omega)]
      change Except.ok _ = _
      have hv64 : v < 2 ^ 64 := Nat.lt_of_lt_of_le hv (Nat.pow_le_pow_right (by decide) (by omega))
      rw [Nat.mod_eq_of_lt hv,UInt64.toNat_ofNat_of_lt' hv64]

end Values

/-! ### The deparser -/

section Deparsing
variable (packet : SymbolicPerPacketState) (model : Assignment) (headers : List (String × HeaderType))

/-- The fields of a header that belong in the packet: all in their order if it is valid, none if
not. There are none to speak of where a name is unknown or a term has the wrong sort. -/
def fieldsOfHeader (headerName : String) : Option (List Term) :=
  (headers.lookup headerName).bind fun header =>
    ((packet.lookup (headerName ++ "." ++ "$valid$")).filter fun valid => valid.sort = .bool).bind fun valid =>
      if valid.eval model = 0 then some []
      else header.orderedFieldsList.mapM fun fieldName =>
        (packet.lookup (headerName ++ "." ++ fieldName)).filter fun field => field.sort ≠ .bool

def validFields (headerOrder : List String) : Option (List Term) :=
  (headerOrder.mapM (fieldsOfHeader packet model headers)).map List.flatten

def fieldBits (fields : List Term) : BitString := fields.flatMap fun field => natToBits field.width (field.eval model)

def totalWidth (fields : List Term) : Nat := (fields.map Term.width).sum

variable {packet model headers}

theorem fieldBits_cons (field : Term) (fields : List Term) :
    fieldBits model (field :: fields) = natToBits field.width (field.eval model) ++ fieldBits model fields := rfl

private theorem fieldBits_append (first second : List Term) :
    fieldBits model (first ++ second) = fieldBits model first ++ fieldBits model second :=
  List.flatMap_append

theorem length_fieldBits (fields : List Term) : (fieldBits model fields).length = totalWidth fields := by
  induction fields with
  | nil => rfl
  | cons field fields ih =>
    rw [totalWidth,List.map_cons,List.sum_cons,← totalWidth,← ih,fieldBits_cons,List.length_append,length_natToBits]

theorem get_eq_ok {fieldName : String} {term : Term} :
    packet.get headerName fieldName = .ok term ↔ packet.lookup (headerName ++ "." ++ fieldName) = some term := by
  unfold SymbolicPerPacketState.get
  cases packet.lookup (headerName ++ "." ++ fieldName) <;> simp

private theorem deparseField_ok {fieldName : String} {term : Term} (result : BitString)
    (h : (packet.lookup (headerName ++ "." ++ fieldName)).filter (fun field => field.sort ≠ .bool) = some term) :
    deparseField packet model headerName result fieldName = .ok (result ++ natToBits term.width (term.eval model)) := by
  obtain ⟨hlookup,hsort⟩ := Option.filter_eq_some_iff.mp h
  have hne : term.sort ≠ .bool := by simpa using hsort
  unfold deparseField
  rw [get_eq_ok.mpr hlookup]
  change (if term.sort = .bool then _ else _) = _
  rw [if_neg hne,evalAndAppendZ3BitvectorToBitString,modelText,Term.width]
  cases hwidth : term.sort with
  | bool => exact absurd hwidth hne
  | bitVector w =>
    simp only
    rw [appendZ3ValueString_bitVectorText]
    rfl

private theorem foldlM_deparseField {names : List String} {terms : List Term} (result : BitString)
    (h : names.mapM (fun fieldName =>
      (packet.lookup (headerName ++ "." ++ fieldName)).filter fun field => field.sort ≠ .bool) = some terms) :
    names.foldlM (deparseField packet model headerName) result = .ok (result ++ fieldBits model terms) := by
  induction names generalizing result terms with
  | nil =>
    cases h
    simp [fieldBits,pure,Except.pure]
  | cons name names ih =>
    rw [List.mapM_cons] at h
    obtain ⟨term,hterm,h⟩ := Option.bind_eq_some_iff.mp h
    obtain ⟨rest,hrest,heq⟩ := Option.bind_eq_some_iff.mp h
    cases heq
    rw [List.foldlM_cons,deparseField_ok result hterm]
    change names.foldlM (deparseField packet model headerName) _ = _
    rw [ih _ hrest,fieldBits_cons,List.append_assoc]

private theorem deparseHeader_ok {terms : List Term} (result : BitString)
    (h : fieldsOfHeader packet model headers headerName = some terms) :
    deparseHeader packet model headers result headerName = .ok (result ++ fieldBits model terms) := by
  obtain ⟨header,hheader,h⟩ := Option.bind_eq_some_iff.mp h
  obtain ⟨valid,hvalid,h⟩ := Option.bind_eq_some_iff.mp h
  obtain ⟨hlookup,hsort⟩ := Option.filter_eq_some_iff.mp hvalid
  have hbool : valid.sort = .bool := by simpa using hsort
  unfold deparseHeader
  rw [hheader]
  simp only
  rw [get_eq_ok.mpr hlookup]
  change (evalZ3Bool valid model >>= _) = _
  rw [evalZ3Bool,hbool]
  by_cases hzero : valid.eval model = 0
  · rw [if_pos hzero] at h
    cases h
    change (if decide (valid.eval model ≠ 0) = true then _ else _) = _
    rw [if_neg (by simpa using hzero)]
    simp [fieldBits]
  · rw [if_neg hzero] at h
    change (if decide (valid.eval model ≠ 0) = true then _ else _) = _
    rw [if_pos (by simpa using hzero)]
    exact foldlM_deparseField result h

theorem foldlM_deparseHeader {order : List String} {fields : List Term} (result : BitString)
    (h : validFields packet model headers order = some fields) :
    order.foldlM (deparseHeader packet model headers) result = .ok (result ++ fieldBits model fields) := by
  obtain ⟨perHeader,hperHeader,rfl⟩ := Option.map_eq_some_iff.mp h
  clear h
  induction order generalizing result perHeader with
  | nil =>
    cases hperHeader
    simp [fieldBits,pure,Except.pure]
  | cons name order ih =>
    rw [List.mapM_cons] at hperHeader
    obtain ⟨terms,hterms,hbind⟩ := Option.bind_eq_some_iff.mp hperHeader
    obtain ⟨rest,hrest,heq⟩ := Option.bind_eq_some_iff.mp hbind
    cases heq
    rw [List.foldlM_cons,deparseHeader_ok result hterms]
    change order.foldlM (deparseHeader packet model headers) _ = _
    rw [ih _ _ hrest,List.flatten_cons,fieldBits_append,List.append_assoc]

private theorem toByteString_iff {data : BitString} (h8 : data.length % 8 = 0) :
    data.toByteString = .ok (bitsToBytes data) ↔ data.length < 2 ^ 31 := by
  refine ⟨fun h => ?_,toByteString_of_lt h8⟩
  by_contra hlarge
  have hbounds := int32_bounds data.length
  have hmod := int32_emod_eight data.length
  unfold BitString.toByteString BitString.size at h
  rw [if_neg (by omega)] at h
  split at h
  · cases h
  next hsize =>
    have htake : (data.take (int32 data.length).toNat).length = (int32 data.length).toNat := by
      rw [List.length_take]
      omega
    have hwhole := length_bitsToBytes h8
    have hpart := @length_bitsToBytes (data.take (int32 data.length).toNat) (by omega)
    rw [Except.ok.inj h] at hpart
    omega

theorem deparse_iff {order : List String} {fields : List Term} (h : validFields packet model headers order = some fields)
    (h8 : totalWidth fields % 8 = 0) :
    deparse packet model order headers = .ok (bitsToBytes (fieldBits model fields)) ↔ totalWidth fields < 2 ^ 31 := by
  have hbits : (fieldBits model fields).length % 8 = 0 := by
    rw [length_fieldBits]
    exact h8
  unfold deparse
  rw [bind_eq_ok,← @length_fieldBits model,← toByteString_iff hbits]
  constructor
  · rintro ⟨bits,hrun,hbytes⟩
    rw [foldlM_deparseHeader [] h] at hrun
    rwa [← Except.ok.inj hrun] at hbytes
  · exact fun hbytes => ⟨_,foldlM_deparseHeader [] h,hbytes⟩

end Deparsing

/-- A value of a width is appended as its bits and read as its number. -/
structure ValueReachesWire (w v : Nat) : Prop where
  appended : ∀ result,appendZ3ValueStringToBitString result (bitVectorText w v) w = .ok (result ++ natToBits w v)
  number : w ≤ 64 → (z3ValueStringToInt (bitVectorText w v)).map UInt64.toNat = .ok v
  wideNumber : w ≤ 128 → uint128OfZ3ValueString (bitVectorText w v) = .ok v

private theorem valueReachesWire {w v : Nat} (hw : 0 < w) (hv : v < 2 ^ w) : ValueReachesWire w v where
  appended result := appendZ3ValueString_bitVectorText result w v
  number h64 := by
    have hv64 : v < 2 ^ 64 := Nat.lt_of_lt_of_le hv (Nat.pow_le_pow_right (by decide) h64)
    rw [z3ValueStringToInt_bitVectorText hw hv h64]
    exact congrArg Except.ok (UInt64.toNat_ofNat_of_lt' hv64)
  wideNumber h128 := uint128OfZ3ValueString_bitVectorText hw hv h128

/-- Values are appended and read unchanged, and the deparsed packet is the fields of the valid
headers exactly when their bits are fewer than `2 ^ 31`. -/
theorem z3_values_reach_wire_iff {w v : Nat} (hw : 0 < w) (hv : v < 2 ^ w) {packet : SymbolicPerPacketState} {model : Assignment}
    {headers : List (String × HeaderType)} {order : List String} {fields : List Term}
    (hfields : validFields packet model headers order = some fields) (h8 : totalWidth fields % 8 = 0) :
    ValueReachesWire w v ∧ deparse packet model order headers = .ok (bitsToBytes (fieldBits model fields)) ↔
      totalWidth fields < 2 ^ 31 := by
  rw [deparse_iff hfields h8]
  exact and_iff_right (valueReachesWire hw hv)

/-- A valid header of one byte. -/
theorem z3_values_reach_wire_byte :
    let packet : SymbolicPerPacketState := [("h.$valid$",.boolVal true),("h.f",.bvVal 0xa5 8)]
    ValueReachesWire 8 0xa5 ∧ deparse packet (fun _ _ => 0) ["h"] [("h",{ orderedFieldsList := ["f"] })] =
      .ok (bitsToBytes (fieldBits (fun _ _ => 0) [.bvVal 0xa5 8])) ↔ totalWidth [.bvVal 0xa5 8] < 2 ^ 31 :=
  z3_values_reach_wire_iff (by decide) (by decide) (by decide) (by decide)

/-- Two fields of `2 ^ 30` bits each are more than an `int` counts. -/
theorem huge_packet_not_deparsed :
    ¬ ∀ (packet : SymbolicPerPacketState) (model : Assignment) (headers : List (String × HeaderType)) (order : List String)
      (fields : List Term),validFields packet model headers order = some fields → totalWidth fields % 8 = 0 →
      deparse packet model order headers = .ok (bitsToBytes (fieldBits model fields)) := by
  intro h
  let packet : SymbolicPerPacketState :=
    [("h.$valid$",.boolVal true),("h.a",.const "h.a" (.bitVector (2 ^ 30))),("h.b",.const "h.b" (.bitVector (2 ^ 30)))]
  have hfields : validFields packet (fun _ _ => 0) [("h",{ orderedFieldsList := ["a","b"] })] ["h"] =
      some [.const "h.a" (.bitVector (2 ^ 30)),.const "h.b" (.bitVector (2 ^ 30))] := by decide
  have h8 : totalWidth [.const "h.a" (.bitVector (2 ^ 30)),.const "h.b" (.bitVector (2 ^ 30))] % 8 = 0 := by decide
  have hlt := (deparse_iff hfields h8).mp (h _ _ _ _ _ hfields h8)
  exact absurd hlt (by decide)

end SonicPins.P4Symbolic
