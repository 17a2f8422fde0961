import Mathlib.Tactic.IntervalCases
import SonicPins.Lib.Json

/-! The parser inverts the compact text of every value without floating point
numbers, so the text determines the value. -/
namespace SonicPins.Lib.Json

variable {c : Char} {r : List Char}

mutual
/-- Values whose text reads back: 64-bit integers and ordered objects. -/
def Plain : Json → Prop
  | null => True
  | bool _ => True
  | num n => -2 ^ 63 ≤ n ∧ n < 2 ^ 64
  | float _ => False
  | str _ => True
  | arr elems => PlainElems elems
  | obj members => Ordered members ∧ PlainMembers members
def PlainElems : List Json → Prop
  | [] => True
  | x :: xs => x.Plain ∧ PlainElems xs
def PlainMembers : List (String × Json) → Prop
  | [] => True
  | (_,v) :: ms => v.Plain ∧ PlainMembers ms
end

/-- What may follow a number without extending it. -/
def Stops (l : List Char) : Prop := ∀ c ∈ l.head?,isDigit c = false ∧ c ≠ '.' ∧ c ≠ 'e' ∧ c ≠ 'E'

theorem stops_nil : Stops [] := by simp [Stops]

private theorem stops_cons {l : List Char} (h : isDigit c = false ∧ c ≠ '.' ∧ c ≠ 'e' ∧ c ≠ 'E') : Stops (c :: l) := by
  simpa [Stops] using h

private theorem stops_elemsTail (xs : List Json) (r : List Char) : Stops (elemsTail xs ++ r) := by
  cases xs <;> simp only [elemsTail,List.cons_append] <;> exact stops_cons (by decide)

private theorem stops_membersTail (ms : List (String × Json)) (r : List Char) : Stops (membersTail ms ++ r) := by
  cases ms <;> simp only [membersTail,List.cons_append] <;> exact stops_cons (by decide)

private theorem parseQuoteTail_escapeChar (c : Char) (l : List Char) :
    parseQuoteTail (escapeChar c ++ l) = (parseQuoteTail l).map fun r => (c :: r.1,r.2) := by
  have hc (n : Nat) (hn : c.toNat = n) : c = Char.ofNat n := by rw [← hn,Char.ofNat_toNat]
  unfold escapeChar
  split
  · rename_i h; subst h; simp [parseQuoteTail]
  split
  · rename_i h; subst h; simp [parseQuoteTail]
  split
  · rename_i h; rw [hc 8 h]; simp [parseQuoteTail]
  split
  · rename_i h; rw [hc 9 h]; simp [parseQuoteTail]
  split
  · rename_i h; rw [hc 10 h]; simp [parseQuoteTail]
  split
  · rename_i h; rw [hc 12 h]; simp [parseQuoteTail]
  split
  · rename_i h; rw [hc 13 h]; simp [parseQuoteTail]
  split
  · rename_i h
    have hhex : hex4 '0' '0' (Nat.digitChar (c.toNat / 16)) (Nat.digitChar (c.toNat % 16)) = some c.toNat := by
      have hall : ∀ n < 32,hex4 '0' '0' (Nat.digitChar (n / 16)) (Nat.digitChar (n % 16)) = some n := by decide
      exact hall _ h
    have hlow : isLowSurrogate c.toNat = false := by simp [isLowSurrogate]; omega
    have hhigh : isHighSurrogate c.toNat = false := by simp [isHighSurrogate]; omega
    simp [parseQuoteTail,hhex,hlow,hhigh]
  · rename_i hquote hback _ _ _ _ _ hctl
    rw [List.singleton_append,parseQuoteTail.eq_def]
    split <;> simp_all

theorem parseQuoteTail_quoteTail (s r : List Char) : parseQuoteTail (quoteTail s ++ r) = some (s,r) := by
  induction s with
  | nil => simp [quoteTail,parseQuoteTail]
  | cons c s ih => rw [quoteTail,List.append_assoc,parseQuoteTail_escapeChar,ih]; rfl

private theorem isDigit_digitChar : ∀ d < 10,isDigit (Nat.digitChar d) = true := by decide

theorem numeral_isDigit {n : Nat} (hc : c ∈ numeral 10 n) : isDigit c = true := by
  obtain ⟨d,hd,rfl⟩ := digitValue_of_mem_numeral (by decide) (by decide) hc
  exact isDigit_digitChar d hd

private theorem numeral_head (n : Nat) :
    ∃ d ds,numeral 10 n = Nat.digitChar d :: ds ∧ d < 10 ∧ (d = 0 → n = 0 ∧ ds = []) := by
  unfold numeral
  split
  · exact ⟨0,[],rfl,by decide,by simp [*]⟩
  · rename_i hn
    have hne : Nat.digits 10 n ≠ [] := by simpa [Nat.digits_eq_nil_iff_eq_zero] using hn
    have hsplit : (Nat.digits 10 n).reverse = (Nat.digits 10 n).getLast hne :: (Nat.digits 10 n).dropLast.reverse := by
      conv_lhs => rw [← List.dropLast_append_getLast hne]
      simp
    refine ⟨(Nat.digits 10 n).getLast hne,((Nat.digits 10 n).dropLast.reverse).map Nat.digitChar,?_,?_,?_⟩
    · rw [hsplit,List.map_cons]
    · exact Nat.digits_lt_base (by decide) (List.getLast_mem hne)
    · intro hz
      exact absurd hz (Nat.getLast_digit_ne_zero 10 hn)

private theorem digitChar_ne_zero : ∀ d < 10,d ≠ 0 → Nat.digitChar d ≠ '0' := by decide

theorem takeWhile_numeral {l : List Char} (hl : ∀ c ∈ l,isDigit c = true) (hr : Stops r) :
    (l ++ r).takeWhile isDigit = l ∧ (l ++ r).dropWhile isDigit = r := by
  induction l with
  | nil =>
    cases r with
    | nil => simp
    | cons c r =>
      have hc := (hr c (by simp)).1
      simp [hc]
  | cons c l ih =>
    have hc := hl c (by simp)
    obtain ⟨ht,hd⟩ := ih fun x hx => hl x (by simp [hx])
    simp [hc,ht,hd]

private theorem parseInt_numeral (n : Nat) (hr : Stops r) : parseInt (numeral 10 n ++ r) = some (numeral 10 n,r) := by
  obtain ⟨d,ds,hd,hlt,hz⟩ := numeral_head n
  have hall : ∀ c ∈ Nat.digitChar d :: ds,isDigit c = true := fun c hc => numeral_isDigit (hd ▸ hc)
  rw [hd]
  by_cases h0 : d = 0
  · obtain ⟨-,rfl⟩ := hz h0
    subst h0
    rfl
  · obtain ⟨ht,hdr⟩ := takeWhile_numeral hall hr
    have hne := digitChar_ne_zero d hlt h0
    rw [List.cons_append] at ht hdr ⊢
    unfold parseInt
    split
    · rename_i heq
      exact absurd (List.cons.inj heq).1 hne
    · rename_i heq
      obtain ⟨rfl,rfl⟩ := List.cons.inj heq
      rw [if_pos (hall _ (by simp)),ht,hdr]
    · rename_i heq
      cases heq

private theorem parseNumber_numeral (negative : Bool) (n : Nat) (hr : Stops r) :
    parseNumber negative (numeral 10 n ++ r) = some (numberOf negative (numeral 10 n) [] [],r) := by
  have hfrac : parseFraction r = some ([],r) := by
    unfold parseFraction
    split
    · exact absurd rfl (hr '.' (by simp)).2.1
    · rfl
  have hexp : parseExponent r = some ([],r) := by
    unfold parseExponent
    split
    · rename_i c rest
      have hc := hr c (by simp)
      rw [if_neg]
      rintro (he | he)
      · exact hc.2.2.1 he
      · exact hc.2.2.2 he
    · rfl
  simp [parseNumber,parseInt_numeral n hr,hfrac,hexp]

private theorem skipSpace_cons (l : List Char) (h : isSpace c = false) : skipSpace (c :: l) = c :: l := by
  simp [skipSpace,h]

private theorem parseValue_num {n : Int} (hn : (num n).Plain) (fuel : Nat) (hr : Stops r) :
    parseValue (fuel + 1) ((num n).chars ++ r) = some (num n,r) := by
  simp only [Plain] at hn
  cases n with
  | ofNat n =>
    obtain ⟨d,ds,hd,hlt,-⟩ := numeral_head n
    have hp := parseNumber_numeral false n hr
    have hval : numberOf false (numeral 10 n) [] [] = num n := by
      have hn : n < 2 ^ 64 := by have := hn.2; simp only [Int.ofNat_eq_natCast] at this; omega
      simp only [numberOf,List.isEmpty_nil,Bool.and_self,if_true,readNumeral_numeral (by decide : 1 < 10) (by decide),hn,
        Bool.false_eq_true,if_false]
    rw [hval] at hp
    simp only [chars,decimal,String.toList_ofList]
    rw [hd] at hp ⊢
    rw [List.cons_append] at hp ⊢
    interval_cases d <;> simpa [parseValue,skipSpace,isSpace,Nat.digitChar] using hp
  | negSucc n =>
    have hp := parseNumber_numeral true (n + 1) hr
    have hval : numberOf true (numeral 10 (n + 1)) [] [] = num (Int.negSucc n) := by
      have hn : n + 1 ≤ 2 ^ 63 := by have := hn.1; omega
      simp only [numberOf,List.isEmpty_nil,Bool.and_self,if_true,readNumeral_numeral (by decide : 1 < 10) (by decide),hn]
      rfl
    rw [hval] at hp
    simpa [chars,decimal,parseValue,skipSpace,isSpace] using hp

private theorem chars_head {j : Json} (hp : j.Plain) : ∃ c l,j.chars = c :: l ∧ isSpace c = false ∧ c ≠ ']' := by
  cases j with
  | null => exact ⟨_,_,rfl,by decide,by decide⟩
  | bool b => cases b <;> exact ⟨_,_,rfl,by decide,by decide⟩
  | num n =>
    cases n with
    | ofNat n =>
      obtain ⟨d,ds,hd,hlt,-⟩ := numeral_head n
      have hchar : ∀ d < 10,isSpace (Nat.digitChar d) = false ∧ Nat.digitChar d ≠ ']' := by decide
      exact ⟨Nat.digitChar d,ds,by simp [chars,decimal,hd],hchar d hlt⟩
    | negSucc n => exact ⟨'-',numeral 10 (n + 1),by simp [chars,decimal],by decide,by decide⟩
  | float l => exact absurd hp (by simp [Plain])
  | str s => exact ⟨_,_,rfl,by decide,by decide⟩
  | arr l => cases l <;> exact ⟨_,_,rfl,by decide,by decide⟩
  | obj m => rcases m with _ | ⟨⟨k,v⟩,m⟩ <;> exact ⟨_,_,rfl,by decide,by decide⟩

mutual
theorem parseValue_chars : ∀ (j : Json) (fuel : Nat) (r : List Char),j.Plain → j.chars.length < fuel → Stops r →
    parseValue fuel (j.chars ++ r) = some (j,r)
  | null,fuel + 1,r,_,_,_ => by simp [chars,parseValue,skipSpace,isSpace]
  | bool true,fuel + 1,r,_,_,_ => by simp [chars,parseValue,skipSpace,isSpace]
  | bool false,fuel + 1,r,_,_,_ => by simp [chars,parseValue,skipSpace,isSpace]
  | num n,fuel + 1,r,hp,_,hr => parseValue_num hp fuel hr
  | float _,_,_,hp,_,_ => absurd hp (by simp [Plain])
  | str s,fuel + 1,r,_,_,_ => by
    simp [chars,quote,parseValue,skipSpace,isSpace,parseQuoteTail_quoteTail]
  | arr [],fuel + 1,r,_,_,_ => by simp [chars,parseValue,skipSpace,isSpace]
  | arr (x :: xs),fuel + 1,r,hp,hf,_ => by
    simp only [Plain,PlainElems] at hp
    simp only [chars,List.length_cons,List.length_append] at hf
    have hx := parseValue_chars x fuel (elemsTail xs ++ r) hp.1 (by omega) (stops_elemsTail xs r)
    have hxs := parseElems_elemsTail xs fuel r hp.2 (by omega)
    obtain ⟨c,l,hc,hspace,hclose⟩ := chars_head hp.1
    rw [hc,List.cons_append] at hx
    have hopen := skipSpace_cons (c :: (l ++ (elemsTail xs ++ r))) (by decide : isSpace '[' = false)
    have hskip := skipSpace_cons (l ++ (elemsTail xs ++ r)) hspace
    simp only [chars,hc,List.cons_append,List.append_assoc,parseValue,hopen,hskip]
    split
    · rename_i heq
      exact absurd (List.cons.inj heq).1 hclose
    · simp [hx,hxs]
  | obj [],fuel + 1,r,_,_,_ => by simp [chars,parseValue,skipSpace,isSpace]
  | obj ((k,v) :: ms),fuel + 1,r,hp,hf,_ => by
    simp only [Plain] at hp
    obtain ⟨hord,hplain⟩ := hp
    simp only [PlainMembers] at hplain
    simp only [chars,List.length_cons,List.length_append] at hf
    have hm := parseMember_chars k v fuel (membersTail ms ++ r) hplain.1 (by simp only [quote,List.length_cons] at hf ⊢; omega)
      (stops_membersTail ms r)
    have hms := parseMembers_membersTail ms fuel r hplain.2 (by omega)
    have hfold := foldl_assign_ordered hord
    simp only [quote,List.cons_append] at hm
    simp [chars,quote,parseValue,skipSpace,isSpace,hm,hms] at hfold ⊢
    exact hfold
theorem parseElems_elemsTail : ∀ (xs : List Json) (fuel : Nat) (r : List Char),PlainElems xs →
    (elemsTail xs).length < fuel → parseElems fuel (elemsTail xs ++ r) = some (xs,r)
  | [],fuel + 1,r,_,_ => by simp [elemsTail,parseElems,skipSpace,isSpace]
  | x :: xs,fuel + 1,r,hp,hf => by
    simp only [PlainElems] at hp
    simp only [elemsTail,List.length_cons,List.length_append] at hf
    have hx := parseValue_chars x fuel (elemsTail xs ++ r) hp.1 (by omega) (stops_elemsTail xs r)
    have hxs := parseElems_elemsTail xs fuel r hp.2 (by omega)
    simp [elemsTail,parseElems,skipSpace,isSpace,hx,hxs]
theorem parseMember_chars : ∀ (k : String) (v : Json) (fuel : Nat) (r : List Char),v.Plain →
    (quote k).length + v.chars.length < fuel → Stops r →
    parseMember fuel (quote k ++ ':' :: (v.chars ++ r)) = some ((k,v),r)
  | k,v,fuel + 1,r,hp,hf,hr => by
    have hv := parseValue_chars v fuel r hp (by simp only [quote,List.length_cons] at hf; omega) hr
    simp [quote,parseMember,skipSpace,isSpace,parseQuoteTail_quoteTail,hv]
theorem parseMembers_membersTail : ∀ (ms : List (String × Json)) (fuel : Nat) (r : List Char),PlainMembers ms →
    (membersTail ms).length < fuel → parseMembers fuel (membersTail ms ++ r) = some (ms,r)
  | [],fuel + 1,r,_,_ => by simp [membersTail,parseMembers,skipSpace,isSpace]
  | (k,v) :: ms,fuel + 1,r,hp,hf => by
    simp only [PlainMembers] at hp
    simp only [membersTail,List.length_cons,List.length_append] at hf
    have hm := parseMember_chars k v fuel (membersTail ms ++ r) hp.1 (by omega) (stops_membersTail ms r)
    have hms := parseMembers_membersTail ms fuel r hp.2 (by omega)
    simp [membersTail,parseMembers,skipSpace,isSpace,hm,hms]
end

theorem parse_dump {j : Json} (hp : j.Plain) : parse j.dump = some j := by
  have hv := parseValue_chars j (2 * j.chars.length + 2) [] hp (by omega) stops_nil
  rw [List.append_nil] at hv
  rw [parse,dump,String.toList_ofList,hv,Option.bind_some]
  rfl

theorem plainMembers_iff {ms : List (String × Json)} : PlainMembers ms ↔ ∀ x ∈ ms,x.2.Plain := by
  induction ms with
  | nil => simp [PlainMembers]
  | cons x ms ih => simp [PlainMembers,ih]

theorem plainElems_iff {xs : List Json} : PlainElems xs ↔ ∀ x ∈ xs,x.Plain := by
  induction xs with
  | nil => simp [PlainElems]
  | cons x xs ih => simp [PlainElems,ih]

/-- The object filled by assignments, a null value without any. -/
def ofMembers (l : List (String × Json)) : Json :=
  if l.isEmpty then null else obj (l.foldl (fun m x => assign x.1 x.2 m) [])

theorem foldl_set (l : List (String × Json)) : l.foldl (fun j x => j.set x.1 x.2) null = ofMembers l := by
  induction l using List.reverseRecOn with
  | nil => rfl
  | append_singleton l x ih =>
    rw [List.foldl_append,ih,List.foldl_cons,List.foldl_nil]
    cases l with
    | nil => rfl
    | cons y l => simp [ofMembers,set,List.foldl_append]

theorem plain_ofMembers {l : List (String × Json)} (hkeys : (l.map Prod.fst).Nodup) (h : ∀ x ∈ l,x.2.Plain) :
    (ofMembers l).Plain := by
  unfold ofMembers
  split
  · simp [Plain]
  · rw [Plain,plainMembers_iff]
    exact ⟨ordered_foldl_assign Prod.fst Prod.snd l ordered_nil,fun x hx => h x ((perm_foldl_assign hkeys).mem_iff.mp hx)⟩

end SonicPins.Lib.Json
