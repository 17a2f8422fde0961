import SonicPins.Lib.JsonRoundTrip
import SonicPins.Lib.TextReading
import SonicPins.Pdpi.NormalForm
import SonicPins.Sonic.AppDbDecoding

/-! A table entry written to the P4RT table of AppDb and read back. -/
namespace SonicPins.Sonic
open Lib Pdpi P4rtApp

variable {c : Char} {name f : String} {a : IrActionInvocation} {e : IrTableEntry} {actions : List IrActionSetInvocation}
  {l : List FieldValue} {params : List (String × String)}

section Values

/-- The C library prints IPv6 addresses without the separators of AppDb values. -/
def InetText.Separated [InetText] : Prop := ∀ a c,c ∈ (InetText.ntop a).toList → c ≠ '/' ∧ c ≠ '&'

theorem digit_separated : ∀ d < 16,Nat.digitChar d ≠ '/' ∧ Nat.digitChar d ≠ '&' := by decide

theorem pair_separated (b : UInt8) (hc : c ∈ hexDigitPair b) : c ≠ '/' ∧ c ≠ '&' := by
  have hb := b.toNat_lt
  rcases List.mem_pair.mp hc with rfl | rfl
  · exact digit_separated _ (by omega)
  · exact digit_separated _ (by omega)

theorem numeral_separated {base : Nat} (hb : 1 < base) (hb16 : base ≤ 16) {n : Nat} (hc : c ∈ numeral base n) :
    c ≠ '/' ∧ c ≠ '&' := by
  obtain ⟨d,hd,rfl⟩ := digitValue_of_mem_numeral hb hb16 hc
  exact digit_separated d (by omega)

theorem joined_separated {α : Type} {sep : Char} (hsep : sep ≠ '/' ∧ sep ≠ '&') {print : α → List Char}
    (h : ∀ a c,c ∈ print a → c ≠ '/' ∧ c ≠ '&') {l : List α}
    (hc : c ∈ (String.ofList (joinChars sep (l.map print))).toList) : c ≠ '/' ∧ c ≠ '&' := by
  rw [String.toList_ofList] at hc
  rcases mem_joinChars hc with rfl | ⟨w,hw,hc⟩
  · exact hsep
  · obtain ⟨a,-,rfl⟩ := List.mem_map.mp hw
    exact h a c hc

private theorem uncompressedInet_separated : @InetText.Separated uncompressedInet := by
  intro a c hc
  have hsep : ':' ≠ '/' ∧ ':' ≠ '&' := by decide
  exact joined_separated hsep (fun _ _ hc => numeral_separated (by decide) (by decide) hc) hc

/-- A value whose text reads back in its format; numbers have no separator in their text. -/
structure ValueText (format : Format) (v : IrValue) (text : String) : Prop where
  encoded : irValueToAppDbString v = .ok text
  decoded : formattedStringToIrValue text format = v
  separated : format ≠ .string → ∀ c ∈ text.toList,c ≠ '/' ∧ c ≠ '&'

variable [InetText]

theorem exists_valueText (hinet : InetText.Separated) {format : Format} {w : Nat} {bytes : Bytes} {v : IrValue}
    (h : arbitraryByteStringToIrValue format w bytes = .ok v) : ∃ text,ValueText format v text := by
  unfold arbitraryByteStringToIrValue at h
  split_ifs at h
  cases format with
  | mac =>
    obtain ⟨a,-,rfl⟩ := map_eq_ok.mp h
    refine ⟨_,rfl,rfl,fun _ c hc => ?_⟩
    have hsep : ':' ≠ '/' ∧ ':' ≠ '&' := by decide
    exact joined_separated hsep (fun b _ hc => pair_separated b hc) hc
  | ipv4 =>
    obtain ⟨a,-,rfl⟩ := map_eq_ok.mp h
    refine ⟨_,rfl,rfl,fun _ c hc => ?_⟩
    have hsep : '.' ≠ '/' ∧ '.' ≠ '&' := by decide
    exact joined_separated hsep (fun _ _ hc => numeral_separated (by decide) (by decide) hc) hc
  | ipv6 =>
    obtain ⟨a,-,h⟩ := bind_eq_ok.mp h
    split_ifs at h
    cases h
    exact ⟨_,rfl,rfl,fun _ c hc => hinet _ c hc⟩
  | string =>
    simp only at h
    split at h
    · cases h
      exact ⟨_,rfl,rfl,fun hne => absurd rfl hne⟩
    · cases h
  | hexString =>
    obtain ⟨n,-,h⟩ := bind_eq_ok.mp h
    cases h
    refine ⟨_,rfl,rfl,fun _ c hc => ?_⟩
    have hhex : ∀ c ∈ (bytesToHexString n).toList,c ≠ '/' ∧ c ≠ '&' := by
      intro c hc
      obtain ⟨b,-,hc⟩ := List.mem_flatMap.mp (by simpa [bytesToHexString] using hc)
      exact pair_separated b hc
    rw [String.toList_ofList,List.mem_cons,List.mem_cons] at hc
    rcases hc with rfl | rfl | hc
    · decide
    · decide
    · split_ifs at hc
      · exact hhex c (List.mem_of_mem_drop hc)
      · exact hhex c hc

end Values

section Matches

theorem strSplit_pair {sep : Char} {s t : String} (hs : sep ∉ s.toList) (ht : sep ∉ t.toList) :
    strSplit sep (s ++ String.singleton sep ++ t) = [s,t] := by
  simp [strSplit,splitChars_append_cons hs,splitChars_of_notMem ht]

private theorem slash_notMem_decimal (i : Int) : '/' ∉ (decimal i).toList := by
  intro hmem
  rcases toList_decimal i with ⟨-,hi⟩ | ⟨-,hi⟩ <;> rw [hi] at hmem
  · exact (numeral_separated (by decide) (by decide) hmem).1 rfl
  · rcases List.mem_cons.mp hmem with h | h
    · exact absurd h (by decide)
    · exact (numeral_separated (by decide) (by decide) h).1 rfl

theorem takeWhile_digits (n : Nat) : (numeral 10 n).takeWhile Json.isDigit = numeral 10 n := by
  simpa using (Json.takeWhile_numeral (fun c hc => Json.numeral_isDigit hc) Json.stops_nil : _ ∧ _).1

private theorem stoi_decimal (p : Int32) : stoi (decimal p.toInt) = .ok p := by
  have hread := readNumeral_numeral (by decide : 1 < 10) (by decide) p.toInt.natAbs
  have hrange : -2 ^ 31 ≤ p.toInt ∧ p.toInt < 2 ^ 31 := ⟨p.le_toInt,p.toInt_lt⟩
  unfold stoi
  rw [dropWhile_of_forall_false fun c hc => isAsciiSpace_decimal hc]
  rcases toList_decimal p.toInt with ⟨hp,htext⟩ | ⟨hp,htext⟩
  · obtain ⟨c,l,hcl⟩ := List.exists_cons_of_ne_nil (numeral_ne_nil 10 p.toInt.natAbs)
    have hc := mem_decimal_numeral (hcl ▸ List.mem_cons_self : c ∈ numeral 10 p.toInt.natAbs)
    have habs : ((p.toInt.natAbs : Nat) : Int) = p.toInt := Int.natAbs_of_nonneg hp
    rw [htext,hcl,splitSign_unsigned hc.2.1 hc.2.2,← hcl]
    simp only [takeWhile_digits,hread,Bool.false_eq_true,if_false,habs,hrange,and_self,if_true,Int32.ofInt_toInt]
  · rw [htext]
    have habs : -((p.toInt.natAbs : Nat) : Int) = p.toInt := by omega
    simp only [splitSign,takeWhile_digits,hread,if_true,habs,hrange,and_self,Int32.ofInt_toInt]

structure MatchText (d : IrMatchFieldDefinition) (m : IrMatch) (text : String) : Prop where
  encoded : irMatchToAppDbString m = .ok text
  decoded : appDbMatchValue d text = .ok m.value

variable [InetText]

private theorem exists_matchText (hinet : InetText.Separated) {d : IrMatchFieldDefinition} (hd : d.Valid) {value : MatchValue}
    {m : IrMatch} (h : piMatchValueToIr d value = .ok m.value) : ∃ text,MatchText d m text := by
  obtain ⟨name,v⟩ := m
  rw [piMatchValueToIr_eq_ok] at h
  cases h with
  | exact htype h =>
    obtain ⟨text,htext⟩ := exists_valueText hinet h
    exact ⟨text,htext.encoded,by simp [appDbMatchValue,htype,htext.decoded]⟩
  | optional htype h =>
    obtain ⟨text,htext⟩ := exists_valueText hinet h
    exact ⟨text,htext.encoded,by simp [appDbMatchValue,htype,htext.decoded]⟩
  | @lpm value p v htype _ h =>
    obtain ⟨mask,n,ir,-,-,-,hir,rfl⟩ := piLpmToIr_eq_ok.mp h
    obtain ⟨text,htext⟩ := exists_valueText hinet hir
    have htext' : '/' ∉ text.toList := fun hmem => (htext.separated (hd.numeric (.inl htype)) _ hmem).1 rfl
    have hlength : '/' ∉ (decimal p.toInt).toList := slash_notMem_decimal _
    refine ⟨text ++ "/" ++ decimal p.toInt,?_,?_⟩
    · simp [irMatchToAppDbString,htext.encoded,Except.map]
    · have hsplit := strSplit_pair htext' hlength
      simp only [appDbMatchValue,htype,appDbLpmValueToIrLpmMatch]
      rw [show "/" = String.singleton '/' from rfl,hsplit]
      simp only [stoi_decimal,Except.map,htext.decoded]
  | ternary htype h =>
    obtain ⟨n,k,irValue,irMask,-,-,-,-,hirValue,hirMask,rfl⟩ := piTernaryToIr_eq_ok.mp h
    obtain ⟨text,htext⟩ := exists_valueText hinet hirValue
    obtain ⟨mask,hmask⟩ := exists_valueText hinet hirMask
    have hnumeric := hd.numeric (.inr htype)
    have htext' : '&' ∉ text.toList := fun hmem => (htext.separated hnumeric _ hmem).2 rfl
    have hmask' : '&' ∉ mask.toList := fun hmem => (hmask.separated hnumeric _ hmem).2 rfl
    refine ⟨text ++ "&" ++ mask,?_,?_⟩
    · simp [irMatchToAppDbString,htext.encoded,hmask.encoded,bind,Except.bind]
    · have hsplit := strSplit_pair htext' hmask'
      simp only [appDbMatchValue,htype,appDbTernaryValueToIrTernaryMatch]
      rw [show "&" = String.singleton '&' from rfl,hsplit]
      simp only [orFail,Except.mapError,htext.decoded,hmask.decoded]

end Matches

section Keys

/-- What a member of a JSON key says about the entry. -/
inductive KeyPart where
  | priority (p : Int32)
  | match_ (m : IrMatch)

def KeyPart.apply (e : IrTableEntry) : KeyPart → IrTableEntry
  | .priority p => { e with priority := p }
  | .match_ m => { e with matches_ := e.matches_ ++ [m] }

def KeyPart.priority? : KeyPart → Option Int32
  | .priority p => some p
  | .match_ _ => none

def KeyPart.match? : KeyPart → Option IrMatch
  | .priority _ => none
  | .match_ m => some m

private theorem foldl_keyParts (parts : List KeyPart) (e : IrTableEntry) : parts.foldl KeyPart.apply e =
    { e with
      priority := (parts.filterMap KeyPart.priority?).getLastD e.priority,
      matches_ := e.matches_ ++ parts.filterMap KeyPart.match? } := by
  induction parts generalizing e with
  | nil => simp
  | cons part parts ih =>
    rw [List.foldl_cons,ih]
    cases part with
    | priority p =>
      rw [List.filterMap_cons_some (rfl : KeyPart.priority? (.priority p) = some p),
        List.filterMap_cons_none (rfl : KeyPart.match? (.priority p) = none),List.getLastD_cons]
      rfl
    | match_ m =>
      rw [List.filterMap_cons_none (rfl : KeyPart.priority? (.match_ m) = none),
        List.filterMap_cons_some (rfl : KeyPart.match? (.match_ m) = some m)]
      simp [KeyPart.apply]

/-- The members of the key of an entry, before they are ordered. -/
def keyMembers (priority : Int32) (fields : List (String × String)) : List (String × Json) :=
  (if priority > 0 then [("priority",.num priority.toInt)] else []) ++
    fields.map fun f => ("match/" ++ f.1,.str f.2)

theorem appDbKeyJson_eq (priority : Int32) (fields : List (String × String)) :
    appDbKeyJson priority fields = Json.ofMembers (keyMembers priority fields) := by
  rw [← Json.foldl_set,keyMembers,List.foldl_append,List.foldl_map]
  unfold appDbKeyJson
  split <;> rfl

private theorem nodup_keyMembers (priority : Int32) {fields : List (String × String)} (h : (fields.map Prod.fst).Nodup) :
    ((keyMembers priority fields).map Prod.fst).Nodup := by
  have hfields : (fields.map fun f => "match/" ++ f.1).Nodup := by
    have hmap := h.map (prefixed_injective "match/")
    rwa [List.map_map] at hmap
  have hpriority : "priority" ∉ fields.map fun f => "match/" ++ f.1 := by
    intro hmem
    obtain ⟨f,-,heq⟩ := List.mem_map.mp hmem
    have hnone : strDropPrefix "match/" "priority" = none := by decide
    rw [← heq,strDropPrefix_append] at hnone
    cases hnone
  unfold keyMembers
  split
  · simpa [Function.comp_def] using ⟨by simpa using hpriority,hfields⟩
  · simpa [Function.comp_def] using hfields

private theorem plain_keyMembers (priority : Int32) (fields : List (String × String)) :
    ∀ x ∈ keyMembers priority fields,x.2.Plain := by
  intro x hx
  rcases List.mem_append.mp hx with hx | hx
  · split at hx
    · rw [List.mem_singleton.mp hx,Json.Plain]
      have hle := priority.le_toInt
      have hlt := priority.toInt_lt
      omega
    · cases hx
  · obtain ⟨f,-,rfl⟩ := List.mem_map.mp hx
    simp [Json.Plain]

/-- A match that is read back from its member of the key. -/
structure StoredMatch (info : IrP4Info) (tableName : String) (m : IrMatch) (text : String) : Prop where
  encoded : irMatchToAppDbString m = .ok text
  decoded : appDbKeyValueStringsToIrMatch info tableName m.name text = .ok m

variable {info : IrP4Info} {tableName : String}

private theorem keyMember_priority (e : IrTableEntry) (p : Int32) :
    appDbKeyMember info tableName e ("priority",.num p.toInt) = .ok (KeyPart.apply e (.priority p)) := by
  simp [appDbKeyMember,getInt,getInt32?,Except.map,KeyPart.apply]

private theorem keyMember_match {m : IrMatch} {text : String} (h : StoredMatch info tableName m text) (e : IrTableEntry) :
    appDbKeyMember info tableName e ("match/" ++ m.name,.str text) = .ok (KeyPart.apply e (.match_ m)) := by
  have hname : "match/" ++ m.name ≠ "priority" := by
    intro heq
    have hnone : strDropPrefix "match/" "priority" = none := by decide
    rw [← heq,strDropPrefix_append] at hnone
    cases hnone
  simp [appDbKeyMember,hname,stripAppDbMatchPrefix,orFail,Except.mapError,getString,Json.getString?,h.decoded,bind,Except.bind,
    KeyPart.apply]

/-- The parts of a key, in the order they are written. -/
def keyParts (priority : Int32) (ms : List IrMatch) : List KeyPart :=
  (if priority > 0 then [.priority priority] else []) ++ ms.map .match_

private theorem forall₂_keyParts (priority : Int32) {ms : List IrMatch} {fields : List (String × String)}
    (h : List.Forall₂ (fun m f => f.1 = m.name ∧ StoredMatch info tableName m f.2) ms fields) :
    List.Forall₂ (fun member part => ∀ e,appDbKeyMember info tableName e member = .ok (KeyPart.apply e part))
      (keyMembers priority fields) (keyParts priority ms) := by
  unfold keyMembers keyParts
  refine List.rel_append ?_ ?_
  · split
    · exact .cons (fun e => keyMember_priority e priority) .nil
    · exact .nil
  · rw [List.forall₂_map_left_iff,List.forall₂_map_right_iff]
    refine h.flip.imp fun f m hfm e => ?_
    rw [hfm.1]
    exact keyMember_match hfm.2 e

private theorem keyParts_priority (priority : Int32) (ms : List IrMatch) :
    (keyParts priority ms).filterMap KeyPart.priority? = if priority > 0 then [priority] else [] := by
  unfold keyParts
  rw [List.filterMap_append,List.filterMap_map]
  split <;> simp [KeyPart.priority?,Function.comp_def]

private theorem keyParts_matches (priority : Int32) (ms : List IrMatch) : (keyParts priority ms).filterMap KeyPart.match? = ms := by
  unfold keyParts
  rw [List.filterMap_append,List.filterMap_map]
  split <;> simp [KeyPart.match?,Function.comp_def]

private theorem appDbKeyToIrTableEntry_stored {priority : Int32} (hpriority : 0 ≤ priority) {ms : List IrMatch}
    (hnames : (ms.map IrMatch.name).Nodup) {fields : List (String × String)}
    (h : List.Forall₂ (fun m f => f.1 = m.name ∧ StoredMatch info tableName m f.2) ms fields) :
    ∃ ms',ms.Perm ms' ∧ appDbKeyToIrTableEntry info tableName (appDbKeyJson priority fields).dump =
      .ok { tableName := tableName,matches_ := ms',priority := priority } := by
  have hfields : fields.map Prod.fst = ms.map IrMatch.name := map_eq_of_forall₂ h fun _ _ hfm => hfm.1
  have hkeys := nodup_keyMembers priority (hfields ▸ hnames)
  have hparse := Json.parse_dump (Json.plain_ofMembers hkeys (plain_keyMembers priority fields))
  have hperm := perm_foldl_assign hkeys
  obtain ⟨parts,hparts,hfold⟩ := foldlM_edits_perm hperm (forall₂_keyParts priority h) { tableName := tableName }
  have hpriorities := (hparts.filterMap KeyPart.priority?).symm
  have hmatches := (hparts.filterMap KeyPart.match?).symm
  rw [keyParts_priority] at hpriorities
  rw [keyParts_matches] at hmatches
  refine ⟨_,hmatches,?_⟩
  have hlast : (parts.filterMap KeyPart.priority?).getLastD 0 = priority := by
    split at hpriorities
    · rw [List.perm_singleton.mp hpriorities.symm]
      rfl
    · rename_i hzero
      rw [List.perm_nil.mp hpriorities.symm]
      exact Int32.le_antisymm hpriority (Int32.not_lt.mp hzero)
  rw [foldl_keyParts,hlast,List.nil_append] at hfold
  rw [appDbKeyToIrTableEntry,appDbKeyJson_eq,hparse]
  cases hmembers : keyMembers priority fields with
  | nil =>
    rw [hmembers] at hfold
    exact hfold
  | cons x members =>
    rw [hmembers] at hfold
    exact hfold

theorem typeName_chars (type : TableType) : ∀ c ∈ type.typeName.toList,c ≠ '_' ∧ c ≠ ':' ∧ c.toUpper = c := by
  cases type <;> simp [TableType.typeName]

private theorem typeParse_typeName (type : TableType) : typeParse type.typeName = .ok type := by
  cases type <;> decide

private theorem redisKey_parts (type : TableType) (hcolon : ':' ∉ name.toList) (json : String) :
    sonicDbKeyToP4TableName (asciiToUpper (type.typeName ++ "_" ++ name ++ ":") ++ json) = .ok (asciiToLower name) ∧
      sonicDbKeyToAppDbKey (asciiToUpper (type.typeName ++ "_" ++ name ++ ":") ++ json) = json := by
  have htype : type.typeName.toList.map Char.toUpper = type.typeName.toList :=
    (List.map_congr_left fun c hc => (typeName_chars type c hc).2.2).trans (List.map_id _)
  have hname : ':' ∉ name.toList.map Char.toUpper := by
    intro hmem
    obtain ⟨c,hc,heq⟩ := List.mem_map.mp hmem
    exact hcolon ((toUpper_eq_iff (by decide)).mp heq ▸ hc)
  have hkey : (asciiToUpper (type.typeName ++ "_" ++ name ++ ":") ++ json).toList =
      (type.typeName.toList ++ '_' :: name.toList.map Char.toUpper) ++ ':' :: json.toList := by
    simp [htype]
  have htable : ':' ∉ type.typeName.toList ++ '_' :: name.toList.map Char.toUpper := by
    intro hmem
    rcases List.mem_append.mp hmem with hmem | hmem
    · exact (typeName_chars type _ hmem).2.1 rfl
    · rcases List.mem_cons.mp hmem with heq | hmem
      · exact absurd heq (by decide)
      · exact hname hmem
  have hunderscore : '_' ∉ type.typeName.toList := fun hmem => (typeName_chars type _ hmem).1 rfl
  obtain ⟨htake,hdrop⟩ := span_append_cons htable json.toList
  obtain ⟨htakeType,hdropType⟩ := span_append_cons hunderscore (name.toList.map Char.toUpper)
  constructor
  · unfold sonicDbKeyToP4TableName
    simp only [hkey,htake,htakeType,hdropType,String.ofList_toList,typeParse_typeName]
    simp [asciiToLower,Function.comp_def]
  · unfold sonicDbKeyToAppDbKey
    rw [hkey,if_pos (by simp),hdrop]
    simp

end Keys

section Actions
variable {info : IrP4Info} {tableName : String}

structure StoredParam (info : IrP4Info) (tableName actionName : String) (p : IrActionParam) (text : String) : Prop where
  encoded : irValueToAppDbString p.value = .ok text
  decoded : appDbNameValueStringsToIrActionParam info tableName actionName ("param/" ++ p.name) text = .ok p

structure StoredAction (info : IrP4Info) (tableName : String) (a : IrActionInvocation) : Prop where
  names : (a.params.map IrActionParam.name).Nodup
  params : ∀ p ∈ a.params,∃ text,StoredParam info tableName a.name p text

theorem appDbParams_eq_ok : appDbParams a = .ok params ↔
    List.Forall₂ (fun p f => f.1 = "param/" ++ p.name ∧ irValueToAppDbString p.value = .ok f.2) a.params params := by
  unfold appDbParams
  rw [mapM_eq_ok]
  refine Iff.of_eq (congrArg (List.Forall₂ · a.params params) ?_)
  funext p f
  rw [map_eq_ok,eq_iff_iff]
  constructor
  · rintro ⟨text,htext,rfl⟩
    exact ⟨rfl,htext⟩
  · rintro ⟨hname,htext⟩
    exact ⟨f.2,htext,Prod.ext hname.symm rfl⟩

theorem StoredAction.fields (h : StoredAction info tableName a) (hparams : appDbParams a = .ok params) :
    List.Forall₂ (fun p f => f.1 = "param/" ++ p.name ∧
      appDbNameValueStringsToIrActionParam info tableName a.name f.1 f.2 = .ok p) a.params params := by
  have hrel := appDbParams_eq_ok.mp hparams
  have hstored := h.params
  refine (List.forall₂_iff_get.mpr ⟨hrel.length_eq,fun i h₁ h₂ => ?_⟩)
  obtain ⟨hname,htext⟩ := hrel.get h₁ h₂
  obtain ⟨text,hstore⟩ := hstored _ (List.get_mem a.params ⟨i,h₁⟩)
  cases htext.symm.trans hstore.encoded
  exact ⟨hname,hname ▸ hstore.decoded⟩

/-- What a member of a JSON action says about the member of the action set. -/
inductive ActionPart where
  | required
  | watchPort (port : Bytes)
  | param (p : IrActionParam)

def ActionPart.apply (a : IrActionSetInvocation) : ActionPart → IrActionSetInvocation
  | .required => a
  | .watchPort port => { a with watchPort := port }
  | .param p => { a with action := { a.action with params := a.action.params ++ [p] } }

def ActionPart.watchPort? : ActionPart → Option Bytes
  | .watchPort port => some port
  | _ => none

def ActionPart.param? : ActionPart → Option IrActionParam
  | .param p => some p
  | _ => none

private theorem foldl_actionParts (parts : List ActionPart) (a : IrActionSetInvocation) : parts.foldl ActionPart.apply a =
    { a with
      action := { a.action with params := a.action.params ++ parts.filterMap ActionPart.param? },
      watchPort := (parts.filterMap ActionPart.watchPort?).getLastD a.watchPort } := by
  induction parts generalizing a with
  | nil => simp
  | cons part parts ih =>
    rw [List.foldl_cons,ih]
    cases part with
    | required => rfl
    | watchPort port =>
      rw [List.filterMap_cons_some (rfl : ActionPart.watchPort? (.watchPort port) = some port),
        List.filterMap_cons_none (rfl : ActionPart.param? (.watchPort port) = none),List.getLastD_cons]
      rfl
    | param p =>
      rw [List.filterMap_cons_none (rfl : ActionPart.watchPort? (.param p) = none),
        List.filterMap_cons_some (rfl : ActionPart.param? (.param p) = some p)]
      simp [ActionPart.apply]

/-- The members of a JSON action, before they are ordered. -/
def actionMembers (a : IrActionSetInvocation) (params : List (String × String)) (watchPort : String) :
    List (String × Json) :=
  [("action",.str a.action.name),("weight",.num a.weight.toInt)] ++
    (if watchPort.isEmpty then [] else [("watch_port",.str watchPort)]) ++ params.map fun p => (p.1,.str p.2)

theorem irActionSetInvocationToJsonValue_eq (a : IrActionSetInvocation) (params : List (String × String)) (watchPort : String) :
    irActionSetInvocationToJsonValue a params watchPort = Json.ofMembers (actionMembers a params watchPort) := by
  rw [← Json.foldl_set,actionMembers,List.foldl_append,List.foldl_append,List.foldl_map]
  unfold irActionSetInvocationToJsonValue
  simp only
  split <;> rfl

theorem param_field_ne {field : String} (h : strDropPrefix "param/" field = none) : "param/" ++ name ≠ field := by
  rintro rfl
  rw [strDropPrefix_append] at h
  cases h

private theorem paramFields_nodup (hnames : (a.params.map IrActionParam.name).Nodup)
    (hparams : appDbParams a = .ok params) : (params.map Prod.fst).Nodup := by
  have hfields : params.map Prod.fst = a.params.map fun p => "param/" ++ p.name :=
    map_eq_of_forall₂ (appDbParams_eq_ok.mp hparams) fun _ _ hpf => hpf.1
  rw [hfields,← Function.comp_def ("param/" ++ ·) IrActionParam.name,← List.map_map]
  refine hnames.map fun x y hxy => ?_
  have hdrop := congrArg (strDropPrefix "param/") hxy
  simpa using hdrop

theorem nodup_actionMembers (a : IrActionSetInvocation) (watchPort : String)
    (hnames : (a.action.params.map IrActionParam.name).Nodup) (hparams : appDbParams a.action = .ok params) :
    ((actionMembers a params watchPort).map Prod.fst).Nodup := by
  have hfields := paramFields_nodup hnames hparams
  have hstart : ∀ f ∈ params.map Prod.fst,∀ field : String,strDropPrefix "param/" field = none → field ≠ f := by
    intro f hf field hfield
    obtain ⟨x,hx,rfl⟩ := List.mem_map.mp hf
    obtain ⟨p,-,hname,-⟩ := exists_of_forall₂_right (appDbParams_eq_ok.mp hparams) hx
    rw [hname]
    exact (param_field_ne hfield).symm
  unfold actionMembers
  rw [List.map_append,List.map_map,List.nodup_append]
  refine ⟨?_,hfields,fun field hfield f hf => hstart f hf field ?_⟩
  · split <;> simp
  · split at hfield
    · revert field
      simp
      decide
    · revert field
      simp
      decide

private theorem plain_actionMembers (a : IrActionSetInvocation) (params : List (String × String)) (watchPort : String) :
    ∀ x ∈ actionMembers a params watchPort,x.2.Plain := by
  intro x hx
  unfold actionMembers at hx
  have hle := a.weight.le_toInt
  have hlt := a.weight.toInt_lt
  rcases List.mem_append.mp hx with hx | hx
  · rcases List.mem_append.mp hx with hx | hx
    · rcases List.mem_pair.mp hx with rfl | rfl
      · simp [Json.Plain]
      · rw [Json.Plain]
        omega
    · split at hx
      · cases hx
      · rw [List.mem_singleton.mp hx,Json.Plain]
        trivial
  · obtain ⟨p,-,rfl⟩ := List.mem_map.mp hx
    simp [Json.Plain]

private theorem actionMember_param {actionName : String} {p : IrActionParam} {f : String × String} (hname : f.1 = "param/" ++ p.name)
    (h : appDbNameValueStringsToIrActionParam info tableName actionName f.1 f.2 = .ok p) (a : IrActionSetInvocation) :
    appDbActionMember info tableName actionName a (f.1,.str f.2) = .ok (ActionPart.apply a (.param p)) := by
  have haction : f.1 ≠ "action" := hname ▸ param_field_ne (by decide)
  have hweight : f.1 ≠ "weight" := hname ▸ param_field_ne (by decide)
  have hport : f.1 ≠ "watch_port" := hname ▸ param_field_ne (by decide)
  simp [appDbActionMember,haction,hweight,hport,getString,Json.getString?,h,orFail,Except.mapError,bind,Except.bind,
    ActionPart.apply]

/-- The parts of a member of an action set, in the order they are written. -/
def actionParts (params : List IrActionParam) (watchPort : String) : List ActionPart :=
  [.required,.required] ++ (if watchPort.isEmpty then [] else [.watchPort (utf8 watchPort)]) ++ params.map .param

private theorem forall₂_actionParts (a : IrActionSetInvocation) (watchPort : String)
    (h : List.Forall₂ (fun (p : IrActionParam) f => f.1 = "param/" ++ p.name ∧
      appDbNameValueStringsToIrActionParam info tableName a.action.name f.1 f.2 = .ok p) a.action.params params) :
    List.Forall₂ (fun member part => ∀ b,appDbActionMember info tableName a.action.name b member =
        .ok (ActionPart.apply b part)) (actionMembers a params watchPort) (actionParts a.action.params watchPort) := by
  unfold actionMembers actionParts
  refine List.rel_append (List.rel_append ?_ ?_) ?_
  · exact .cons (fun b => by simp [appDbActionMember,ActionPart.apply])
      (.cons (fun b => by simp [appDbActionMember,ActionPart.apply]) .nil)
  · split
    · exact .nil
    · refine .cons (fun b => ?_) .nil
      simp [appDbActionMember,ActionPart.apply,getString,Json.getString?,Except.map]
  · rw [List.forall₂_map_left_iff,List.forall₂_map_right_iff]
    exact h.flip.imp fun f p hpf b => actionMember_param hpf.1 hpf.2 b

private theorem actionParts_watchPort (params : List IrActionParam) (watchPort : String) :
    (actionParts params watchPort).filterMap ActionPart.watchPort? =
      if watchPort.isEmpty then [] else [utf8 watchPort] := by
  unfold actionParts
  rw [List.filterMap_append,List.filterMap_append,List.filterMap_map]
  split <;> simp [ActionPart.watchPort?,Function.comp_def]

private theorem actionParts_params (params : List IrActionParam) (watchPort : String) :
    (actionParts params watchPort).filterMap ActionPart.param? = params := by
  unfold actionParts
  rw [List.filterMap_append,List.filterMap_append,List.filterMap_map]
  split <;> simp [ActionPart.param?,Function.comp_def,List.filterMap_cons]

/-- The same action up to the order of its parameters. -/
structure SameAction (a b : IrActionInvocation) : Prop where
  name : b.name = a.name
  params : a.params.Perm b.params

structure SameMember (a b : IrActionSetInvocation) : Prop where
  action : SameAction a.action b.action
  weight : b.weight = a.weight
  watchPort : b.watchPort = a.watchPort

theorem jsonText_eq_ok {b : Bytes} {s : String} (h : jsonText b = .ok s) : b = utf8 s := by
  unfold jsonText at h
  split at h
  · rename_i t ht
    cases h
    exact (utf8_of_ofUtf8? ht).symm
  · cases h

private theorem appDbActionToIr_stored {a : IrActionSetInvocation} (h : StoredAction info tableName a.action)
    (hparams : appDbParams a.action = .ok params) {watchPort : String}
    (hport : jsonText a.watchPort = .ok watchPort) :
    ∃ b,appDbActionToIr info tableName (irActionSetInvocationToJsonValue a params watchPort) = .ok b ∧ SameMember a b := by
  have hkeys := nodup_actionMembers a watchPort h.names hparams
  have hperm := perm_foldl_assign hkeys
  have hlookup (x : String × Json) (hx : x ∈ actionMembers a params watchPort) :
      ((actionMembers a params watchPort).foldl (fun m x => assign x.1 x.2 m) []).lookup x.1 = some x.2 :=
    lookup_foldl_assign Prod.fst Prod.snd hkeys [] hx
  have haction := hlookup ("action",.str a.action.name) (by simp [actionMembers])
  have hweight := hlookup ("weight",.num a.weight.toInt) (by simp [actionMembers])
  obtain ⟨parts,hparts,hfold⟩ := foldlM_edits_perm hperm (forall₂_actionParts a watchPort (h.fields hparams))
    ⟨{ name := a.action.name },a.weight,[]⟩
  have hports := (hparts.filterMap ActionPart.watchPort?).symm
  have hparamParts := (hparts.filterMap ActionPart.param?).symm
  rw [actionParts_watchPort] at hports
  rw [actionParts_params] at hparamParts
  rw [foldl_actionParts,List.nil_append] at hfold
  have hwatchPort : (parts.filterMap ActionPart.watchPort?).getLastD [] = a.watchPort := by
    rw [jsonText_eq_ok hport]
    split at hports
    · rename_i hempty
      rw [List.perm_nil.mp hports.symm,String.isEmpty_iff.mp hempty]
      rfl
    · rw [List.perm_singleton.mp hports.symm]
      rfl
  refine ⟨⟨⟨a.action.name,parts.filterMap ActionPart.param?⟩,a.weight,_⟩,?_,⟨rfl,hparamParts⟩,rfl,hwatchPort⟩
  have hjson : Json.ofMembers (actionMembers a params watchPort) =
      .obj ((actionMembers a params watchPort).foldl (fun m x => assign x.1 x.2 m) []) := rfl
  rw [irActionSetInvocationToJsonValue_eq,hjson]
  simp only [appDbActionToIr,jsonAt?,haction,hweight,Option.bind_some,Json.getString?,getInt32?,Int32.ofInt_toInt]
  exact hfold

def MemberJson (a : IrActionSetInvocation) (j : Json) : Prop :=
  ∃ params port,appDbParams a.action = .ok params ∧ jsonText a.watchPort = .ok port ∧
    j = irActionSetInvocationToJsonValue a params port

private theorem zipWith_memberJson {params : List (List (String × String))} {ports : List String}
    (hparams : List.Forall₂ (fun a ps => appDbParams (IrActionSetInvocation.action a) = .ok ps) actions params)
    (hports : List.Forall₂ (fun a port => jsonText (IrActionSetInvocation.watchPort a) = .ok port) actions ports) :
    List.Forall₂ MemberJson actions
      (List.zipWith (fun a (p : List (String × String) × String) => irActionSetInvocationToJsonValue a p.1 p.2) actions
        (params.zip ports)) := by
  induction hparams generalizing ports with
  | nil => exact .nil
  | cons hps _ ih =>
    cases hports with
    | cons hport hports => exact .cons ⟨_,_,hps,hport,rfl⟩ (ih hports)

private theorem irActionSetToAppDbValues_eq_ok {values : List FieldValue}
    (h : irActionSetToAppDbValues actions = .ok values) :
    ∃ jsons,List.Forall₂ MemberJson actions jsons ∧ values = [textField "actions" (Json.arr jsons).dump] := by
  unfold irActionSetToAppDbValues at h
  obtain ⟨params,hparams,h⟩ := bind_eq_ok.mp h
  obtain ⟨ports,hports,h⟩ := bind_eq_ok.mp h
  simp only [Except.ok.injEq] at h
  exact ⟨_,zipWith_memberJson (mapM_eq_ok.mp (orFail_eq_ok.mp hparams)) (mapM_eq_ok.mp hports),h.symm⟩

theorem MemberJson.plain {a : IrActionSetInvocation} {j : Json} (hj : MemberJson a j) (h : StoredAction info tableName a.action) :
    j.Plain := by
  obtain ⟨params,port,hparams,-,rfl⟩ := hj
  rw [irActionSetInvocationToJsonValue_eq]
  exact Json.plain_ofMembers (nodup_actionMembers a port h.names hparams) (plain_actionMembers a params port)

private theorem memberJsons_stored {jsons : List Json}
    (hjsons : List.Forall₂ MemberJson actions jsons) (h : ∀ a ∈ actions,StoredAction info tableName a.action) :
    (∀ j ∈ jsons,j.Plain) ∧ ∃ bs,jsons.mapM (appDbActionToIr info tableName) = .ok bs ∧ List.Forall₂ SameMember actions bs := by
  simp only [mapM_eq_ok]
  induction hjsons with
  | nil => exact ⟨by simp,[],.nil,.nil⟩
  | @cons a j actions jsons hj _ ih =>
    have ha := h a List.mem_cons_self
    obtain ⟨hplain,bs,hbs,hsame⟩ := ih fun x hx => h x (List.mem_cons_of_mem _ hx)
    obtain ⟨params,port,hparams,hport,rfl⟩ := id hj
    obtain ⟨b,hb,hab⟩ := appDbActionToIr_stored ha hparams hport
    refine ⟨?_,b :: bs,.cons hb hbs,.cons hab hsame⟩
    rintro x (_ | ⟨_,hx⟩)
    · exact hj.plain ha
    · exact hplain x hx

private theorem appDbValueToIrActionSet_stored {jsons : List Json}
    (hjsons : List.Forall₂ MemberJson actions jsons) (h : ∀ a ∈ actions,StoredAction info tableName a.action) :
    ∃ bs,appDbValueToIrActionSet info tableName (utf8 (Json.arr jsons).dump) = .ok bs ∧
      List.Forall₂ SameMember actions bs := by
  obtain ⟨hplain,bs,hbs,hsame⟩ := memberJsons_stored hjsons h
  have hparse : Json.parse (Json.arr jsons).dump = some (.arr jsons) := by
    refine Json.parse_dump ?_
    rw [Json.Plain,Json.plainElems_iff]
    exact hplain
  refine ⟨bs,?_,hsame⟩
  rw [appDbValueToIrActionSet,ofUtf8?_utf8,Option.bind_some,hparse]
  exact hbs

end Actions

section Rows
variable {info : IrP4Info} {tableName : String} {actionName : Option String}

/-- A meter config without any member is not stored. -/
def storedMeter : Option MeterConfig → Option MeterConfig
  | some m => if m = {} then none else some m
  | none => none

private theorem appDbField_meter (e : IrTableEntry) (v : Int64) :
    appDbField info tableName actionName e (textField "meter/cir" (decimal v.toInt)) =
        .ok { e with meterConfig := some { e.meterConfig.getD {} with cir := v } } ∧
      appDbField info tableName actionName e (textField "meter/cburst" (decimal v.toInt)) =
        .ok { e with meterConfig := some { e.meterConfig.getD {} with cburst := v } } ∧
      appDbField info tableName actionName e (textField "meter/pir" (decimal v.toInt)) =
        .ok { e with meterConfig := some { e.meterConfig.getD {} with pir := v } } ∧
      appDbField info tableName actionName e (textField "meter/pburst" (decimal v.toInt)) =
        .ok { e with meterConfig := some { e.meterConfig.getD {} with pburst := v } } := by
  have hv : simpleAtoi64 (decimal v.toInt) = some v.toInt := simpleAtoi64_decimal ⟨v.le_toInt,v.toInt_lt⟩
  have hparam : ∀ field ∈ ["meter/cir","meter/cburst","meter/pir","meter/pburst"],
      (strDropPrefix "param/" field).isSome = false ∧ (strDropPrefix "meter/" field).isSome = true := by decide
  simp only [List.forall_mem_cons] at hparam
  obtain ⟨⟨hcir,hcir'⟩,⟨hcburst,hcburst'⟩,⟨hpir,hpir'⟩,⟨hpburst,hpburst'⟩,-⟩ := hparam
  refine ⟨?_,?_,?_,?_⟩ <;>
    simp [appDbField,textField,addAppDbMeterDataToIrTableEntry,hv,orFail,Except.mapError,hcir,hcir',hcburst,hcburst',hpir,hpir',
      hpburst,hpburst']

private theorem foldlM_meterField (he : e.meterConfig = none) (m : Option MeterConfig) :
    (meterField m).foldlM (appDbField info tableName actionName) e = .ok { e with meterConfig := storedMeter m } := by
  have hsame : ({ e with meterConfig := none } : IrTableEntry) = e := by rw [← he]
  cases m with
  | none => exact congrArg Except.ok hsame.symm
  | some m =>
    obtain ⟨cir,cburst,pir,pburst⟩ := m
    have hstep := @appDbField_meter info tableName actionName
    by_cases h₁ : cir = 0 <;> by_cases h₂ : cburst = 0 <;> by_cases h₃ : pir = 0 <;> by_cases h₄ : pburst = 0 <;>
      simp [meterField,p4MeterConfigToAppDbValues,storedMeter,h₁,h₂,h₃,h₄,hstep,he,hsame,bind,Except.bind,pure,Except.pure]

private theorem foldlM_metadataField (he : e.controllerMetadata = []) (metadata : Bytes) :
    (metadataField metadata).foldlM (appDbField info tableName actionName) e = .ok { e with controllerMetadata := metadata } := by
  unfold metadataField
  split
  · rename_i hempty
    rw [List.isEmpty_iff.mp hempty,← he]
    rfl
  · have hparam : (strDropPrefix "param/" "controller_metadata").isSome = false := by decide
    have hmeter : (strDropPrefix "meter/" "controller_metadata").isSome = false := by decide
    simp [appDbField,hparam,hmeter,pure,Except.pure,bind,Except.bind]

private theorem appDbField_param {p : IrActionParam} {f : String × String} (hname : f.1 = "param/" ++ p.name)
    (h : appDbNameValueStringsToIrActionParam info tableName name f.1 f.2 = .ok p) (e : IrTableEntry) :
    appDbField info tableName (some name) e (textField f.1 f.2) =
      .ok { e with type := .action { mutableAction e.type with params := (mutableAction e.type).params ++ [p] } } := by
  have haction : f.1 ≠ "action" := hname ▸ param_field_ne (by decide)
  have hactions : f.1 ≠ "actions" := hname ▸ param_field_ne (by decide)
  have hstart : (strDropPrefix "param/" f.1).isSome = true := by rw [hname,strDropPrefix_append]; rfl
  simp [appDbField,textField,haction,hactions,hstart,rowText,h,orFail,Except.mapError,bind,Except.bind]

private theorem foldlM_paramFields {ps : List IrActionParam} {fs : List (String × String)}
    (h : List.Forall₂ (fun (p : IrActionParam) f => f.1 = "param/" ++ p.name ∧
      appDbNameValueStringsToIrActionParam info tableName name f.1 f.2 = .ok p) ps fs)
    (e : IrTableEntry) (done : List IrActionParam) :
    (fs.map fun p => textField p.1 p.2).foldlM (appDbField info tableName (some name)) { e with type := .action ⟨name,done⟩ } =
      .ok { e with type := .action ⟨name,done ++ ps⟩ } := by
  induction h generalizing done with
  | nil => rw [List.append_nil]; rfl
  | @cons p f ps fs hpf _ ih =>
    rw [List.map_cons,List.foldlM_cons,appDbField_param hpf.1 hpf.2]
    refine (ih (done ++ [p])).trans ?_
    rw [List.append_assoc,List.singleton_append]

private theorem foldlM_actionFields (h : StoredAction info tableName a)
    (hparams : appDbParams a = .ok params) (he : e.type = .notSet) :
    (textField "action" a.name :: params.map fun p => textField p.1 p.2).foldlM (appDbField info tableName (some a.name)) e =
      .ok { e with type := .action a } := by
  have hname : appDbField info tableName (some a.name) e (textField "action" a.name) =
      .ok { e with type := .action ⟨a.name,[]⟩ } := by
    simp [appDbField,textField,rowText,Except.map,he,mutableAction]
  rw [List.foldlM_cons,hname]
  exact foldlM_paramFields (h.fields hparams) e []

private theorem restFields_ne {m : Option MeterConfig} {metadata : Bytes} {f : FieldValue}
    (hf : f ∈ meterField m ++ metadataField metadata) : f.1 ≠ "action" ∧ f.1 ≠ "actions" := by
  have hmember : ∀ (field : String) (v : Int64),f ∈ (if v = 0 then [] else [textField field (decimal v.toInt)]) → f.1 = field := by
    intro field v hf
    split at hf
    · cases hf
    · rw [List.mem_singleton.mp hf]
      rfl
  rcases List.mem_append.mp hf with hf | hf
  · cases m with
    | none => cases hf
    | some m =>
      simp only [meterField,p4MeterConfigToAppDbValues,List.mem_append] at hf
      rcases hf with ((hf | hf) | hf) | hf <;> rw [hmember _ _ hf] <;> decide
  · unfold metadataField at hf
    split at hf
    · cases hf
    · rw [List.mem_singleton.mp hf]
      simp

private theorem lastField_cons {v : Bytes} (h : ∀ x ∈ l,x.1 ≠ f) : lastField ((f,v) :: l) f = some v := by
  unfold lastField
  rw [List.reverse_cons,List.find?_append,List.find?_eq_none.mpr]
  · simp
  · intro x hx
    simpa using h x (List.mem_reverse.mp hx)

private theorem lastField_eq_none (h : ∀ x ∈ l,x.1 ≠ f) : lastField l f = none := by
  unfold lastField
  rw [List.find?_eq_none.mpr,Option.map_none]
  intro x hx
  simpa using h x (List.mem_reverse.mp hx)

theorem hasField_eq_false (h : ∀ x ∈ l,x.1 ≠ f) : hasField l f = false := by
  unfold hasField
  rw [List.any_eq_false]
  intro x hx
  simpa using h x hx

end Rows

section Entries
variable {info : IrP4Info}

/-- The same action or action set, up to the order of parameters. -/
inductive SameType : IrTableEntryType → IrTableEntryType → Prop
  | action {a b : IrActionInvocation} : SameAction a b → SameType (.action a) (.action b)
  | actionSet {as bs : List IrActionSetInvocation} : List.Forall₂ SameMember as bs → SameType (.actionSet as) (.actionSet bs)

/-- What AppDb keeps of an entry: the case of the table name, the order of matches and of
parameters, counters and a meter config without any member are lost. -/
structure ReadBack (e e' : IrTableEntry) : Prop where
  tableName : e'.tableName = asciiToLower e.tableName
  matches_ : e.matches_.Perm e'.matches_
  priority : e'.priority = e.priority
  type : SameType e.type e'.type
  meterConfig : e'.meterConfig = storedMeter e.meterConfig
  controllerMetadata : e'.controllerMetadata = e.controllerMetadata
  counterData : e'.counterData = none
  meterCounterData : e'.meterCounterData = none

structure StoredEntry (info : IrP4Info) (e : IrTableEntry) : Prop where
  tableName : ':' ∉ e.tableName.toList
  names : (e.matches_.map IrMatch.name).Nodup
  matches_ : ∀ m ∈ e.matches_,∃ text,StoredMatch info (asciiToLower e.tableName) m text
  priority : 0 ≤ e.priority
  action : ∀ a,e.type = .action a → StoredAction info (asciiToLower e.tableName) a
  actionSet : ∀ as,e.type = .actionSet as → ∀ a ∈ as,StoredAction info (asciiToLower e.tableName) a.action

theorem foldlM_restFields {tableName : String} {actionName : Option String} (hmeter : e.meterConfig = none)
    (hmetadata : e.controllerMetadata = []) (m : Option MeterConfig) (metadata : Bytes) :
    (meterField m ++ metadataField metadata).foldlM (appDbField info tableName actionName) e =
      .ok { e with meterConfig := storedMeter m,controllerMetadata := metadata } := by
  rw [List.foldlM_append,foldlM_meterField hmeter]
  exact foldlM_metadataField (by exact hmetadata) metadata

theorem getRedisP4rtTableKey_eq_ok {key : String} (h : getRedisP4rtTableKey e info = .ok key) :
    ∃ (type : TableType) (fields : List (String × String)),
      List.Forall₂ (fun m f => f.1 = IrMatch.name m ∧ irMatchToAppDbString m = .ok f.2) e.matches_ fields ∧
      key = asciiToUpper (type.typeName ++ "_" ++ e.tableName ++ ":") ++ (appDbKeyJson e.priority fields).dump := by
  unfold getRedisP4rtTableKey at h
  split at h
  · cases h
  · obtain ⟨type,-,h⟩ := bind_eq_ok.mp h
    obtain ⟨json,hjson,h⟩ := bind_eq_ok.mp h
    cases h
    obtain ⟨fields,hfields,rfl⟩ := map_eq_ok.mp hjson
    refine ⟨type,fields,(mapM_eq_ok.mp hfields).imp fun m f hmf => ?_,rfl⟩
    obtain ⟨text,htext,rfl⟩ := map_eq_ok.mp hmf
    exact ⟨rfl,htext⟩

theorem StoredEntry.key (h : StoredEntry info e) {key : String} (hkey : getRedisP4rtTableKey e info = .ok key) :
    sonicDbKeyToP4TableName key = .ok (asciiToLower e.tableName) ∧
      ∃ ms',e.matches_.Perm ms' ∧ appDbKeyToIrTableEntry info (asciiToLower e.tableName) (sonicDbKeyToAppDbKey key) =
        .ok { tableName := asciiToLower e.tableName,matches_ := ms',priority := e.priority } := by
  obtain ⟨type,fields,hfields,rfl⟩ := getRedisP4rtTableKey_eq_ok hkey
  obtain ⟨htable,hjson⟩ := redisKey_parts type h.tableName (appDbKeyJson e.priority fields).dump
  refine ⟨htable,?_⟩
  rw [hjson]
  refine appDbKeyToIrTableEntry_stored h.priority h.names (List.forall₂_iff_get.mpr ⟨hfields.length_eq,fun i h₁ h₂ => ?_⟩)
  obtain ⟨hname,htext⟩ := hfields.get h₁ h₂
  obtain ⟨text,hstored⟩ := h.matches_ _ (List.get_mem e.matches_ ⟨i,h₁⟩)
  cases htext.symm.trans hstored.encoded
  exact ⟨hname,hstored⟩

theorem StoredEntry.values {e : IrTableEntry} (h : StoredEntry info e) {values : List FieldValue}
    (hvalues : irTableEntryToAppDbValues e = .ok values) {e₀ : IrTableEntry} (htype : e₀.type = .notSet)
    (hmeter : e₀.meterConfig = none) (hmetadata : e₀.controllerMetadata = []) :
    ∃ actionName type',rowActionName values = .ok actionName ∧ SameType e.type type' ∧
      values.foldlM (appDbField info (asciiToLower e.tableName) actionName) e₀ =
        .ok { e₀ with type := type',meterConfig := storedMeter e.meterConfig,controllerMetadata := e.controllerMetadata } ∧
      (hasField values "action" && hasField values "actions") = false := by
  obtain ⟨fields,hfields,rfl⟩ := map_eq_ok.mp hvalues
  rw [List.append_assoc]
  have hrest : ∀ f ∈ meterField e.meterConfig ++ metadataField e.controllerMetadata,f.1 ≠ "action" ∧ f.1 ≠ "actions" :=
    fun f hf => restFields_ne hf
  cases hcase : e.type with
  | notSet => simp [hcase,irActionToAppDbValues] at hfields
  | action a =>
    rw [hcase] at hfields
    obtain ⟨params,hparams,rfl⟩ := map_eq_ok.mp (orFail_eq_ok.mp hfields)
    have hne : ∀ f ∈ (params.map fun p => textField p.1 p.2) ++ (meterField e.meterConfig ++ metadataField e.controllerMetadata),
        f.1 ≠ "action" ∧ f.1 ≠ "actions" := by
      intro f hf
      rcases List.mem_append.mp hf with hf | hf
      · obtain ⟨x,hx,rfl⟩ := List.mem_map.mp hf
        obtain ⟨p,-,hname,-⟩ := exists_of_forall₂_right (appDbParams_eq_ok.mp hparams) hx
        simp only [textField,hname]
        exact ⟨param_field_ne (by decide),param_field_ne (by decide)⟩
      · exact hrest f hf
    refine ⟨some a.name,.action a,?_,.action ⟨rfl,.refl _⟩,?_,?_⟩
    · rw [rowActionName,List.cons_append,textField,lastField_cons fun f hf => (hne f hf).1]
      simp [rowText,Except.map]
    · rw [List.foldlM_append,foldlM_actionFields (h.action a hcase) hparams htype]
      exact foldlM_restFields (by exact hmeter) (by exact hmetadata) _ _
    · rw [List.cons_append,hasField_eq_false (f := "actions"),Bool.and_false]
      rintro f (_ | ⟨_,hf⟩)
      · simp [textField]
      · exact (hne f hf).2
  | actionSet actions =>
    rw [hcase] at hfields
    obtain ⟨jsons,hjsons,rfl⟩ := irActionSetToAppDbValues_eq_ok hfields
    obtain ⟨bs,hbs,hsame⟩ := appDbValueToIrActionSet_stored hjsons (h.actionSet actions hcase)
    have hne : ∀ f ∈ textField "actions" (Json.arr jsons).dump :: (meterField e.meterConfig ++ metadataField e.controllerMetadata),
        f.1 ≠ "action" := by
      rintro f (_ | ⟨_,hf⟩)
      · simp [textField]
      · exact (hrest f hf).1
    refine ⟨none,.actionSet bs,?_,.actionSet hsame,?_,?_⟩
    · rw [rowActionName,List.singleton_append,lastField_eq_none hne]
    · have hfield : appDbField info (asciiToLower e.tableName) none e₀ (textField "actions" (Json.arr jsons).dump) =
          .ok { e₀ with type := .actionSet bs } := by
        simp [appDbField,textField,hbs,Except.map]
      rw [List.singleton_append,List.foldlM_cons,hfield]
      exact foldlM_restFields (by exact hmeter) (by exact hmetadata) _ _
    · rw [List.singleton_append,hasField_eq_false hne,Bool.false_and]

theorem StoredEntry.readBack (h : StoredEntry info e) {key : String} {values : List FieldValue}
    (hkey : getRedisP4rtTableKey e info = .ok key) (hvalues : irTableEntryToAppDbValues e = .ok values) :
    ∃ e',appDbKeyAndValuesToIrTableEntry info key values = .ok e' ∧ ReadBack e e' := by
  obtain ⟨htable,ms',hperm,hentry⟩ := h.key hkey
  let e₀ : IrTableEntry := { tableName := asciiToLower e.tableName,matches_ := ms',priority := e.priority }
  obtain ⟨actionName,type',hname,hsame,hfold,hfields⟩ := @StoredEntry.values info e h values hvalues e₀ rfl rfl rfl
  refine ⟨{ e₀ with type := type',meterConfig := storedMeter e.meterConfig,controllerMetadata := e.controllerMetadata },?_,
    ⟨rfl,hperm,rfl,hsame,rfl,rfl,rfl,rfl⟩⟩
  unfold appDbKeyAndValuesToIrTableEntry
  refine bind_eq_ok.mpr ⟨_,orFail_eq_ok.mpr htable,bind_eq_ok.mpr ⟨_,hentry,bind_eq_ok.mpr ⟨_,hname,bind_eq_ok.mpr ⟨_,hfold,?_⟩⟩⟩⟩
  rw [hfields]
  rfl

theorem StoredEntry.exists_key (h : StoredEntry info e) {table : IrTableDefinition}
    (htable : info.tablesByName.lookup e.tableName = some table) :
    (∃ key,getRedisP4rtTableKey e info = .ok key) ↔ ∃ type,getTableType table = .ok type := by
  have hjson : ∃ json,irTableEntryToAppDbKey e = .ok json := by
    have hfields : ∃ fields,(e.matches_.mapM fun m => (irMatchToAppDbString m).map (m.name,·)) = .ok fields := by
      refine exists_mapM_eq_ok.mpr fun m hm => ?_
      obtain ⟨text,htext⟩ := h.matches_ m hm
      exact ⟨_,map_eq_ok.mpr ⟨text,htext.encoded,rfl⟩⟩
    obtain ⟨fields,hfields⟩ := hfields
    exact ⟨_,map_eq_ok.mpr ⟨fields,hfields,rfl⟩⟩
  obtain ⟨json,hjson⟩ := hjson
  unfold getRedisP4rtTableKey
  rw [htable]
  constructor
  · rintro ⟨key,hkey⟩
    obtain ⟨type,htype,-⟩ := bind_eq_ok.mp hkey
    exact ⟨type,htype⟩
  · rintro ⟨type,htype⟩
    exact ⟨_,bind_eq_ok.mpr ⟨type,htype,bind_eq_ok.mpr ⟨json,hjson,rfl⟩⟩⟩

def watchPorts : IrTableEntryType → List Bytes
  | .actionSet actions => actions.map IrActionSetInvocation.watchPort
  | _ => []

private theorem exists_jsonText {b : Bytes} : (∃ s,jsonText b = .ok s) ↔ (ofUtf8? b).isSome = true := by
  unfold jsonText
  cases ofUtf8? b <;> simp

theorem StoredAction.exists_params {tableName : String} (h : StoredAction info tableName a) :
    ∃ params,appDbParams a = .ok params := by
  refine exists_mapM_eq_ok.mpr fun p hp => ?_
  obtain ⟨text,htext⟩ := h.params p hp
  exact ⟨_,map_eq_ok.mpr ⟨text,htext.encoded,rfl⟩⟩

theorem StoredEntry.exists_values (h : StoredEntry info e) (htype : e.type ≠ .notSet) :
    (∃ values,irTableEntryToAppDbValues e = .ok values) ↔ ∀ port ∈ watchPorts e.type,(ofUtf8? port).isSome = true := by
  have hfields : (∃ values,irTableEntryToAppDbValues e = .ok values) ↔ ∃ fields,irActionToAppDbValues e.type = .ok fields := by
    unfold irTableEntryToAppDbValues
    simp only [map_eq_ok]
    exact ⟨fun ⟨_,fields,hf,_⟩ => ⟨fields,hf⟩,fun ⟨fields,hf⟩ => ⟨_,fields,hf,rfl⟩⟩
  rw [hfields]
  cases hcase : e.type with
  | notSet => exact absurd hcase htype
  | action a =>
    obtain ⟨params,hparams⟩ := (h.action a hcase).exists_params
    simp [irActionToAppDbValues,irActionInvocationToAppDbValues,hparams,orFail,Except.mapError,Except.map,watchPorts]
  | actionSet actions =>
    obtain ⟨params,hparams⟩ := exists_mapM_eq_ok.mpr fun a ha => ((h.actionSet actions hcase) a ha).exists_params
    simp only [irActionToAppDbValues,watchPorts,List.forall_mem_map,← exists_jsonText]
    rw [← exists_mapM_eq_ok]
    constructor
    · rintro ⟨values,hvalues⟩
      obtain ⟨_,-,hvalues⟩ := bind_eq_ok.mp hvalues
      obtain ⟨ports,hports,-⟩ := bind_eq_ok.mp hvalues
      exact ⟨ports,hports⟩
    · rintro ⟨ports,hports⟩
      exact ⟨_,bind_eq_ok.mpr ⟨params,orFail_eq_ok.mpr hparams,bind_eq_ok.mpr ⟨ports,hports,rfl⟩⟩⟩

end Entries

section Translated
variable [InetText] {info : IrP4Info} {options : TranslationOptions} {table : IrTableDefinition}

def entryParams : IrTableEntryType → List IrActionParam
  | .action a => a.params
  | .actionSet actions => actions.flatMap fun a => a.action.params
  | .notSet => []

/-- Names that survive: keys are written in upper case and tables and match fields are looked
up in lower case, whenever there is anything to look up. -/
structure LowerCaseNames (e : IrTableEntry) : Prop where
  separated : ':' ∉ e.tableName.toList
  table : e.matches_ ≠ [] ∨ entryParams e.type ≠ [] → asciiToLower e.tableName = e.tableName
  matches_ : ∀ m ∈ e.matches_,asciiToLower m.name = m.name

private theorem storedMatch_of_translated (hinet : InetText.Separated) (htable : table.WellFormed info) {tableName : String}
    (hfound : info.tablesByName.lookup (asciiToLower tableName) = some table) {m : FieldMatch}
    {r : IrMatchFieldDefinition × IrMatch} (h : piMatchToIr options table m = .ok r) (hname : asciiToLower r.2.name = r.2.name) :
    ∃ text,StoredMatch info tableName r.2 text := by
  obtain ⟨hd,-,hrname,hvalue⟩ := piMatchToIr_eq_ok.mp h
  obtain ⟨text,htext⟩ := exists_matchText hinet (htable.valid _ (mem_of_lookup_eq_some hd)) hvalue
  have hlookup : table.matchFieldsByName.lookup (asciiToLower r.2.name) = some r.1 := by
    rw [hname,hrname]
    exact (htable.matchFields.lookup_name hd).2
  refine ⟨text,htext.encoded,?_⟩
  simp [appDbKeyValueStringsToIrMatch,hfound,hlookup,htext.decoded,Except.map]

omit [InetText] in
private theorem find_entryAction (hinfo : info.WellFormed) (htable : table.WellFormed info) {id : UInt32} {d : IrActionDefinition}
    (hd : info.actionsById.lookup id = some d) (hvalid : (table.entryActions.any fun v => v.preamble.id = id) = true) :
    (table.entryActions.find? fun a => a.preamble.aliasName = d.preamble.aliasName) = some d := by
  obtain ⟨v,hv,hvid⟩ := List.any_eq_true.mp hvalid
  have hentry (v : IrActionDefinition) (hv : v ∈ table.entryActions) : info.actionsById.lookup v.preamble.id = some v :=
    lookup_eq_some_of_mem hinfo.actions.idNodup (htable.entryActions v hv)
  have hvd : v = d := by
    have hlookup := hentry v hv
    rw [of_decide_eq_true hvid,hd] at hlookup
    exact (Option.some.inj hlookup).symm
  subst hvd
  cases hfind : table.entryActions.find? fun a => a.preamble.aliasName = v.preamble.aliasName with
  | none => simpa using List.find?_eq_none.mp hfind v hv
  | some u =>
    have hname : u.preamble.aliasName = v.preamble.aliasName := by simpa using List.find?_some hfind
    have hu := (hinfo.action_of_id (hentry u (List.mem_of_find?_eq_some hfind))).2.1
    rw [hname,(hinfo.action_of_id hd).2.1] at hu
    exact hu.symm

theorem storedAction_of_translated (hinet : InetText.Separated) (hinfo : info.WellFormed) (htable : table.WellFormed info)
    {tableName : String} {a : Action} {ir : IrActionInvocation}
    (hfound : ir.params ≠ [] → info.tablesByName.lookup (asciiToLower tableName) = some table)
    (h : piActionToIr info options table.entryActions a = .ok ir) : StoredAction info tableName ir := by
  obtain ⟨d,hd,hvalid,-,hreasons,-,hname,hparams⟩ := piActionToIr_spec h
  have hwf := (hinfo.action_of_id hd).2.2
  obtain ⟨hrel,hnodup,-⟩ := partitionDistinct_nil [] hreasons
  refine ⟨hparams ▸ params_names_nodup hwf hrel hnodup,fun p hp => ?_⟩
  have hlookup := hfound (List.ne_nil_of_mem hp)
  rw [hparams] at hp
  obtain ⟨pi,-,hpi⟩ := exists_of_forall₂_right hrel hp
  obtain ⟨pd,hpd,hpname,hvalue⟩ := piParamToIr_eq_ok.mp hpi
  obtain ⟨text,htext⟩ := exists_valueText hinet hvalue
  have hparam : d.paramsByName.lookup p.name = some pd := hpname ▸ (hwf.params.lookup_name hpd).2
  refine ⟨text,htext.encoded,?_⟩
  simp [appDbNameValueStringsToIrActionParam,stripAppDbActionParamPrefix,hlookup,hname,find_entryAction hinfo htable hd hvalid,
    hparam,htext.decoded,bind,Except.bind]

omit [InetText] in
theorem priority_nonneg {priority : Int32} {refused : String} (h : priorityReasons table priority refused = []) : 0 ≤ priority := by
  unfold priorityReasons at h
  split_ifs at h with hrequired hpositive hzero
  · exact Int32.le_of_lt (Int32.not_le.mp hpositive)
  · rw [not_not.mp hzero]
    exact Int32.le_refl _

private theorem storedEntry_of_translated (hinet : InetText.Separated) (hinfo : info.WellFormed) (hoptions : options.keyOnly = false)
    {pi : TableEntry} (h : TranslatedPiEntry info options pi e table) (hnames : LowerCaseNames e) :
    StoredEntry info e := by
  obtain ⟨-,hlookup,htable⟩ := hinfo.table_of_id h.found
  have hfound : e.matches_ ≠ [] ∨ entryParams e.type ≠ [] →
      info.tablesByName.lookup (asciiToLower (asciiToLower e.tableName)) = some table := by
    intro hparts
    rw [asciiToLower_asciiToLower,hnames.table hparts,h.tableName]
    exact hlookup
  have hmatches := piMatchesToIr_eq.mp h.matches_eq
  have htype := piTableActionToIr_spec (h.actionReasons hoptions)
  have heq : e.type = (piTableActionToIr info options table pi.action).2 := by
    rw [h.type,hoptions]
    rfl
  rw [← heq] at htype
  generalize pi.action = action at htype
  refine ⟨hnames.separated,?_,fun m hm => ?_,?_,fun a ha => ?_,fun as has a ha => ?_⟩
  · rw [h.matches_]
    exact hmatches.names_nodup htable
  · have hne := List.ne_nil_of_mem hm
    have hlower := hnames.matches_ m hm
    rw [h.matches_] at hm
    obtain ⟨r,hr,rfl⟩ := List.mem_map.mp hm
    obtain ⟨f,-,hf⟩ := exists_of_forall₂_right hmatches.each hr
    exact storedMatch_of_translated hinet htable (hfound (.inl hne)) hf hlower
  · rw [h.priority]
    exact priority_nonneg h.priorityReasons
  · rw [ha] at htype hfound
    cases htype with
    | action _ _ hir => exact storedAction_of_translated hinet hinfo htable (fun hne => hfound (.inr hne)) hir
  · rw [has] at htype hfound
    cases htype with
    | actionSet _ _ hir =>
      obtain ⟨p,-,hp⟩ := exists_of_forall₂_right hir ha
      refine storedAction_of_translated hinet hinfo htable (fun hne => hfound (.inr ?_)) (piActionProfileActionToIr_spec hp).1
      obtain ⟨x,hx⟩ := List.exists_mem_of_ne_nil _ hne
      exact List.ne_nil_of_mem (List.mem_flatMap.mpr ⟨a,ha,hx⟩)

/-- Entries translated from PI are written to AppDb and read back. -/
theorem app_db_round_trip (hinet : InetText.Separated) (hinfo : info.WellFormed) (hoptions : options.keyOnly = false)
    {pi : TableEntry} {e : IrTableEntry} (h : piTableEntryToIr info pi options = .ok e) (htype : e.type ≠ .notSet)
    (hnames : LowerCaseNames e) :
    ((∃ key,getRedisP4rtTableKey e info = .ok key) ↔
        ∃ table type,info.tablesByName.lookup e.tableName = some table ∧ getTableType table = .ok type) ∧
      ((∃ values,irTableEntryToAppDbValues e = .ok values) ↔ ∀ port ∈ watchPorts e.type,(ofUtf8? port).isSome = true) ∧
      ∀ key values,getRedisP4rtTableKey e info = .ok key → irTableEntryToAppDbValues e = .ok values →
        ∃ e',appDbKeyAndValuesToIrTableEntry info key values = .ok e' ∧ ReadBack e e' := by
  obtain ⟨table,htranslated⟩ := piTableEntryToIr_spec h
  have hstored := storedEntry_of_translated hinet hinfo hoptions htranslated hnames
  have htable : info.tablesByName.lookup e.tableName = some table := by
    rw [htranslated.tableName]
    exact (hinfo.table_of_id htranslated.found).2.1
  refine ⟨?_,hstored.exists_values htype,fun key values => hstored.readBack⟩
  rw [hstored.exists_key htable]
  constructor
  · rintro ⟨type,htype⟩
    exact ⟨table,type,htable,htype⟩
  · rintro ⟨table',type,htable',htype⟩
    cases htable.symm.trans htable'
    exact ⟨type,htype⟩

end Translated

attribute [local instance] uncompressedInet

def sampleField (name : String) : IrMatchFieldDefinition := { matchField := { id := 1,name := name,bitwidth := 10,matchType := .exact } }

def sampleAction : IrActionDefinition :=
  { preamble := { id := 5,aliasName := "set_port" },paramsById := [(1,{ param := { id := 1,name := "port",bitwidth := 8 } })],
    paramsByName := [("port",{ param := { id := 1,name := "port",bitwidth := 8 } })] }

def meteredTable (name field : String) : IrTableDefinition :=
  { preamble := { id := 1,aliasName := name },matchFieldsById := [(1,sampleField field)],
    matchFieldsByName := [(field,sampleField field)],entryActions := [sampleAction],hasMeter := true }

def tableInfo (table : IrTableDefinition) : IrP4Info :=
  { tablesById := [(1,table)],tablesByName := [(table.preamble.aliasName,table)],actionsById := [(5,sampleAction)],
    actionsByName := [("set_port",sampleAction)],actionProfilesById := [(2,{ preamble := { id := 2,aliasName := "groups" } })],
    actionProfilesByName := [("groups",{ preamble := { id := 2,aliasName := "groups" } })] }

def meteredInfo (name field : String) : IrP4Info := tableInfo (meteredTable name field)

def groupsInfo : IrP4Info := tableInfo { meteredTable "ports" "in" with usesOneshot := true,actionProfileId := some 2 }

def aclInfo : IrP4Info := tableInfo { meteredTable "ports" "in" with preamble :=
    { id := 1,aliasName := "ports",annotations := ["@sai_acl(a)","@sai_acl(b)"] } }

def meteredPi (meter : MeterConfig) : TableEntry :=
  { tableId := 1,matches_ := [⟨1,.exact [7]⟩],action := some (.action ⟨5,[⟨1,[3]⟩]⟩),meterConfig := some meter,
    metadata := [0xff] }

def meteredIr (name field : String) (meter : Option MeterConfig) : IrTableEntry :=
  { tableName := name,matches_ := [⟨field,.exact (.hexStr "0x007")⟩],type := .action ⟨"set_port",[⟨"port",.hexStr "0x03"⟩]⟩,
    meterConfig := meter,controllerMetadata := [0xff] }

/-- Decoding of what is written for an entry. -/
def rewritten (info : IrP4Info) (e : IrTableEntry) : Fallible IrTableEntry := do
  let key ← orFail (getRedisP4rtTableKey e info)
  let values ← irTableEntryToAppDbValues e
  appDbKeyAndValuesToIrTableEntry info key values

def groupsPi : TableEntry :=
  { tableId := 1,matches_ := [⟨1,.exact [7]⟩],action := some (.actionProfileActionSet [⟨⟨5,[⟨1,[3]⟩]⟩,1,[0xff]⟩]) }

def groupsIr : IrTableEntry :=
  { tableName := "ports",matches_ := [⟨"in",.exact (.hexStr "0x007")⟩],
    type := .actionSet [⟨⟨"set_port",[⟨"port",.hexStr "0x03"⟩]⟩,1,[0xff]⟩] }

def notFound (message : String) : Fallible IrTableEntry := .error (.status ⟨.notFound,message⟩)

/-- Entries that are not read back: upper case names, a colon in the name of the table, a meter
config of zeros, a watch port that is not text and a table of no type. -/
theorem entries_not_read_back :
    (piTableEntryToIr (meteredInfo "Ports" "in") (meteredPi { cir := 5 }) {} = .ok (meteredIr "Ports" "in" (some { cir := 5 })) ∧
      rewritten (meteredInfo "Ports" "in") (meteredIr "Ports" "in" (some { cir := 5 })) =
        notFound "Could not translate AppDb match field 'in' into IR because the table 'ports' does not exist.") ∧
    (piTableEntryToIr (meteredInfo "ports" "In") (meteredPi { cir := 5 }) {} = .ok (meteredIr "ports" "In" (some { cir := 5 })) ∧
      rewritten (meteredInfo "ports" "In") (meteredIr "ports" "In" (some { cir := 5 })) =
        notFound "Could not translate AppDb match field 'In' into IR because table 'ports' does not have the required field.") ∧
    (piTableEntryToIr (meteredInfo "a:b" "in") (meteredPi { cir := 5 }) {} = .ok (meteredIr "a:b" "in" (some { cir := 5 })) ∧
      rewritten (meteredInfo "a:b" "in") (meteredIr "a:b" "in" (some { cir := 5 })) =
        .error (.status ⟨.unknown,"Could not parse JSON string: B:\x7b\"match/in\":\"0x007\"\x7d"⟩)) ∧
    (piTableEntryToIr (meteredInfo "ports" "in") (meteredPi {}) {} = .ok (meteredIr "ports" "in" (some {})) ∧
      rewritten (meteredInfo "ports" "in") (meteredIr "ports" "in" (some {})) = .ok (meteredIr "ports" "in" none)) ∧
    (piTableEntryToIr groupsInfo groupsPi {} = .ok groupsIr ∧
      rewritten groupsInfo groupsIr = .error (.thrown "[json.exception.type_error.316] invalid UTF-8 byte")) ∧
    (piTableEntryToIr aclInfo (meteredPi { cir := 5 }) {} = .ok (meteredIr "ports" "in" (some { cir := 5 })) ∧
      rewritten aclInfo (meteredIr "ports" "in" (some { cir := 5 })) = .error (.status (invalidArgument
        "Failed to determine table type: Multiple annotations contained label \"sai_acl\""))) := by
  refine ⟨⟨?_,?_⟩,⟨?_,?_⟩,⟨?_,?_⟩,⟨?_,?_⟩,⟨?_,?_⟩,?_,?_⟩
  all_goals decide +kernel

theorem metered_round_trip : ∃ key values,getRedisP4rtTableKey (meteredIr "ports" "in" (some { cir :=
    5 })) (meteredInfo "ports" "in") = .ok key ∧
    irTableEntryToAppDbValues (meteredIr "ports" "in" (some { cir := 5 })) = .ok values ∧
    ∃ e',appDbKeyAndValuesToIrTableEntry (meteredInfo "ports" "in") key values = .ok e' ∧
      ReadBack (meteredIr "ports" "in" (some { cir := 5 })) e' := by
  have hinfo : (meteredInfo "ports" "in").WellFormed := by decide +kernel
  have hir : piTableEntryToIr (meteredInfo "ports" "in") (meteredPi { cir := 5 }) {} =
      .ok (meteredIr "ports" "in" (some { cir := 5 })) := by decide +kernel
  obtain ⟨hkey,hvalues,hback⟩ := app_db_round_trip uncompressedInet_separated hinfo rfl hir (by decide)
    ⟨by decide,fun _ => by decide +kernel,by decide +kernel⟩
  obtain ⟨key,hkey⟩ := hkey.mpr ⟨meteredTable "ports" "in",.fixed,by decide +kernel,by decide +kernel⟩
  obtain ⟨values,hvalues⟩ := hvalues.mpr (by decide)
  exact ⟨key,values,hkey,hvalues,hback key values hkey hvalues⟩

end SonicPins.Sonic
