import SonicPins.Pdpi.MulticastMeaning
import SonicPins.Pdpi.NormalForm
import SonicPins.Pdpi.PdLosses
import SonicPins.Pdpi.PdReading

/-! Table entries on the way from PI to PD and back: which IR entries the PD message
gives back. -/
namespace SonicPins.Pdpi
open Lib Packetlib

variable {validActions : List IrActionDefinition}

section Texts
variable [InetText] {format : Format} {w : Nat} {bytes : Bytes} {v : IrValue}

/-- The C library writes every IPv6 address as some text. -/
def InetText.Visible : Prop := ∀ a,InetText.ntop a ≠ ""

theorem formatted_irValueString (h : arbitraryByteStringToIrValue format w bytes = .ok v) :
    formattedStringToIrValue (irValueString v) format = v := by
  have hne := accepted_ne_nil h
  unfold arbitraryByteStringToIrValue at h
  rw [if_neg (by simpa using hne)] at h
  cases format with
  | hexString =>
    obtain ⟨n,-,h⟩ := bind_eq_ok.mp h
    cases h
    rfl
  | mac =>
    obtain ⟨a,-,rfl⟩ := map_eq_ok.mp h
    rfl
  | ipv4 =>
    obtain ⟨a,-,rfl⟩ := map_eq_ok.mp h
    rfl
  | ipv6 =>
    obtain ⟨a,-,h⟩ := bind_eq_ok.mp h
    split_ifs at h
    cases h
    rfl
  | string =>
    simp only at h
    split at h
    · cases h
      rfl
    · cases h

private theorem irValueString_ne_empty (hvisible : InetText.Visible) (h : arbitraryByteStringToIrValue format w bytes = .ok v) :
    irValueString v ≠ "" := by
  have hne := accepted_ne_nil h
  unfold arbitraryByteStringToIrValue at h
  rw [if_neg (by simpa using hne)] at h
  cases format with
  | hexString =>
    obtain ⟨n,-,h⟩ := bind_eq_ok.mp h
    cases h
    simp [irValueString]
  | mac =>
    obtain ⟨a,-,rfl⟩ := map_eq_ok.mp h
    intro hempty
    have hback := MacAddress.ofString_toString a
    rw [show MacAddress.toString a = "" from hempty] at hback
    cases hback
  | ipv4 =>
    obtain ⟨a,-,rfl⟩ := map_eq_ok.mp h
    intro hempty
    have hback := Ipv4Address.ofString_toString a
    rw [show Ipv4Address.toString a = "" from hempty] at hback
    cases hback
  | ipv6 =>
    obtain ⟨a,-,h⟩ := bind_eq_ok.mp h
    split_ifs at h
    cases h
    exact hvisible _
  | string =>
    simp only at h
    split at h
    · rename_i s hs
      cases h
      rintro rfl
      exact hne (utf8_of_ofUtf8? hs).symm
    · cases h

end Texts

section Matches
variable [InetText] {gen : PdGenOptions} {options piOptions : TranslationOptions} {info : IrP4Info} {table : IrTableDefinition}
  {d : IrMatchFieldDefinition} {pd : PdMatch}

/-- A prefix length that the reading of a PD message accepts. -/
def IrMatchValue.NonNegative : IrMatchValue → Prop
  | .lpm _ p => 0 ≤ p.toInt
  | _ => True

private theorem pdMatchValueToIr_written {value : MatchValue} {v : IrMatchValue} (h : AcceptedMatch d value v) {name : String}
    {written : PdFieldValue} (hwritten : pdFieldValue d.matchField.matchType v = some written)
    (hget : pd.get d.matchField.matchType name = some written) {r : IrMatchValue} :
    pdMatchValueToIr d pd name = .ok r ↔ v.NonNegative ∧ v = r := by
  cases h with
  | @exact value ir htype hir =>
    rw [htype] at hwritten hget
    cases hwritten
    have htext : pd.text name = irValueString ir := by simpa [PdMatch.get,IrMatchValue.exactValue] using hget
    simp [pdMatchValueToIr,htype,htext,formatted_irValueString hir,IrMatchValue.NonNegative]
  | @lpm value p v htype hp hlpm =>
    obtain ⟨mask,n,ir,hmask,-,-,hir,rfl⟩ := piLpmToIr_eq_ok.mp hlpm
    rw [htype] at hwritten hget
    cases hwritten
    have hmessage : pd.message name = some (.lpm (irValueString ir) p) := by
      simpa [PdMatch.get,IrMatchValue.lpmValue] using hget
    have hbound : ¬ p.toInt > d.matchField.bitwidth := by
      intro hlong
      unfold prefixLenToMask at hmask
      rw [if_pos hlong] at hmask
      cases hmask
    have hnegative : p < 0 ↔ ¬ 0 ≤ p.toInt := by
      rw [Int32.lt_iff_toInt_lt]
      exact not_le.symm
    simp only [pdMatchValueToIr,htype,PdMatch.lpm,hmessage,hbound,or_false,hnegative,IrMatchValue.NonNegative,
      formatted_irValueString hir]
    split_ifs with hneg <;> simp [hneg]
  | @ternary value mask v htype hternary =>
    obtain ⟨n,k,ir,irMask,_,_,_,_,hir,hirMask,rfl⟩ := piTernaryToIr_eq_ok.mp hternary
    rw [htype] at hwritten hget
    cases hwritten
    have hmessage : pd.message name = some (.ternary (irValueString ir) (irValueString irMask)) := by
      simpa [PdMatch.get,IrMatchValue.ternaryValue] using hget
    simp [pdMatchValueToIr,htype,PdMatch.ternary,hmessage,formatted_irValueString hir,formatted_irValueString hirMask,
      IrMatchValue.NonNegative]
  | @optional value ir htype hir =>
    rw [htype] at hwritten hget
    cases hwritten
    have hmessage : pd.message name = some (.optional (irValueString ir)) := by
      simpa [PdMatch.get,IrMatchValue.optionalValue] using hget
    simp [pdMatchValueToIr,htype,PdMatch.optional,hmessage,formatted_irValueString hir,IrMatchValue.NonNegative]

variable {ms : List FieldMatch} {translated : List (IrMatchFieldDefinition × IrMatch)}

theorem TranslatedMatches.mandatory (htable : table.WellFormed info) (h : TranslatedMatches piOptions table ms translated)
    (hmandatory : checkMandatoryMatches (mandatoryNames translated) table = []) {name : String}
    (hd : table.matchFieldsByName.lookup name = some d) (hexact : d.matchField.matchType = .exact) :
    ∃ r ∈ translated,r.2.name = name := by
  have hfound : ∀ r ∈ translated,r.2.name = r.1.matchField.name ∧ table.matchFieldsByName.lookup r.2.name = some r.1 := by
    intro r hr
    obtain ⟨m,-,hm⟩ := exists_of_forall₂_right h.each hr
    obtain ⟨hid,-,hname,-⟩ := piMatchToIr_eq_ok.mp hm
    exact ⟨hname,hname ▸ (htable.matchFields.lookup_name hid).2⟩
  have hnodup : (mandatoryNames translated).Nodup := by
    have hnames := h.names_nodup htable
    rw [List.map_map] at hnames
    have heq : mandatoryNames translated =
        (translated.filter fun m => m.1.matchField.matchType = .exact).map (IrMatch.name ∘ Prod.snd) :=
      List.map_congr_left fun r hr => (hfound r (List.mem_of_mem_filter hr)).1.symm
    rw [heq]
    exact hnames.sublist (List.filter_sublist.map _)
  have hsubset : mandatoryNames translated ⊆ getMandatoryMatches table := by
    intro n hn
    obtain ⟨r,hr,rfl⟩ := List.mem_map.mp hn
    obtain ⟨hr,htype⟩ := List.mem_filter.mp hr
    obtain ⟨hname,hlookup⟩ := hfound r hr
    unfold getMandatoryMatches
    rw [List.mem_dedup]
    exact List.mem_map.mpr ⟨_,List.mem_filter.mpr ⟨mem_of_lookup_eq_some hlookup,htype⟩,rfl⟩
  have hlength : (mandatoryNames translated).length = (getMandatoryMatches table).length := by
    unfold checkMandatoryMatches at hmandatory
    simp only at hmandatory
    split_ifs at hmandatory with hsame
    rwa [List.dedup_eq_self.mpr hnodup] at hsame
  have hperm := (hnodup.subperm hsubset).perm_of_length_le hlength.ge
  have hexpected : name ∈ getMandatoryMatches table := by
    unfold getMandatoryMatches
    rw [List.mem_dedup]
    have hmem := mem_of_lookup_eq_some hd
    exact List.mem_map.mpr ⟨_,List.mem_filter.mpr ⟨hmem,by simpa using hexact⟩,(htable.matchFields.ofName _ hmem).1⟩
  obtain ⟨r,hr,hname⟩ := List.mem_map.mp (hperm.mem_iff.mpr hexpected)
  have hr := List.mem_of_mem_filter hr
  exact ⟨r,hr,(hfound r hr).1.trans hname⟩

/-- A match in PD: its field is known and supported, and holds what was written. -/
theorem TranslatedMatches.written (htable : table.WellFormed info) (h : TranslatedMatches piOptions table ms translated)
    (hpd : irMatchEntryToPd gen options table (translated.map Prod.snd) = .ok pd) {r : IrMatchFieldDefinition × IrMatch}
    (hr : r ∈ translated) : table.matchFieldsByName.lookup r.2.name = some r.1 ∧
      (∃ value,AcceptedMatch r.1 value r.2.value) ∧ unsupportedReason "Match field" r.1.isUnsupported options = [] ∧
      ∃ w,pdFieldValue r.1.matchField.matchType r.2.value = some w ∧ pd.get r.1.matchField.matchType r.2.name = some w := by
  obtain ⟨m,-,hm⟩ := exists_of_forall₂_right h.each hr
  obtain ⟨hid,-,hname,hvalue⟩ := piMatchToIr_eq_ok.mp hm
  have hlookup : table.matchFieldsByName.lookup r.2.name = some r.1 := hname ▸ (htable.matchFields.lookup_name hid).2
  obtain ⟨values,hvalues,rfl⟩ := irMatchEntryToPd_eq_ok.mp hpd
  obtain ⟨x,hx,hrx⟩ := exists_of_forall₂_left hvalues (List.mem_map.mpr ⟨r,hr,rfl⟩)
  rcases irMatchToPd_eq_ok.mp hrx with ⟨hnone,-⟩ | ⟨d,hd,hsupported,-,w,hw,rfl⟩
  · cases hlookup.symm.trans hnone
  · cases hlookup.symm.trans hd
    have hnodup := (h.names_nodup htable).sublist (written_names hvalues)
    exact ⟨hlookup,⟨m.value,piMatchValueToIr_eq_ok.mp hvalue⟩,hsupported,w,hw,
      get_of_written hnodup (List.reduceOption_mem_iff.mpr hx) hw⟩

theorem TranslatedMatches.mem_readFields_iff (htable : table.WellFormed info) (h : TranslatedMatches piOptions table ms translated)
    (hmandatory : checkMandatoryMatches (mandatoryNames translated) table = [])
    (hpd : irMatchEntryToPd gen options table (translated.map Prod.snd) = .ok pd) {x : String × IrMatchFieldDefinition} :
    x ∈ readFields table pd ↔ x ∈ translated.map fun r => (r.2.name,r.1) := by
  rw [mem_readFields htable,List.mem_map]
  constructor
  · rintro ⟨hfound,hread⟩
    have hname : ∃ r ∈ translated,r.2.name = x.1 := by
      by_cases hexact : x.2.matchField.matchType = .exact
      · exact h.mandatory htable hmandatory hfound hexact
      · by_contra hnone
        obtain ⟨values,hvalues,rfl⟩ := irMatchEntryToPd_eq_ok.mp hpd
        have hunwritten : x.1 ∉ values.reduceOption.map Prod.fst := by
          intro hmem
          obtain ⟨m,hm,hname⟩ := List.mem_map.mp ((written_names hvalues).subset hmem)
          obtain ⟨r,hr,rfl⟩ := List.mem_map.mp hm
          exact hnone ⟨r,hr,hname⟩
        obtain ⟨htext,hmessage⟩ := Prod.mk.inj (observe_foldl_of_notMem writesAt_set hunwritten {})
        simp [isRead,PdMatch.has,htext,hmessage,hexact] at hread
    obtain ⟨r,hr,hname⟩ := hname
    refine ⟨r,hr,Prod.ext hname ?_⟩
    have hlookup := (h.written htable hpd hr).1
    rw [hname,hfound] at hlookup
    exact (Option.some.inj hlookup).symm
  · rintro ⟨r,hr,rfl⟩
    obtain ⟨hlookup,-,-,w,hw,hget⟩ := h.written htable hpd hr
    refine ⟨hlookup,?_⟩
    by_cases hexact : r.1.matchField.matchType = .exact
    · simp [isRead,hexact]
    · rw [PdMatch.get,if_neg hexact] at hget
      obtain ⟨m,hm,-⟩ := Option.map_eq_some_iff.mp hget
      simp [isRead,PdMatch.has,hm]

theorem TranslatedMatches.backFromPd (htable : table.WellFormed info) (h : TranslatedMatches piOptions table ms translated)
    (hmandatory : checkMandatoryMatches (mandatoryNames translated) table = [])
    (hpd : irMatchEntryToPd gen options table (translated.map Prod.snd) = .ok pd) :
    ((∃ back,pdMatchEntryToIr options table pd = .ok back) ↔ ∀ r ∈ translated,r.2.value.NonNegative) ∧
      ∀ back,pdMatchEntryToIr options table pd = .ok back → back.Perm (translated.map Prod.snd) := by
  have hmatch : ∀ r ∈ translated,∀ m,pdMatchToIr options pd (r.2.name,r.1) = .ok m ↔ r.2.value.NonNegative ∧ r.2 = m := by
    intro r hr m
    obtain ⟨-,⟨value,hvalue⟩,hsupported,w,hw,hget⟩ := h.written htable hpd hr
    have hread := fun v => pdMatchValueToIr_written hvalue hw hget (r := v)
    unfold pdMatchToIr
    cases hv : pdMatchValueToIr r.1 pd r.2.name with
    | error reasons =>
      have hnegative : ¬ r.2.value.NonNegative := fun hn => by
        rw [(hread _).mpr ⟨hn,rfl⟩] at hv
        cases hv
      simp [hnegative]
    | ok v =>
      obtain ⟨hn,rfl⟩ := (hread _).mp hv
      simp [hsupported,hn]
  have hperm : (readFields table pd).Perm (translated.map fun r => (r.2.name,r.1)) := by
    refine (List.perm_ext_iff_of_nodup (readFields_nodup htable).of_map ?_).mpr fun x => h.mem_readFields_iff htable hmandatory hpd
    refine List.Nodup.of_map Prod.fst ?_
    have hnames := h.names_nodup htable
    rw [List.map_map] at hnames ⊢
    exact hnames
  have hall : (∃ back,pdMatchEntryToIr options table pd = .ok back) ↔ ∀ r ∈ translated,r.2.value.NonNegative := by
    simp only [pdMatchEntryToIr_eq_ok htable,← mapM_eq_ok,exists_mapM_eq_ok,hperm.mem_iff,List.forall_mem_map]
    refine forall₂_congr fun r hr => ?_
    simp [hmatch r hr]
  refine ⟨hall,fun back hback => ?_⟩
  have hvalid := hall.mp ⟨back,hback⟩
  obtain ⟨l,hl,hback⟩ := List.perm_comp_forall₂ hperm.symm ((pdMatchEntryToIr_eq_ok htable).mp hback)
  have hself : List.Forall₂ (fun x m => pdMatchToIr options pd x = .ok m) (translated.map fun r => (r.2.name,r.1))
      (translated.map Prod.snd) := by
    rw [List.forall₂_map_left_iff,List.forall₂_map_right_iff,List.forall₂_same]
    exact fun r hr => (hmatch r hr _).mpr ⟨hvalid r hr,rfl⟩
  cases (mapM_eq_ok.mpr hl).symm.trans (mapM_eq_ok.mpr hself)
  exact hback.symm

end Matches

section Actions
variable [InetText] {gen : PdGenOptions} {options piOptions : TranslationOptions} {info : IrP4Info} {table : IrTableDefinition}

structure SameInvocation (a b : IrActionInvocation) : Prop where
  name : b.name = a.name
  params : b.params.Perm a.params

structure SameMember (a b : IrActionSetInvocation) : Prop where
  action : SameInvocation a.action b.action
  weight : b.weight = a.weight
  watchPort : b.watchPort = a.watchPort

inductive SameActions : IrTableEntryType → IrTableEntryType → Prop
  | notSet : SameActions .notSet .notSet
  | action {a b : IrActionInvocation} : SameInvocation a b → SameActions (.action a) (.action b)
  | actionSet {as bs : List IrActionSetInvocation} : List.Forall₂ SameMember as bs → SameActions (.actionSet as) (.actionSet bs)

omit [InetText] in
private theorem pdFields_nodup {d : IrActionDefinition} (hwf : d.WellFormed) : d.pdFields.Nodup :=
  (((List.perm_insertionSort _ _).map _).nodup_iff).mpr hwf.params.nodup_names

theorem action_backFromPd (hvisible : InetText.Visible) (hinfo : info.WellFormed)
    {a : Action} {ir : IrActionInvocation} (h : piActionToIr info piOptions validActions a = .ok ir) {pd : PdAction}
    (hpd : irActionInvocationToPd gen info options table ir = .ok pd) : ∃ texts back,pd = some (ir.name,texts) ∧
      pdActionInvocationToIr info options (ir.name,texts) = .ok back ∧ SameInvocation ir back := by
  obtain ⟨d,hid,-,-,hreasons,-,hname,hparams⟩ := piActionToIr_spec h
  obtain ⟨-,hlookup,hwf⟩ := hinfo.action_of_id hid
  rw [← hname] at hlookup
  obtain ⟨d',hd',hsupported,hknown,rfl⟩ := irActionInvocationToPd_spec hpd
  cases hlookup.symm.trans hd'
  obtain ⟨hrel,hids,-⟩ := partitionDistinct_nil [] hreasons
  change List.Forall₂ _ _ (piParamsToIr d a.params).2 at hrel
  rw [← hparams] at hrel
  have hnodup := params_names_nodup hwf hrel hids
  have hwrites : ((ir.params.map fun p => (p.name,irValueString p.value)).map Prod.fst).Nodup := by
    rw [List.map_map]
    exact hnodup
  generalize htexts : (ir.params.map fun p => (p.name,irValueString p.value)).foldl
    (fun texts x => Function.update texts x.1 x.2) (fun _ => "") = texts
  have htext : ∀ p ∈ ir.params,texts p.name = irValueString p.value := fun p hp =>
    htexts ▸ foldl_update_of_mem hwrites (List.mem_map.mpr ⟨p,hp,rfl⟩) _
  have hparam : ∀ p ∈ ir.params,texts p.name ≠ "" ∧ pdParamToIr d texts p.name = .ok p := by
    intro p hp
    obtain ⟨q,-,hq⟩ := exists_of_forall₂_right hrel hp
    obtain ⟨dp,hdp,hpname,hvalue⟩ := piParamToIr_eq_ok.mp hq
    have hfound : d.paramsByName.lookup p.name = some dp := hpname ▸ (hwf.params.lookup_name hdp).2
    rw [pdParamToIr,findPtrOrStatus_eq_ok.mpr hfound,htext p hp]
    exact ⟨irValueString_ne_empty hvisible hvalue,by simp [formatted_irValueString hvalue]⟩
  have hread : (d.pdFields.filter fun name => texts name ≠ "").Perm (ir.params.map IrActionParam.name) := by
    refine (List.perm_ext_iff_of_nodup ((pdFields_nodup hwf).filter _) hnodup).mpr fun name => ?_
    rw [List.mem_filter,List.mem_map]
    constructor
    · rintro ⟨-,hset⟩
      by_contra hnone
      refine of_decide_eq_true hset (htexts ▸ observe_foldl_of_notMem writesAt_update ?_ _)
      rw [List.map_map]
      exact fun hmem => hnone (List.mem_map.mp hmem)
    · rintro ⟨p,hp,rfl⟩
      exact ⟨hknown p hp,decide_eq_true (hparam p hp).1⟩
  have hself : List.Forall₂ (fun name p => pdParamToIr d texts name = .ok p) (ir.params.map IrActionParam.name) ir.params := by
    rw [List.forall₂_map_left_iff,List.forall₂_same]
    exact fun p hp => (hparam p hp).2
  obtain ⟨back,hback,hperm⟩ := List.perm_comp_forall₂ hread hself
  refine ⟨texts,⟨ir.name,back⟩,rfl,?_,rfl,hperm⟩
  unfold pdActionInvocationToIr
  simp only [hlookup,partitionResults_eq hback,hsupported,unlessInvalid_eq_ok,List.append_nil,and_self]

private theorem member_backFromPd (hvisible : InetText.Visible) (hinfo : info.WellFormed)
    {a : ActionProfileAction} {ir : IrActionSetInvocation} (h : piActionProfileActionToIr info piOptions validActions a = .ok ir)
    {pd : PdWcmpAction} (hpd : irActionSetInvocationToPd gen info options table ir = .ok pd) :
    ∃ back,pdActionSetToIr info options pd = .ok back ∧ SameMember ir back := by
  obtain ⟨action,haction,rfl⟩ := irActionSetInvocationToPd_eq_ok.mp hpd
  obtain ⟨texts,back,rfl,hback,hsame⟩ := action_backFromPd hvisible hinfo (piActionProfileActionToIr_spec h).1 haction
  exact ⟨⟨back,ir.weight,ir.watchPort⟩,by simp [pdActionSetToIr,hback],hsame,rfl,rfl⟩

/-- The members of an action set come back, each at its place. -/
theorem members_backFromPd (hvisible : InetText.Visible) (hinfo : info.WellFormed)
    {actions : List ActionProfileAction} {irs : List IrActionSetInvocation}
    (h : List.Forall₂ (fun a ir => piActionProfileActionToIr info piOptions validActions a = .ok ir) actions irs)
    {pds : List PdWcmpAction} (hpd : List.Forall₂ (fun a pd => irActionSetInvocationToPd gen info options table a = .ok pd) irs pds) :
    ∃ backs,partitionResults (pdActionSetToIr info options) pds = ([],backs) ∧ List.Forall₂ SameMember irs backs := by
  induction h generalizing pds with
  | nil =>
    cases hpd
    exact ⟨[],rfl,.nil⟩
  | @cons a ir actions irs ha _ ih =>
    obtain ⟨pd,pds,hir,hirs,rfl⟩ := List.forall₂_cons_left_iff.mp hpd
    obtain ⟨back,hback,hsame⟩ := member_backFromPd hvisible hinfo ha hir
    obtain ⟨backs,hbacks,hsames⟩ := ih hirs
    exact ⟨back :: backs,by simp [partitionResults,hback,hbacks],.cons hsame hsames⟩

/-- The actions come back, except that a one-shot table has an action set in any case. -/
theorem tableAction_backFromPd (hvisible : InetText.Visible) (hinfo : info.WellFormed) {type : IrTableEntryType}
    (h : type = .notSet ∨ ∃ action,TranslatedPiAction info piOptions table action type)
    (hreasons : (irTableActionToPd gen info options table type).1 = []) {pd : PdTable}
    (haction : pd.action = (irTableActionToPd gen info options table type).2.1)
    (hwcmp : pd.wcmpActions = (irTableActionToPd gen info options table type).2.2) :
    (pdTableActionToIr info options table pd).1 = [] ∧
      (SameActions type (pdTableActionToIr info options table pd).2 ↔ ¬ (table.usesOneshot = true ∧ type = .notSet)) := by
  have hnotSet : type = .notSet → (pdTableActionToIr info options table pd).1 = [] ∧
      (SameActions type (pdTableActionToIr info options table pd).2 ↔ ¬ (table.usesOneshot = true ∧ type = .notSet)) := by
    rintro rfl
    unfold irTableActionToPd at haction hwcmp
    unfold pdTableActionToIr
    cases honeshot : table.usesOneshot with
    | true =>
      have hempty : pd.wcmpActions = [] := by simpa [honeshot,IrTableEntryType.setActions,irActionSetToPd,partitionResults,
        unlessInvalid] using hwcmp
      simp only [hempty,if_true,partitionResults,true_and,and_self,not_true_eq_false,iff_false]
      exact fun h => by cases h
    | false =>
      have hempty : pd.action = none := by simpa [honeshot] using haction
      simp only [hempty,Bool.false_eq_true,if_false,true_and,false_and,not_false_eq_true,iff_true]
      exact .notSet
  rcases h with hnone | ⟨action,htranslated⟩
  · exact hnotSet hnone
  · cases htranslated with
    | notSet hactions => exact hnotSet rfl
    | @action a ir _ honeshot ha =>
      unfold irTableActionToPd at hreasons haction
      simp only [honeshot,Bool.false_eq_true,if_false] at hreasons haction
      cases hpd : irActionInvocationToPd gen info options table ir with
      | error status => simp [hpd] at hreasons
      | ok pdAction =>
        obtain ⟨texts,back,rfl,hback,hsame⟩ := action_backFromPd hvisible hinfo ha hpd
        rw [hpd] at haction
        unfold pdTableActionToIr
        simp only [honeshot,haction,hback,Bool.false_eq_true,if_false,true_and,false_and,not_false_eq_true,iff_true]
        exact .action hsame
    | @actionSet actions irs _ honeshot hactions =>
      unfold irTableActionToPd at hreasons hwcmp
      simp only [honeshot,if_true,IrTableEntryType.setActions] at hreasons hwcmp
      cases hpd : irActionSetToPd gen info options table irs with
      | error status => simp [hpd] at hreasons
      | ok pds =>
        obtain ⟨backs,hbacks,hsame⟩ := members_backFromPd hvisible hinfo hactions (irActionSetToPd_eq_ok.mp hpd)
        rw [hpd] at hwcmp
        unfold pdTableActionToIr
        simp only [honeshot,hwcmp,hbacks,if_true,true_and,reduceCtorEq,and_false,not_false_eq_true,iff_true]
        exact .actionSet hsame

end Actions

section Meters
variable {table : IrTableDefinition} {ir : IrTableEntry} {pd : PdTable}

def declaredCounts (table : IrTableDefinition) (c : CounterData) : CounterData := (countsIn table.counterUnit c).getD {}

def declaredColors (table : IrTableDefinition) (data : MeterCounterData) : MeterCounterData :=
  ⟨data.green.map (declaredCounts table),data.yellow.map (declaredCounts table),data.red.map (declaredCounts table)⟩

structure MetersAccepted (table : IrTableDefinition) (ir : IrTableEntry) : Prop where
  meterConfig : ir.meterConfig.isSome = true → table.hasMeter = true
  meterCounterData : ir.meterCounterData.isSome = true → ir.meterConfig.isSome = true
  counterData : ir.counterData.isSome = true → table.hasCounter = true

theorem countsIn_idem {unit : CounterUnit} {c r : CounterData} (h : countsIn unit c = some r) : countsIn unit r = some r := by
  cases unit <;> cases h <;> rfl

theorem irColorCountsToPd_spec {counts r : Option CounterData} (h : irColorCountsToPd table counts = .ok r) :
    r = counts.map (declaredCounts table) ∧ pdColorCountsToIr table r = .ok r := by
  cases counts with
  | none =>
    cases h
    exact ⟨rfl,rfl⟩
  | some c =>
    cases hc : countsIn table.counterUnit c with
    | none => simp [irColorCountsToPd,hc] at h
    | some pd =>
      simp only [irColorCountsToPd,hc,Except.ok.injEq] at h
      subst h
      exact ⟨by simp [declaredCounts,hc],by simp [pdColorCountsToIr,countsIn_idem hc]⟩

private theorem irMeterCountersToPd_spec {data r : MeterCounterData} (h : irMeterCountersToPd table data = .ok r)
    (hmeter : table.hasMeter = true) :
    r = declaredColors table data ∧ pdMeterCountersToIr table (some r) = ([],some r) := by
  unfold irMeterCountersToPd at h
  split_ifs at h with hcounter
  simp only [bind_eq_ok] at h
  obtain ⟨green,hgreen,yellow,hyellow,red,hred,heq⟩ := h
  cases heq
  obtain ⟨hg,hgreen⟩ := irColorCountsToPd_spec hgreen
  obtain ⟨hy,hyellow⟩ := irColorCountsToPd_spec hyellow
  obtain ⟨hr,hred⟩ := irColorCountsToPd_spec hred
  refine ⟨by rw [declaredColors,hg,hy,hr],?_⟩
  have hcounter : table.hasCounter = true := by simpa using hcounter
  simp [pdMeterCountersToIr,hmeter,hcounter,hgreen,hyellow,hred,bind,Except.bind]

theorem meterConfig_backFromPd {c : MeterConfig} (hmeter : table.hasMeter = true)
    (hreasons : (irMeterConfigToPd table.meterUnit c).1 = []) :
    pdMeterConfigToIr table (some (irMeterConfigToPd table.meterUnit c).2) = ([],some c) := by
  unfold irMeterConfigToPd at hreasons
  simp only [List.append_eq_nil_iff,ite_eq_right_iff,List.cons_ne_nil,imp_false,not_not] at hreasons
  obtain ⟨⟨hrate,hburst⟩,hunit⟩ := hreasons
  obtain ⟨cir,cburst,pir,pburst⟩ := c
  cases hrate
  cases hburst
  unfold pdMeterConfigToIr
  cases hu : table.meterUnit with
  | bytes => simp [hmeter,irMeterConfigToPd]
  | packets => simp [hmeter,irMeterConfigToPd]
  | unspecified => simp [hu] at hunit
  | unknown n => simp [hu] at hunit

private theorem meters_backFromPd (haccepted : MetersAccepted table ir) (hreasons : (irMetersToPd table ir).1 = []) :
    pdMeterConfigToIr table (irMetersToPd table ir).2.1 = ([],ir.meterConfig) ∧
      pdMeterCountersToIr table (irMetersToPd table ir).2.2 = ([],ir.meterCounterData.map (declaredColors table)) := by
  unfold irMetersToPd at hreasons ⊢
  cases hconfig : ir.meterConfig with
  | none =>
    have hdata : ir.meterCounterData = none := by
      rw [← Option.not_isSome_iff_eq_none]
      intro hsome
      have hconfigured := haccepted.meterCounterData hsome
      simp [hconfig] at hconfigured
    simp [hdata,pdMeterConfigToIr,pdMeterCountersToIr]
  | some c =>
    have hmeter := haccepted.meterConfig (by simp [hconfig])
    simp only [hconfig,hmeter,Bool.not_true,Bool.false_eq_true,if_false] at hreasons ⊢
    cases hdata : ir.meterCounterData with
    | none =>
      simp only [hdata] at hreasons
      exact ⟨meterConfig_backFromPd hmeter hreasons,by simp [pdMeterCountersToIr]⟩
    | some data =>
      cases hcounters : irMeterCountersToPd table data with
      | error status => simp [hdata,hcounters] at hreasons
      | ok counters =>
        simp only [hdata,hcounters] at hreasons ⊢
        obtain ⟨heq,hback⟩ := irMeterCountersToPd_spec hcounters hmeter
        exact ⟨meterConfig_backFromPd hmeter hreasons,by rw [hback,heq,Option.map_some]⟩

theorem counters_backFromPd (haccepted : MetersAccepted table ir) (hreasons : (irCountersToPd table ir).1 = []) :
    (pdCountersToIr table (irCountersToPd table ir).2).1 = [] ∧
      (pdCountersToIr table (irCountersToPd table ir).2).2.getD {} = (ir.counterData.map (declaredCounts table)).getD {} := by
  unfold irCountersToPd at hreasons ⊢
  cases hdata : ir.counterData with
  | none => simp [pdCountersToIr]
  | some c =>
    have hcounter := haccepted.counterData (by simp [hdata])
    simp only [hdata,hcounter,Bool.not_true,Bool.false_eq_true,if_false] at hreasons ⊢
    cases hc : countsIn table.counterUnit c with
    | none => simp [hc] at hreasons
    | some counts =>
      simp only [pdCountersToIr,hcounter,countsIn_idem hc,declaredCounts,hc,Option.map_some,Option.getD_some,Bool.not_true,
        Bool.false_eq_true,if_false]
      split_ifs with hzero
      · exact ⟨trivial,hzero.symm⟩
      · exact ⟨trivial,rfl⟩

end Meters

section TableEntries
variable [InetText] {gen : PdGenOptions} {options piOptions : TranslationOptions} {info : IrP4Info}

/-- The same entry, up to the order of matches and parameters, the counts that the counter of the table does not
declare, and whether zero counts are set. -/
structure SameEntry (table : IrTableDefinition) (ir back : IrTableEntry) : Prop where
  tableName : back.tableName = ir.tableName
  matches_ : back.matches_.Perm ir.matches_
  priority : back.priority = ir.priority
  type : SameActions ir.type back.type
  controllerMetadata : back.controllerMetadata = ir.controllerMetadata
  meterConfig : back.meterConfig = ir.meterConfig
  counterData : back.counterData.getD {} = (ir.counterData.map (declaredCounts table)).getD {}
  meterCounterData : back.meterCounterData = ir.meterCounterData.map (declaredColors table)

/-- The PD message of an entry is read as the same entry. -/
def PdRoundTrips (gen : PdGenOptions) (info : IrP4Info) (options : TranslationOptions) (ir : IrTableEntry) (pd : PdTableEntry) : Prop :=
  ∃ table back,info.tablesByName.lookup ir.tableName = some table ∧
    pdTableEntryToIrEntity gen info pd (full options) = .ok (.tableEntry back) ∧ SameEntry table ir back

/-- The table is not named like the built-in one, no prefix length is negative, and an entry of a one-shot table has its
action set. -/
structure ReadableFromPd (info : IrP4Info) (ir : IrTableEntry) : Prop where
  tableName : ir.tableName ≠ "multicast_group_table"
  prefixes : ∀ m ∈ ir.matches_,m.value.NonNegative
  actionSet : ∀ table,info.tablesByName.lookup ir.tableName = some table →
    ¬ (table.usesOneshot = true ∧ ir.type = .notSet)

/-- An entry in PD form: what its full translation has found, and what it has written. -/
structure WrittenEntry (gen : PdGenOptions) (info : IrP4Info) (options : TranslationOptions) (ir : IrTableEntry)
    (table : IrTableDefinition) (pd : PdTable) : Prop where
  found : info.tablesByName.lookup ir.tableName = some table
  supported : unsupportedReason ("Table '" ++ ir.tableName ++ "'") table.isUnsupported options = []
  matches_ : irMatchEntryToPd gen options table ir.matches_ = .ok (pd.match_.getD {})
  priority : pd.priority = ir.priority
  priorityField : ir.priority ≠ 0 → "priority" ∈ table.pdFields
  actionReasons : (irTableActionToPd gen info options table ir.type).1 = []
  action : pd.action = (irTableActionToPd gen info options table ir.type).2.1
  wcmpActions : pd.wcmpActions = (irTableActionToPd gen info options table ir.type).2.2
  meterReasons : (irMetersToPd table ir).1 = []
  meterConfig : pd.meterConfig = (irMetersToPd table ir).2.1
  meterCounterData : pd.meterCounterData = (irMetersToPd table ir).2.2
  counterReasons : (irCountersToPd table ir).1 = []
  counterData : pd.counterData = (irCountersToPd table ir).2
  controllerMetadata : pd.controllerMetadata = ir.controllerMetadata

omit [InetText] in
private theorem irTableEntryToPd_full {ir : IrTableEntry} {pd : PdTableEntry}
    (h : irTableEntryToPd gen info ir (full options) = .ok pd) : ∃ table pdTable,
      pd = .table (tableFieldName ir.tableName) pdTable ∧ WrittenEntry gen info (full options) ir table pdTable := by
  unfold irTableEntryToPd at h
  split at h
  · cases h
  · rename_i table htable
    split at h
    · cases h
    · simp only at h
      rw [if_neg (show ¬ (full options).keyOnly = true by simp [full])] at h
      obtain ⟨hreasons,rfl⟩ := unlessInvalid_eq_ok.mp h
      simp only [List.append_eq_nil_iff] at hreasons
      obtain ⟨⟨⟨hkey,hactions⟩,hmeters⟩,hcounters⟩ := hreasons
      obtain ⟨pdMatch,hmatch,hpdKey⟩ := irTableKeyToPd_spec hkey
      simp only [irTableKeyToPd,List.append_eq_nil_iff] at hkey
      refine ⟨table,_,rfl,⟨htable,hkey.1.1,?_,?_,?_,hactions,rfl,rfl,hmeters,rfl,rfl,hcounters,rfl,rfl⟩⟩
      · simp only [hpdKey]
        exact hmatch
      · simp only [hpdKey]
      · intro hpriority
        have hpriorityReasons := hkey.2
        rw [if_neg hpriority] at hpriorityReasons
        by_contra hmissing
        simp [getFieldDescriptor,hmissing] at hpriorityReasons

theorem TranslatedPiEntry.metersAccepted {pi : TableEntry} {ir : IrTableEntry} {table : IrTableDefinition}
    (h : TranslatedPiEntry info piOptions pi ir table) : MetersAccepted table ir := by
  cases hkeyOnly : piOptions.keyOnly with
  | true =>
    constructor
    · simp [h.meterConfig,hkeyOnly]
    · simp [h.meterCounterData,hkeyOnly]
    · simp [h.counterData,hkeyOnly]
  | false =>
    have hmeter := h.meterReasons hkeyOnly
    have hcolors := h.meterCounterReasons hkeyOnly
    have hcounter := h.counterReasons hkeyOnly
    rw [Pdpi.meterReasons] at hmeter
    rw [Pdpi.meterCounterReasons] at hcolors
    rw [Pdpi.counterReasons] at hcounter
    constructor
    · simp only [h.meterConfig,hkeyOnly,Bool.false_eq_true,if_false]
      intro hsome
      by_contra hno
      simp [hsome,hno] at hmeter
    · simp only [h.meterConfig,h.meterCounterData,hkeyOnly,Bool.false_eq_true,if_false]
      intro hsome
      by_contra hno
      rw [Bool.not_eq_true] at hno
      simp [hsome,hno] at hcolors
    · simp only [h.counterData,hkeyOnly,Bool.false_eq_true,if_false]
      intro hsome
      by_contra hno
      simp [hsome,hno] at hcounter

theorem TranslatedPiEntry.translatedType {pi : TableEntry} {ir : IrTableEntry} {table : IrTableDefinition}
    (h : TranslatedPiEntry info piOptions pi ir table) :
    ir.type = .notSet ∨ ∃ action,TranslatedPiAction info piOptions table action ir.type := by
  cases hkeyOnly : piOptions.keyOnly with
  | true => exact .inl (by rw [h.type,hkeyOnly]; rfl)
  | false =>
    refine .inr ⟨pi.action,?_⟩
    rw [h.type,hkeyOnly]
    exact piTableActionToIr_spec (h.actionReasons hkeyOnly)

omit [InetText] in
theorem WrittenEntry.toIr_eq_ok {ir : IrTableEntry} {table : IrTableDefinition} {pd : PdTable}
    (h : WrittenEntry gen info (full options) ir table pd) (haccepted : MetersAccepted table ir)
    (hactions : (pdTableActionToIr info (full options) table pd).1 = []) {e : IrTableEntry} :
    pdTableEntryToIrTableEntry info (tableFieldName ir.tableName) pd (full options) = .ok e ↔
      ∃ ms,pdMatchEntryToIr (full options) table (pd.match_.getD {}) = .ok ms ∧
        { ir with
          matches_ := ms,type := (pdTableActionToIr info (full options) table pd).2,
          counterData := (pdCountersToIr table pd.counterData).2,
          meterCounterData := ir.meterCounterData.map (declaredColors table) } = e := by
  obtain ⟨hconfig,hcolors⟩ := meters_backFromPd haccepted h.meterReasons
  have hcounters := (counters_backFromPd haccepted h.counterReasons).1
  rw [← h.meterConfig] at hconfig
  rw [← h.meterCounterData] at hcolors
  rw [← h.counterData] at hcounters
  have hpriority : (if "priority" ∈ table.pdFields then pd.priority else 0) = ir.priority := by
    rw [h.priority]
    split_ifs with hfield
    · rfl
    · by_contra hne
      exact hfield (h.priorityField (Ne.symm hne))
  unfold pdTableEntryToIrTableEntry
  simp only [protobufFieldNameToP4Name_eq_ok.mpr rfl,h.found]
  rw [if_neg (show ¬ (full options).keyOnly = true by simp [full]),unlessInvalid_eq_ok]
  unfold pdTableKeyToIr
  cases hms : pdMatchEntryToIr (full options) table (pd.match_.getD {}) with
  | error status => simp
  | ok ms => simp [h.supported,hactions,hconfig,hcolors,hcounters,hpriority,h.controllerMetadata]

/-- An accepted entry comes back from its PD message exactly when it is readable. -/
theorem pd_round_trip_iff (hvisible : InetText.Visible) (hinfo : info.WellFormed) {pi : TableEntry} {ir : IrTableEntry}
    (h : piTableEntryToIr info pi piOptions = .ok ir) {pd : PdTableEntry}
    (hpd : irTableEntryToPd gen info ir (full options) = .ok pd) : PdRoundTrips gen info options ir pd ↔ ReadableFromPd info ir := by
  obtain ⟨table,htranslated⟩ := piTableEntryToIr_spec h
  obtain ⟨-,hlookup,htable⟩ := hinfo.table_of_id htranslated.found
  rw [← htranslated.tableName] at hlookup
  obtain ⟨table',pdTable,rfl,hwritten⟩ := irTableEntryToPd_full hpd
  cases hlookup.symm.trans hwritten.found
  have hmatches : TranslatedMatches piOptions table pi.matches_ (piMatchesToIr piOptions table pi.matches_).2 :=
    piMatchesToIr_eq.mp (Prod.ext htranslated.matchReasons rfl)
  have hmatch := hwritten.matches_
  rw [htranslated.matches_] at hmatch
  obtain ⟨hread,hperm⟩ := hmatches.backFromPd htable htranslated.mandatory hmatch
  obtain ⟨hactionReasons,hsameActions⟩ := tableAction_backFromPd hvisible hinfo htranslated.translatedType hwritten.actionReasons
    hwritten.action hwritten.wcmpActions
  have hcounts := (counters_backFromPd htranslated.metersAccepted hwritten.counterReasons).2
  rw [← hwritten.counterData] at hcounts
  have hback := fun e => hwritten.toIr_eq_ok htranslated.metersAccepted hactionReasons (e := e)
  constructor
  · rintro ⟨table',back,hfound,hto,hsame⟩
    cases hlookup.symm.trans hfound
    obtain ⟨hname,he⟩ := pdTableEntryToIrEntity_table.mp hto
    obtain ⟨ms,hms,rfl⟩ := (hback _).mp he
    refine ⟨hname,fun m hm => ?_,fun t ht => ?_⟩
    · rw [htranslated.matches_] at hm
      obtain ⟨r,hr,rfl⟩ := List.mem_map.mp hm
      exact hread.mp ⟨ms,hms⟩ r hr
    · cases hlookup.symm.trans ht
      exact hsameActions.mp hsame.type
  · rintro ⟨hname,hprefixes,hset⟩
    obtain ⟨ms,hms⟩ := hread.mpr fun r hr => hprefixes _ (htranslated.matches_ ▸ List.mem_map.mpr ⟨r,hr,rfl⟩)
    have hto := (hback _).mpr ⟨ms,hms,rfl⟩
    refine ⟨table,_,hlookup,pdTableEntryToIrEntity_table.mpr ⟨hname,hto⟩,?_⟩
    exact ⟨rfl,htranslated.matches_ ▸ hperm ms hms,rfl,hsameActions.mpr (hset table hlookup),rfl,rfl,hcounts,rfl⟩

end TableEntries

attribute [local instance] uncompressedInet

private theorem uncompressedInet_visible : InetText.Visible := by
  intro a hempty
  have hinverse := uncompressedInet_inverse a
  rw [hempty] at hinverse
  have hnone : InetText.pton "" = none := by decide
  rw [hnone] at hinverse
  cases hinverse

theorem lpm_comes_back_from_pd : ∃ ir pd,irTableEntryToPd {} (lpmInfo .hexString 12) ir (full {}) = .ok pd ∧
    PdRoundTrips {} (lpmInfo .hexString 12) {} ir pd := by
  have hpi : piTableEntryToIr (lpmInfo .hexString 12) (lpmEntry [10,0] 8) {} = .ok (lpmIr (.hexStr "0xa00") 8) := by
    decide
  obtain ⟨pd,hpd⟩ := exists_ok_of_isOk (show (irTableEntryToPd {} (lpmInfo .hexString 12) (lpmIr (.hexStr "0xa00") 8)
    (full {})).isOk = true by decide)
  refine ⟨_,pd,hpd,(pd_round_trip_iff uncompressedInet_visible (by decide) hpi hpd).mpr ⟨by decide,?_,?_⟩⟩
  · intro m hm
    obtain rfl := List.mem_singleton.mp hm
    exact Int.le_of_lt (by decide)
  · intro table htable
    have hmem := mem_of_lookup_eq_some htable
    simp only [lpmInfo,List.mem_singleton] at hmem
    obtain ⟨-,rfl⟩ := Prod.mk.inj hmem
    simp

/-- A negative prefix length is accepted in PI and in IR, and written to the PD message, which is then refused. -/
theorem negative_prefix_is_refused : ∃ ir pd,piTableEntryToIr (lpmInfo .hexString 8) (lpmEntry [0] (-1)) {} = .ok ir ∧
    irTableEntryToPd {} (lpmInfo .hexString 8) ir (full {}) = .ok pd ∧ ¬ PdRoundTrips {} (lpmInfo .hexString 8) {} ir pd := by
  obtain ⟨pd,hpd⟩ := exists_ok_of_isOk (show (irTableEntryToPd {} (lpmInfo .hexString 8) (lpmIr (.hexStr "0x00") (-1))
    (full {})).isOk = true by decide)
  refine ⟨_,pd,by decide,hpd,?_⟩
  rintro ⟨_,back,-,hback,-⟩
  have hrefused : (irTableEntryToPd {} (lpmInfo .hexString 8) (lpmIr (.hexStr "0x00") (-1)) (full {}) >>= fun pd =>
    pdTableEntryToIrEntity {} (lpmInfo .hexString 8) pd (full {})).isOk = false := by decide
  rw [hpd] at hrefused
  change (pdTableEntryToIrEntity {} (lpmInfo .hexString 8) pd (full {})).isOk = false at hrefused
  rw [hback] at hrefused
  cases hrefused

end SonicPins.Pdpi
