import SonicPins.P4Fuzzer.StateComparison
import SonicPins.Pdpi.CanonicalEntries

/-! When the comparison of a switch with the fuzzer's state is right. -/
namespace SonicPins.P4Fuzzer
open Lib Pdpi P4rtApp

variable {f e c : TableEntry} {validActions : List IrActionDefinition}

section Invariant
variable [InetText] {s s' : SwitchState} {status : Status}

/-- The stored entries came back from IR. -/
def SwitchState.Canonical (s : SwitchState) : Prop :=
  ∀ id k f,(s.tables id).unordered.lookup k = some f → ∃ e,canonicalizeTableEntry s.irP4Info.toIrP4Info e false = .ok f

theorem SwitchState.Canonical.of_sameEntries (h : s.Canonical) (hsame : s.SameEntries s') : s'.Canonical := by
  intro id k f hf
  rw [hsame.irP4Info]
  rw [(hsame.tables id).2] at hf
  exact h id k f hf

private theorem applyTableUpdate_canonical (hs : s.Canonical) {type : UpdateType} {entry : TableEntry}
    (h : s.applyTableUpdate type entry = some (s',status)) : s'.Canonical ∧ s'.irP4Info = s.irP4Info := by
  unfold SwitchState.applyTableUpdate at h
  split at h
  · cases h
  · split at h
    · cases h
      exact ⟨hs,rfl⟩
    · rename_i c hc
      rcases Outcome.andThen_cases h with h | ⟨mid,first,hmid,h⟩
      · have hsame := updateResourceStatistics_sameEntries h
        exact ⟨hs.of_sameEntries hsame,hsame.irP4Info⟩
      · have hsame := updateResourceStatistics_sameEntries hmid
        obtain ⟨⟨t,status'⟩,hstore,h⟩ := Option.map_eq_some_iff.mp h
        cases h
        refine ⟨fun id k f hf => ?_,hsame.irP4Info⟩
        simp only at hf ⊢
        by_cases hid : id = entry.tableId
        · subst hid
          rw [Function.update_self] at hf
          rcases EntryTable.store_entries hstore hf with ⟨htype,rfl⟩ | hf
          · rw [decide_eq_false htype] at hc
            rw [hsame.irP4Info]
            exact ⟨entry,hc⟩
          · exact hs.of_sameEntries hsame _ _ _ hf
        · rw [Function.update_of_ne hid] at hf
          exact hs.of_sameEntries hsame _ _ _ hf

private theorem applyMulticastUpdate_canonical (hs : s.Canonical) {u : Update} (h : s.applyMulticastUpdate u = some (s',status)) :
    s'.Canonical ∧ s'.irP4Info = s.irP4Info := by
  unfold SwitchState.applyMulticastUpdate at h
  split at h
  · cases h
    exact ⟨hs,rfl⟩
  · rename_i canonical _
    have hsame := updateMulticastResourceStatistics_sameEntries s (multicastGroupEntry canonical) u.type
    rcases Outcome.andThen_cases h with h | ⟨mid,first,hmid,h⟩
    · rw [Option.some.inj h] at hsame
      exact ⟨hs.of_sameEntries hsame,hsame.irP4Info⟩
    · rw [Option.some.inj hmid] at hsame
      obtain ⟨⟨t,status'⟩,hstore,h⟩ := Option.map_eq_some_iff.mp h
      cases h
      exact ⟨fun id k f hf => hs.of_sameEntries hsame id k f hf,hsame.irP4Info⟩

theorem applyUpdate_canonical (hs : s.Canonical) {u : Update} (h : s.applyUpdate u = some (s',status)) :
    s'.Canonical ∧ s'.irP4Info = s.irP4Info := by
  unfold SwitchState.applyUpdate at h
  split at h
  · exact applyMulticastUpdate_canonical hs h
  · exact applyTableUpdate_canonical hs h

private theorem insertAll_canonical (hs : s.Canonical) {entities : List Entity} (h : s.insertAll entities = some (s',status)) :
    s'.Canonical ∧ s'.irP4Info = s.irP4Info := by
  induction entities generalizing s with
  | nil =>
    cases h
    exact ⟨hs,rfl⟩
  | cons entity entities ih =>
    rcases Outcome.andThen_cases h with h | ⟨mid,first,hmid,h⟩
    · exact applyUpdate_canonical hs h
    · obtain ⟨hmid,hinfo⟩ := applyUpdate_canonical hs hmid
      obtain ⟨hs',hinfo'⟩ := ih hmid h
      exact ⟨hs',hinfo'.trans hinfo⟩

theorem clearTableEntries_canonical (s : SwitchState) : s.clearTableEntries.Canonical := by
  intro id k f hf
  cases hf

theorem Reached.canonical {info : AcceptedP4Info} (h : Reached info s) : s.Canonical ∧ s.irP4Info = info := by
  induction h with
  | fresh => exact ⟨fun _ _ _ hf => (by cases hf),rfl⟩
  | @call s s' c status _ hcall ih =>
    cases c with
    | applyUpdate u =>
      obtain ⟨hs',hinfo⟩ := applyUpdate_canonical ih.1 hcall
      exact ⟨hs',hinfo.trans ih.2⟩
    | setEntities entities =>
      obtain ⟨hs',hinfo⟩ := insertAll_canonical (clearTableEntries_canonical s) hcall
      exact ⟨hs',hinfo.trans ih.2⟩
    | clearTableEntries =>
      cases hcall
      exact ⟨clearTableEntries_canonical s,ih.2⟩

end Invariant

section Entries
variable {s : SwitchState}

def SwitchState.storedEntries (s : SwitchState) : List TableEntry := s.entriesOf fun id => (s.tables id).unordered

theorem mem_entriesOf {copy : UInt32 → AList fun _ : TableEntryKey => TableEntry} :
    f ∈ s.entriesOf copy ↔ ∃ table ∈ s.irP4Info.tablesById,∃ k,(copy table.1).lookup k = some f := by
  simp only [SwitchState.entriesOf,List.mem_flatMap,List.mem_map]
  refine exists_congr fun table => and_congr_right fun _ => ⟨?_,?_⟩
  · rintro ⟨⟨k,f'⟩,hmem,rfl⟩
    exact ⟨k,AList.mem_lookup_iff.mpr hmem⟩
  · rintro ⟨k,hk⟩
    exact ⟨⟨k,f⟩,AList.mem_lookup_iff.mp hk,rfl⟩

private theorem storedEntries_keys_nodup (hs : s.InSync) : (s.storedEntries.map TableEntry.key).Nodup := by
  rw [SwitchState.storedEntries,SwitchState.entriesOf,List.map_flatMap,List.nodup_flatMap]
  have hkey : ∀ id,∀ x ∈ (s.tables id).unordered.entries,x.2.key = x.1 ∧ x.1.tableId = id := by
    rintro id ⟨k,f⟩ hmem
    have hlookup : (s.tables id).unordered.lookup k = some f := AList.mem_lookup_iff.mpr hmem
    have hk := (hs.tables id).keyed k f hlookup
    exact ⟨hk.symm,hk ▸ hs.owned id k f hlookup⟩
  constructor
  · intro table _
    have hfst : (s.tables table.1).unordered.entries.map (TableEntry.key ∘ Sigma.snd) =
        (s.tables table.1).unordered.entries.map Sigma.fst := List.map_congr_left fun x hx => (hkey table.1 x hx).1
    rw [List.map_map,hfst]
    exact (s.tables table.1).unordered.nodupKeys
  · have hids := s.irP4Info.wellFormed.tables.idNodup
    rw [List.Nodup,List.pairwise_map] at hids
    refine hids.imp fun {t t'} hne => ?_
    intro k hk hk'
    obtain ⟨f,hf,rfl⟩ := List.mem_map.mp hk
    obtain ⟨x,hx,rfl⟩ := List.mem_map.mp hf
    obtain ⟨f',hf',heq⟩ := List.mem_map.mp hk'
    obtain ⟨x',hx',rfl⟩ := List.mem_map.mp hf'
    have hx := hkey t.1 x hx
    have hx' := hkey t'.1 x' hx'
    exact hne (by rw [← hx.2,← hx'.2,← hx.1,← hx'.1,heq])

end Entries

section Lookups
variable [InetText] {s : SwitchState}

theorem canonicalizeTableEntry_eq_ok {info : IrP4Info} {keyOnly : Bool} :
    canonicalizeTableEntry info e keyOnly = .ok c ↔ ∃ ir,piTableEntryToIr info e { keyOnly := keyOnly } = .ok ir ∧
      irTableEntryToPi info ir { keyOnly := keyOnly } = .ok c := by
  simp only [canonicalizeTableEntry,bind_eq_ok,mapError_eq_ok]

theorem canonicalized_found {info : IrP4Info} {keyOnly : Bool}
    (hc : canonicalizeTableEntry info e keyOnly = .ok c) : ∃ table,info.tablesById.lookup e.tableId = some table := by
  obtain ⟨ir,hir,-⟩ := canonicalizeTableEntry_eq_ok.mp hc
  obtain ⟨table,hto⟩ := piTableEntryToIr_spec hir
  exact ⟨table,hto.found⟩

theorem canonicalized_eq (hinet : InetText.Inverse) {info : AcceptedP4Info} (hwidth : info.toIrP4Info.BitwidthsFit)
    (hc : canonicalizeTableEntry info.toIrP4Info e false = .ok c) : c = canonicalEntry info.toIrP4Info e := by
  obtain ⟨ir,hir,hback⟩ := canonicalizeTableEntry_eq_ok.mp hc
  exact backAndForth_eq hinet info.wellFormed hwidth rfl hir hback

private theorem getTableEntry_canonical (hinet : InetText.Inverse) (hwidth : s.irP4Info.toIrP4Info.BitwidthsFit)
    (hc : canonicalizeTableEntry s.irP4Info.toIrP4Info e false = .ok c) :
    s.getTableEntry c = .ok ((s.tables c.tableId).unordered.lookup c.key) := by
  have heq := canonicalized_eq hinet hwidth hc
  obtain ⟨table,htable⟩ := canonicalized_found hc
  have hfound : s.irP4Info.tablesById.lookup c.tableId = some table := by rwa [heq,canonicalEntry_tableId]
  unfold SwitchState.getTableEntry
  rw [hfound]
  simp only
  cases hlookup : (s.tables c.tableId).unordered.lookup c.key with
  | some stored => rfl
  | none =>
    cases hagain : canonicalizeTableEntry s.irP4Info.toIrP4Info c true with
    | error _ => rfl
    | ok c' =>
      obtain ⟨ir,hir,hback⟩ := canonicalizeTableEntry_eq_ok.mp hagain
      have hkey := (backAndForth_key hinet s.irP4Info.wellFormed hwidth hir hback).1
      rw [heq,canonicalEntry_key_idem,← heq] at hkey
      simp only
      rw [hkey,hlookup]

private theorem getTableEntry_spelled (hc : canonicalizeTableEntry s.irP4Info.toIrP4Info e false = .ok c) :
    ∃ found,s.getTableEntry e = .ok found ∧ ((s.tables e.tableId).unordered.lookup e.key ≠ none → found.isSome = true) := by
  obtain ⟨table,htable⟩ := canonicalized_found hc
  unfold SwitchState.getTableEntry
  rw [htable]
  simp only
  cases hlookup : (s.tables e.tableId).unordered.lookup e.key with
  | some stored => exact ⟨_,rfl,fun _ => rfl⟩
  | none =>
    cases canonicalizeTableEntry s.irP4Info.toIrP4Info e true with
    | error _ => exact ⟨_,rfl,fun h => absurd rfl h⟩
    | ok _ => exact ⟨_,rfl,fun h => absurd rfl h⟩

theorem mem_storedEntries (hinet : InetText.Inverse) (hwidth : s.irP4Info.toIrP4Info.BitwidthsFit) (hs : s.InSync)
    (hcanonical : s.Canonical) :
    f ∈ s.storedEntries ↔ (s.tables f.tableId).unordered.lookup f.key = some f := by
  rw [SwitchState.storedEntries,mem_entriesOf]
  constructor
  · rintro ⟨table,-,k,hk⟩
    rwa [hs.owned _ _ _ hk,← (hs.tables _).keyed _ _ hk]
  · intro hf
    obtain ⟨e,he⟩ := hcanonical _ _ _ hf
    obtain ⟨table,htable⟩ := canonicalized_found he
    refine ⟨(f.tableId,table),mem_of_lookup_eq_some ?_,f.key,hf⟩
    rwa [canonicalized_eq hinet hwidth he,canonicalEntry_tableId]

end Lookups

section IrEquality
variable [InetText] {info : IrP4Info} {options : TranslationOptions} {table : IrTableDefinition}

theorem irActionInvocationToPi_spec {a : IrActionInvocation} {pi : Action}
    (h : irActionInvocationToPi info options validActions a = .ok pi) : ∃ d,info.actionsByName.lookup a.name = some d ∧
      pi.actionId = d.preamble.id ∧ List.Forall₂ (fun p q => irParamToPi options d p = .ok q) a.params pi.params := by
  unfold irActionInvocationToPi at h
  split at h
  · cases h
  · rename_i d hd
    split at h
    · cases h
    · simp only at h
      obtain ⟨hreasons,rfl⟩ := unlessInvalid_eq_ok.mp h
      simp only [List.append_eq_nil_iff] at hreasons
      exact ⟨d,hd,rfl,(partitionDistinct_nil [] hreasons.1.2).1⟩

theorem sameAction_of_ir {a b : IrActionInvocation} {p q : Action}
    (hab : compareIrActionInvocation a b = true) (hp : irActionInvocationToPi info options validActions a = .ok p)
    (hq : irActionInvocationToPi info options validActions b = .ok q) : SameAction p q := by
  rw [compareIrActionInvocation,Bool.and_eq_true,decide_eq_true_iff,sameAsSet_eq_iff] at hab
  obtain ⟨d,hd,hpid,hps⟩ := irActionInvocationToPi_spec hp
  obtain ⟨d',hd',hqid,hqs⟩ := irActionInvocationToPi_spec hq
  rw [hab.1,hd'] at hd
  cases hd
  refine ⟨hpid.trans hqid.symm,List.rel_perm_imp ?_ hps hqs hab.2⟩
  intro x y z hy hz
  exact Except.ok.inj (hy.symm.trans hz)

private theorem sameMember_of_ir {a b : IrActionSetInvocation} {p q : ActionProfileAction}
    (hab : compareIrActionSetInvocation a b = true) (hp : irActionSetInvocationToPi info options validActions a = .ok p)
    (hq : irActionSetInvocationToPi info options validActions b = .ok q) : SameMember p q := by
  rw [compareIrActionSetInvocation,Bool.and_eq_true,decide_eq_true_iff] at hab
  obtain ⟨hp,-,hpw,hpp⟩ := irActionSetInvocationToPi_spec hp
  obtain ⟨hq,-,hqw,hqp⟩ := irActionSetInvocationToPi_spec hq
  exact ⟨sameAction_of_ir hab.1 hp hq,by rw [hpw,hqw,hab.2.1],by rw [hpp,hqp,hab.2.2]⟩

private theorem sameTableAction_of_ir {type type' : IrTableEntryType} {action action' : Option TableAction}
    (htypes : compareIrTableEntryType type type' = true) (h : TranslatedAction info options table type action)
    (h' : TranslatedAction info options table type' action') : SameTableAction action action' := by
  cases h with
  | notSet =>
    cases h' with
    | notSet => exact .equal _
    | _ => simp [compareIrTableEntryType] at htypes
  | action _ ha =>
    cases h' with
    | action _ hb => exact .action (sameAction_of_ir htypes ha hb)
    | _ => simp [compareIrTableEntryType] at htypes
  | actionSet _ has =>
    cases h' with
    | actionSet _ hbs =>
      have hmembers := eqUpToOrder_of_sameAsSet (show sameAsSet compareIrActionSetInvocation _ _ = true from htypes)
      refine .actionSet (hmembers.transfer ?_ has hbs)
      exact fun a b p q hab hp hq => sameMember_of_ir hab hp hq
    | _ => simp [compareIrTableEntryType] at htypes

private theorem sameTableEntry_of_ir (hinet : InetText.Inverse) {info : AcceptedP4Info} (hwidth : info.toIrP4Info.BitwidthsFit)
    {d : TableEntry} {irF irC : IrTableEntry} (hf : canonicalizeTableEntry info.toIrP4Info d false = .ok f)
    (hc : canonicalizeTableEntry info.toIrP4Info e false = .ok c) (hkey : f.key = c.key)
    (hirF : piTableEntryToIr info.toIrP4Info f {} = .ok irF) (hirC : piTableEntryToIr info.toIrP4Info c {} = .ok irC)
    (hsame : compareIrTableEntry irF irC = true) : SameTableEntry f c := by
  obtain ⟨irD,hirD,hbackF⟩ := canonicalizeTableEntry_eq_ok.mp hf
  obtain ⟨irE,hirE,hbackC⟩ := canonicalizeTableEntry_eq_ok.mp hc
  -- the IR forms are those that the entries came back from
  have heqF := entry_canonical info.wellFormed rfl hirD
  rw [← canonicalized_eq hinet hwidth hf] at heqF
  have heqC := entry_canonical info.wellFormed rfl hirE
  rw [← canonicalized_eq hinet hwidth hc] at heqC
  obtain rfl : irD = irF := Except.ok.inj (heqF.symm.trans hirF)
  obtain rfl : irE = irC := Except.ok.inj (heqC.symm.trans hirC)
  obtain ⟨tableF,hF⟩ := irTableEntryToPi_spec hbackF
  obtain ⟨tableC,hC⟩ := irTableEntryToPi_spec hbackC
  rw [compareIrTableEntry,Bool.and_eq_true,Bool.and_eq_true,decide_eq_true_iff] at hsame
  obtain ⟨⟨⟨hname,-,hmeter,hcounter,hmeterCounter,hmetadata⟩,-⟩,htype⟩ := hsame
  have hfound := hF.found
  rw [hname,hC.found] at hfound
  cases hfound
  obtain ⟨hid,hpriority,hsorted⟩ := TableEntryKey.mk.injEq .. ▸ hkey
  have haction := sameTableAction_of_ir htype (irTableActionToPi_spec (hF.actionReasons rfl))
    (irTableActionToPi_spec (hC.actionReasons rfl))
  refine ⟨hid,hpriority,?_,?_,?_,?_,?_,?_⟩
  · rw [hF.meterConfig,hC.meterConfig,hmeter]
  · rw [hF.counterData,hC.counterData,hcounter]
  · rw [hF.meterCounterData,hC.meterCounterData,hmeterCounter]
  · rw [hF.metadata,hC.metadata,hmetadata]
  · exact (sortMatches_perm f.matches_).symm.trans (hsorted ▸ sortMatches_perm c.matches_)
  · rw [hF.action,hC.action]
    exact haction

end IrEquality

/-! ### What the comparison is for, and when it is right -/

section Correspondence
variable [InetText] (s : SwitchState) (treatAsEqual : TreatAsEqual) (switchEntries : List TableEntry)

/-- The caller accepts the difference of a stored entry and one of the switch. -/
def SwitchState.Accepts (stored canonical : TableEntry) : Prop :=
  ∃ equal irFuzzerEntry irSwitchEntry,treatAsEqual = some equal ∧
    piTableEntryToIr s.irP4Info.toIrP4Info stored {} = .ok irFuzzerEntry ∧
    piTableEntryToIr s.irP4Info.toIrP4Info canonical {} = .ok irSwitchEntry ∧ equal irFuzzerEntry irSwitchEntry = true

/-- A canonical entry of the switch and the stored entry of its key are equal up to order, or accepted. -/
def SwitchState.Agrees (canonical stored : TableEntry) : Prop :=
  canonical.key = stored.key ∧ (SameTableEntry stored canonical ∨ s.Accepts treatAsEqual stored canonical)

def SwitchState.CorrespondsTo : Prop :=
  (switchEntries.map TableEntry.key).Nodup ∧ ∃ canonical,
    List.Forall₂ (fun e c => canonicalizeTableEntry s.irP4Info.toIrP4Info e false = .ok c) switchEntries canonical ∧
    EqUpToOrder (s.Agrees treatAsEqual) canonical s.storedEntries

def SwitchState.Paired : Prop :=
  ∀ e ∈ switchEntries,∃ c,canonicalizeTableEntry s.irP4Info.toIrP4Info e false = .ok c ∧
    ∃ f ∈ s.storedEntries,s.Agrees treatAsEqual c f

omit [InetText] in
/-- The canonical keys are distinct, and as many as the state has. -/
def SwitchState.Complete : Prop :=
  (switchEntries.map fun e => (canonicalEntry s.irP4Info.toIrP4Info e).key).Nodup ∧ switchEntries.length = s.storedEntries.length

omit [InetText] in
/-- Every key of the state is read as the state spells it. -/
def SwitchState.Spelled : Prop := ∀ f ∈ s.storedEntries,∃ e ∈ switchEntries,e.key = f.key

/-- Where every entry of the switch agrees with one of the state: if they are all of them, the
counters are right, and with multicast groups the keys are spelled as the state spells them; if
they are not all, the counters differ from their number, or with multicast groups some key of
the state is not read as the state spells it. -/
def SwitchState.ComparedFaithfully : Prop :=
  s.Paired treatAsEqual switchEntries →
    (s.Complete switchEntries → s.currentEntries - s.multicast.current.entries = s.storedEntries.length ∧
      (s.multicast.current.entries ≠ 0 → s.Spelled switchEntries)) ∧
    (¬ s.Complete switchEntries → (switchEntries.length : Int) ≠ s.currentEntries - s.multicast.current.entries ∨
      (s.multicast.current.entries ≠ 0 ∧ ¬ s.Spelled switchEntries))

end Correspondence

section Steps
variable [InetText] {s : SwitchState} {treatAsEqual : TreatAsEqual}

omit [InetText] in
theorem append_text_ne_empty (message : String) {text : String} (h : text ≠ "") : message ++ text ≠ "" := by
  intro heq
  have hlist := congrArg String.toList heq
  rw [String.toList_append] at hlist
  exact h (String.toList_injective (List.append_eq_nil_iff.mp hlist).2)

theorem compareEntry_quiet (hinet : InetText.Inverse) (hwidth : s.irP4Info.toIrP4Info.BitwidthsFit) (hs : s.InSync)
    (hcanonical : s.Canonical) {comparison comparison' : Comparison}
    (hc : canonicalizeTableEntry s.irP4Info.toIrP4Info e false = .ok c) :
    s.compareEntry treatAsEqual comparison e = .ok comparison' ∧ comparison'.statusMessage = "" ↔
      comparison' = comparison ∧ comparison.statusMessage = "" ∧ ∃ f ∈ s.storedEntries,s.Agrees treatAsEqual c f := by
  have hpartner : ∀ f,f ∈ s.storedEntries → c.key = f.key → (s.tables c.tableId).unordered.lookup c.key = some f := by
    intro f hf hkey
    have hlookup := (mem_storedEntries hinet hwidth hs hcanonical).mp hf
    have hid : c.tableId = f.tableId := congrArg TableEntryKey.tableId hkey
    rwa [← hkey,← hid] at hlookup
  have hrun : s.compareEntry treatAsEqual comparison e =
      s.compareFound treatAsEqual comparison c ((s.tables c.tableId).unordered.lookup c.key) := by
    unfold SwitchState.compareEntry
    rw [hc]
    change (s.getTableEntry c >>= _) = _
    rw [getTableEntry_canonical hinet hwidth hc]
    rfl
  rw [hrun]
  cases hlookup : (s.tables c.tableId).unordered.lookup c.key with
  | none =>
    refine iff_of_false ?_ ?_
    · rintro ⟨h,hmessage⟩
      obtain ⟨_,-,h⟩ := bind_eq_ok.mp h
      cases h
      exact append_text_ne_empty _ (by decide) hmessage
    · rintro ⟨-,-,f,hf,hkey,-⟩
      rw [hpartner f hf hkey] at hlookup
      cases hlookup
  | some stored =>
    have hkey : c.key = stored.key := (hs.tables _).keyed _ _ hlookup
    have hstored : stored ∈ s.storedEntries := by
      have hid : c.tableId = stored.tableId := congrArg TableEntryKey.tableId hkey
      rwa [mem_storedEntries hinet hwidth hs hcanonical,← hkey,← hid]
    have hagrees : (∃ f ∈ s.storedEntries,s.Agrees treatAsEqual c f) ↔
        SameTableEntry stored c ∨ s.Accepts treatAsEqual stored c := by
      constructor
      · rintro ⟨f,hf,hkey',h⟩
        rw [hpartner f hf hkey'] at hlookup
        cases hlookup
        exact h
      · exact fun h => ⟨stored,hstored,hkey,h⟩
    rw [hagrees]
    change (if compareTableEntry stored c then _ else _) = _ ∧ _ ↔ _
    by_cases hsame : SameTableEntry stored c
    · rw [if_pos ((compareTableEntry_iff _ _).mpr hsame)]
      constructor
      · rintro ⟨h,hmessage⟩
        cases h
        exact ⟨rfl,hmessage,.inl hsame⟩
      · rintro ⟨rfl,hmessage,-⟩
        exact ⟨rfl,hmessage⟩
    · rw [if_neg (fun h => hsame ((compareTableEntry_iff _ _).mp h))]
      obtain ⟨d,hd⟩ := hcanonical _ _ _ hlookup
      have hdiffer : ∀ {irF irC},piTableEntryToIr s.irP4Info.toIrP4Info stored {} = .ok irF →
          piTableEntryToIr s.irP4Info.toIrP4Info c {} = .ok irC → compareIrTableEntry irF irC = false := by
        intro irF irC hirF hirC
        cases hir : compareIrTableEntry irF irC with
        | false => rfl
        | true => exact absurd (sameTableEntry_of_ir hinet hwidth hd hc hkey.symm hirF hirC hir) hsame
      constructor
      · rintro ⟨h,hmessage⟩
        obtain ⟨irC,hirC,h⟩ := bind_eq_ok.mp h
        obtain ⟨irF,hirF,h⟩ := bind_eq_ok.mp h
        have hirC := mapError_eq_ok.mp hirC
        have hirF := mapError_eq_ok.mp hirF
        rw [hdiffer hirF hirC] at h
        simp only [Bool.false_eq_true,if_false] at h
        split at h
        · rename_i hany
          cases h
          obtain ⟨equal,hequal,haccepts⟩ := (Option.any_eq_true _ _).mp hany
          exact ⟨rfl,hmessage,.inr ⟨equal,irF,irC,hequal,hirF,hirC,haccepts⟩⟩
        · cases h
          exact absurd hmessage (append_text_ne_empty _ (by decide))
      · rintro ⟨rfl,hmessage,hsame' | ⟨equal,irF,irC,rfl,hirF,hirC,haccepts⟩⟩
        · exact absurd hsame' hsame
        · refine ⟨?_,hmessage⟩
          rw [hirC,hirF]
          change (if compareIrTableEntry irF irC then _ else _) = _
          rw [hdiffer hirF hirC]
          simp [haccepts]

/-- The loop over the entries of the switch raises no complaint exactly when all of them agree. -/
theorem compareEntries_quiet (hinet : InetText.Inverse) (hwidth : s.irP4Info.toIrP4Info.BitwidthsFit) (hs : s.InSync)
    (hcanonical : s.Canonical) {comparison comparison' : Comparison} {switchEntries : List TableEntry}
    (htranslate : ∀ e ∈ switchEntries,∃ c,canonicalizeTableEntry s.irP4Info.toIrP4Info e false = .ok c) :
    switchEntries.foldlM (s.compareEntry treatAsEqual) comparison = .ok comparison' ∧ comparison'.statusMessage = "" ↔
      comparison' = comparison ∧ comparison.statusMessage = "" ∧ s.Paired treatAsEqual switchEntries := by
  induction switchEntries generalizing comparison with
  | nil =>
    constructor
    · rintro ⟨h,hmessage⟩
      cases h
      exact ⟨rfl,hmessage,by simp [SwitchState.Paired]⟩
    · rintro ⟨rfl,hmessage,-⟩
      exact ⟨rfl,hmessage⟩
  | cons e rest ih =>
    obtain ⟨c,hc⟩ := htranslate e List.mem_cons_self
    have hrest := fun e he => htranslate e (List.mem_cons_of_mem _ he)
    have hpaired : s.Paired treatAsEqual (e :: rest) ↔
        (∃ f ∈ s.storedEntries,s.Agrees treatAsEqual c f) ∧ s.Paired treatAsEqual rest := by
      simp only [SwitchState.Paired,List.forall_mem_cons]
      refine and_congr_left' ⟨?_,fun h => ⟨c,hc,h⟩⟩
      rintro ⟨c',hc',h⟩
      cases hc.symm.trans hc'
      exact h
    rw [List.foldlM_cons,hpaired]
    constructor
    · rintro ⟨h,hmessage⟩
      obtain ⟨mid,hmid,h⟩ := bind_eq_ok.mp h
      obtain ⟨rfl,hmidMessage,hrestPaired⟩ := (ih hrest).mp ⟨h,hmessage⟩
      obtain ⟨rfl,hempty,hagrees⟩ := (compareEntry_quiet hinet hwidth hs hcanonical hc).mp ⟨hmid,hmidMessage⟩
      exact ⟨rfl,hempty,hagrees,hrestPaired⟩
    · rintro ⟨rfl,hempty,hagrees,hrestPaired⟩
      obtain ⟨hstep,-⟩ := (compareEntry_quiet hinet hwidth hs hcanonical hc).mpr ⟨rfl,hempty,hagrees⟩
      obtain ⟨hrun,-⟩ := (ih hrest).mpr ⟨rfl,hempty,hrestPaired⟩
      exact ⟨bind_eq_ok.mpr ⟨_,hstep,hrun⟩,hempty⟩

private theorem eraseEntry_ok {copy : UInt32 → AList fun _ : TableEntryKey => TableEntry}
    (hc : canonicalizeTableEntry s.irP4Info.toIrP4Info e false = .ok c)
    (hcopy : ∀ id k f,(copy id).lookup k = some f → (s.tables id).unordered.lookup k = some f) :
    ∃ copy',s.eraseEntry copy e = .ok copy' ∧
      ∀ id k f,(copy' id).lookup k = some f ↔ (copy id).lookup k = some f ∧ ¬ (e.tableId = id ∧ e.key = k) := by
  obtain ⟨found,hfound,hspelled⟩ := getTableEntry_spelled hc
  have hrun : s.eraseEntry copy e = .ok (if found.isSome then
      Function.update copy e.tableId ((copy e.tableId).erase e.key) else copy) := by
    unfold SwitchState.eraseEntry
    rw [hfound]
    rfl
  refine ⟨_,hrun,fun id k f => ?_⟩
  cases hsome : found.isSome with
  | true =>
    rw [if_pos rfl]
    by_cases hid : id = e.tableId
    · subst hid
      rw [Function.update_self]
      by_cases hk : k = e.key
      · subst hk
        simp
      · rw [AList.lookup_erase_ne hk]
        simp [Ne.symm hk]
    · rw [Function.update_of_ne hid]
      simp [Ne.symm hid]
  | false =>
    rw [if_neg (by simp)]
    refine ⟨fun h => ⟨h,?_⟩,And.left⟩
    rintro ⟨rfl,rfl⟩
    have hstored := hcopy _ _ _ h
    exact absurd (hspelled (by simp [hstored])) (by simp [hsome])

private theorem eraseEntries_ok {switchEntries : List TableEntry}
    (htranslate : ∀ e ∈ switchEntries,∃ c,canonicalizeTableEntry s.irP4Info.toIrP4Info e false = .ok c)
    {copy : UInt32 → AList fun _ : TableEntryKey => TableEntry}
    (hcopy : ∀ id k f,(copy id).lookup k = some f → (s.tables id).unordered.lookup k = some f) :
    ∃ copy',switchEntries.foldlM s.eraseEntry copy = .ok copy' ∧ ∀ id k f,(copy' id).lookup k = some f ↔
      (copy id).lookup k = some f ∧ ∀ e ∈ switchEntries,¬ (e.tableId = id ∧ e.key = k) := by
  induction switchEntries generalizing copy with
  | nil => exact ⟨copy,rfl,by simp⟩
  | cons e rest ih =>
    obtain ⟨c,hc⟩ := htranslate e List.mem_cons_self
    obtain ⟨mid,hmid,hlookups⟩ := eraseEntry_ok hc hcopy
    have hmidCopy : ∀ id k f,(mid id).lookup k = some f → (s.tables id).unordered.lookup k = some f :=
      fun id k f h => hcopy id k f ((hlookups id k f).mp h).1
    obtain ⟨copy',hrun,hlookups'⟩ := ih (fun e he => htranslate e (List.mem_cons_of_mem _ he)) hmidCopy
    refine ⟨copy',?_,fun id k f => ?_⟩
    · rw [List.foldlM_cons]
      exact bind_eq_ok.mpr ⟨mid,hmid,hrun⟩
    · rw [hlookups',hlookups,List.forall_mem_cons,and_assoc]

theorem reportMissing_quiet {missing : List TableEntry} {message : String} :
    missing.foldlM s.reportMissing message = .ok "" ↔ message = "" ∧ missing = [] := by
  induction missing generalizing message with
  | nil => simp [pure,Except.pure]
  | cons f missing ih =>
    refine iff_of_false (fun h => ?_) (by simp)
    rw [List.foldlM_cons] at h
    obtain ⟨mid,hmid,h⟩ := bind_eq_ok.mp h
    obtain ⟨_,-,hmid⟩ := bind_eq_ok.mp hmid
    cases hmid
    exact append_text_ne_empty _ (by decide) (ih.mp h).1

private theorem missing_nil_iff (hinet : InetText.Inverse) (hwidth : s.irP4Info.toIrP4Info.BitwidthsFit) (hs : s.InSync)
    (hcanonical : s.Canonical) {switchEntries : List TableEntry} {copy : UInt32 → AList fun _ : TableEntryKey => TableEntry}
    (hcopy : ∀ id k f,(copy id).lookup k = some f ↔
      (s.tables id).unordered.lookup k = some f ∧ ∀ e ∈ switchEntries,¬ (e.tableId = id ∧ e.key = k)) :
    s.entriesOf copy = [] ↔ s.Spelled switchEntries := by
  rw [List.eq_nil_iff_forall_not_mem]
  simp only [mem_entriesOf,hcopy]
  constructor
  · intro h f hf
    have hlookup := (mem_storedEntries hinet hwidth hs hcanonical).mp hf
    obtain ⟨d,hd⟩ := hcanonical _ _ _ hlookup
    obtain ⟨table,htable⟩ := canonicalized_found hd
    have hid : f.tableId = d.tableId := by rw [canonicalized_eq hinet hwidth hd,canonicalEntry_tableId]
    by_contra hnone
    push Not at hnone
    refine h f ⟨(f.tableId,table),mem_of_lookup_eq_some (by rwa [hid]),f.key,hlookup,fun e he heq => ?_⟩
    exact hnone e he heq.2
  · rintro h f ⟨table,-,k,hlookup,hunread⟩
    have hk : k = f.key := (hs.tables _).keyed _ _ hlookup
    have hid : f.tableId = table.1 := hs.owned _ _ _ hlookup
    subst hk
    have hmem : f ∈ s.storedEntries := by
      rw [mem_storedEntries hinet hwidth hs hcanonical,hid]
      exact hlookup
    obtain ⟨e,he,hkey⟩ := h f hmem
    exact hunread e he ⟨(congrArg TableEntryKey.tableId hkey).trans hid,hkey⟩

/-- When the comparison succeeds. -/
theorem assertEntriesAreEqualToState_ok (hinet : InetText.Inverse) (hwidth : s.irP4Info.toIrP4Info.BitwidthsFit)
    (hs : s.InSync) (hcanonical : s.Canonical) {switchEntries : List TableEntry}
    (htranslate : ∀ e ∈ switchEntries,∃ c,canonicalizeTableEntry s.irP4Info.toIrP4Info e false = .ok c) :
    s.assertEntriesAreEqualToState switchEntries treatAsEqual = .ok () ↔
      (switchEntries.length : Int) = s.currentEntries - s.multicast.current.entries ∧ s.Paired treatAsEqual switchEntries ∧
        (s.multicast.current.entries ≠ 0 → s.Spelled switchEntries) := by
  have hstored : ∀ id k f,((fun id => (s.tables id).unordered) id).lookup k = some f → (s.tables id).unordered.lookup k = some f :=
    fun _ _ _ h => h
  obtain ⟨copy,hcopy,hlookups⟩ := eraseEntries_ok htranslate hstored
  have hmissing := missing_nil_iff hinet hwidth hs hcanonical hlookups
  unfold SwitchState.assertEntriesAreEqualToState
  simp only
  rw [bind_eq_ok]
  constructor
  · rintro ⟨comparison,hcompared,h⟩
    obtain ⟨message,hmessage,h⟩ := bind_eq_ok.mp h
    have hempty : message = "" := by
      by_contra hne
      rw [if_neg hne] at h
      cases h
    subst hempty
    unfold SwitchState.reportAllMissing at hmessage
    have hcomparison : comparison.statusMessage = "" := by
      split at hmessage
      · rw [hcopy] at hmessage
        exact (reportMissing_quiet.mp hmessage).1
      · exact Except.ok.inj hmessage
    obtain ⟨rfl,hcounted,hpaired⟩ := (compareEntries_quiet hinet hwidth hs hcanonical htranslate).mp ⟨hcompared,hcomparison⟩
    have hsize : (switchEntries.length : Int) = s.currentEntries - s.multicast.current.entries := by
      by_contra hne
      simp only [if_pos hne] at hcounted
      exact append_text_ne_empty _ (by decide) hcounted
    refine ⟨hsize,hpaired,fun hgroups => ?_⟩
    rw [if_pos (.inl (by omega)),hcopy] at hmessage
    exact hmissing.mp (reportMissing_quiet.mp hmessage).2
  · rintro ⟨hsize,hpaired,hspelled⟩
    rw [if_neg (not_not.mpr hsize)]
    have hquiet : ({ statusMessage := "" } : Comparison).statusMessage = "" := rfl
    obtain ⟨hrun,-⟩ := (compareEntries_quiet hinet hwidth hs hcanonical htranslate).mpr ⟨rfl,hquiet,hpaired⟩
    refine ⟨_,hrun,bind_eq_ok.mpr ⟨"",?_,rfl⟩⟩
    unfold SwitchState.reportAllMissing
    by_cases hgroups : s.multicast.current.entries = 0
    · rw [if_neg (by simp; omega)]
    · rw [if_pos (.inl (by omega)),hcopy]
      exact reportMissing_quiet.mpr ⟨rfl,hmissing.mpr (hspelled hgroups)⟩

end Steps

section Result
variable [InetText] {s : SwitchState} {treatAsEqual : TreatAsEqual} {switchEntries : List TableEntry}

private theorem spelled_keys_nodup (hinet : InetText.Inverse) (hwidth : s.irP4Info.toIrP4Info.BitwidthsFit)
    (htranslate : ∀ e ∈ switchEntries,∃ c,canonicalizeTableEntry s.irP4Info.toIrP4Info e false = .ok c)
    (h : (switchEntries.map fun e => (canonicalEntry s.irP4Info.toIrP4Info e).key).Nodup) :
    (switchEntries.map TableEntry.key).Nodup := by
  rw [List.Nodup,List.pairwise_map] at h ⊢
  refine h.imp_of_mem fun {e e'} he _ hne hkey => hne ?_
  obtain ⟨c,hc⟩ := htranslate e he
  obtain ⟨ir,hir,hback⟩ := canonicalizeTableEntry_eq_ok.mp hc
  exact canonicalEntry_key_congr (backAndForth_key hinet s.irP4Info.wellFormed hwidth hir hback).2 hkey

private theorem correspondsTo_iff (hinet : InetText.Inverse) (hwidth : s.irP4Info.toIrP4Info.BitwidthsFit) (hs : s.InSync)
    (htranslate : ∀ e ∈ switchEntries,∃ c,canonicalizeTableEntry s.irP4Info.toIrP4Info e false = .ok c) :
    s.CorrespondsTo treatAsEqual switchEntries ↔ s.Paired treatAsEqual switchEntries ∧ s.Complete switchEntries := by
  have hnodup := storedEntries_keys_nodup hs
  constructor
  · rintro ⟨-,canonical,htranslated,partners,hpartners,hperm⟩
    have hkeys : canonical.map TableEntry.key = partners.map TableEntry.key := by
      rw [← List.forall₂_eq_eq_eq,List.forall₂_map_left_iff,List.forall₂_map_right_iff]
      exact hpartners.imp fun _ _ => And.left
    have hcanonical : canonical = switchEntries.map (canonicalEntry s.irP4Info.toIrP4Info) := by
      rw [← List.forall₂_eq_eq_eq,List.forall₂_map_right_iff]
      exact (htranslated.imp fun e c hc => canonicalized_eq hinet hwidth hc).flip
    refine ⟨fun e he => ?_,?_,?_⟩
    · obtain ⟨c,hcmem,hc⟩ := exists_of_forall₂_left htranslated he
      obtain ⟨f,hf,hagrees⟩ := exists_of_forall₂_left hpartners hcmem
      exact ⟨c,hc,f,hperm.subset hf,hagrees⟩
    · have hcanonicalKeys := hperm.map TableEntry.key
      rw [← hkeys,hcanonical,List.map_map] at hcanonicalKeys
      exact hcanonicalKeys.nodup_iff.mpr hnodup
    · rw [htranslated.length_eq,hpartners.length_eq,hperm.length_eq]
  · rintro ⟨hpaired,hkeys,hlength⟩
    have hmapped : (switchEntries.map (canonicalEntry s.irP4Info.toIrP4Info)).map TableEntry.key =
        switchEntries.map fun e => (canonicalEntry s.irP4Info.toIrP4Info e).key := List.map_map
    have hpartner : ∀ x ∈ switchEntries.map (canonicalEntry s.irP4Info.toIrP4Info),
        ∃ f ∈ s.storedEntries,s.Agrees treatAsEqual x f := by
      intro x hx
      obtain ⟨e,he,rfl⟩ := List.mem_map.mp hx
      obtain ⟨c,hc,hagrees⟩ := hpaired e he
      rwa [canonicalized_eq hinet hwidth hc] at hagrees
    have hsubset : (switchEntries.map (canonicalEntry s.irP4Info.toIrP4Info)).map TableEntry.key ⊆
        s.storedEntries.map TableEntry.key := by
      intro k hk
      obtain ⟨x,hx,rfl⟩ := List.mem_map.mp hk
      obtain ⟨f,hf,hagrees⟩ := hpartner x hx
      exact hagrees.1 ▸ List.mem_map_of_mem hf
    rw [← hmapped] at hkeys
    have hperm := (List.subperm_of_subset hkeys hsubset).perm_of_length_le (by simp [hlength])
    refine ⟨spelled_keys_nodup hinet hwidth htranslate (hmapped ▸ hkeys),_,?_,
      eqUpToOrder_of_keys hkeys hnodup (fun k => hperm.mem_iff) ?_⟩
    · rw [List.forall₂_map_right_iff,List.forall₂_same]
      intro e he
      obtain ⟨c,hc⟩ := htranslate e he
      rwa [← canonicalized_eq hinet hwidth hc]
    · intro x hx f hf hkey
      obtain ⟨f',hf',hagrees⟩ := hpartner x hx
      rwa [List.inj_on_of_nodup_map hnodup hf' hf (hagrees.1.symm.trans hkey)] at hagrees

/-- In every reachable state, and for all entries that translate, the comparison answers
whether the entries of the switch are those of the state, exactly where it is faithful. -/
theorem entries_compared_iff (hinet : InetText.Inverse) {info : AcceptedP4Info} (hwidth : info.toIrP4Info.BitwidthsFit)
    (h : Reached info s)
    (htranslate : ∀ e ∈ switchEntries,∃ c,canonicalizeTableEntry info.toIrP4Info e false = .ok c) :
    (s.assertEntriesAreEqualToState switchEntries treatAsEqual = .ok () ↔ s.CorrespondsTo treatAsEqual switchEntries) ↔
      s.ComparedFaithfully treatAsEqual switchEntries := by
  obtain ⟨hcanonical,hinfo⟩ := h.canonical
  subst hinfo
  have hs := h.inSync
  rw [assertEntriesAreEqualToState_ok hinet hwidth hs hcanonical htranslate,correspondsTo_iff hinet hwidth hs htranslate]
  unfold SwitchState.ComparedFaithfully
  by_cases hpaired : s.Paired treatAsEqual switchEntries
  · by_cases hcomplete : s.Complete switchEntries
    · have hlength := hcomplete.2
      simp only [hpaired,hcomplete,true_and,and_true,iff_true,not_true,false_implies,true_implies,hlength]
      rw [eq_comm]
    · simp only [hpaired,hcomplete,true_and,and_false,iff_false,not_false_iff,false_implies,true_implies,true_and]
      tauto
  · simp [hpaired]

end Result

attribute [local instance] uncompressedInet

def sampleRoute (octet : UInt8) : TableEntry :=
  { tableId := 0x02000004,matches_ := [⟨1,.lpm [octet,0,0,0] 8⟩],action := some (.action (nexthop "n1")) }

theorem sampleRoutes_translate : ∀ octet ∈ [10,11],
    ∃ c,canonicalizeTableEntry samplePipeline.toIrP4Info (sampleRoute octet) false = .ok c := by
  intro octet hoctet
  have hok : (canonicalizeTableEntry samplePipeline.toIrP4Info (sampleRoute octet) false).toOption.isSome = true := by
    revert octet
    decide +kernel
  obtain ⟨c,hc⟩ := Option.isSome_iff_exists.mp hok
  exact ⟨c,toOption_eq_some.mp hc⟩

/-- The fuzzer's state after two routes were set. -/
def setSampleRoutes : Outcome :=
  ({ irP4Info := samplePipeline } : SwitchState).call (.setEntities [.tableEntry (sampleRoute 10),.tableEntry (sampleRoute 11)])

/-- Two routes in another order. -/
theorem entries_compared_routes : ∃ s,Reached samplePipeline s ∧ s.currentEntries = 2 ∧
    ((s.assertEntriesAreEqualToState [sampleRoute 11,sampleRoute 10] none = .ok () ↔
      s.CorrespondsTo none [sampleRoute 11,sampleRoute 10]) ↔ s.ComparedFaithfully none [sampleRoute 11,sampleRoute 10]) := by
  have hset : setSampleRoutes.map (fun r => r.1.currentEntries) = some 2 := by decide
  obtain ⟨⟨s,status⟩,hcall,hcount⟩ := Option.map_eq_some_iff.mp hset
  have hreached := Reached.fresh.call hcall
  refine ⟨s,hreached,hcount,entries_compared_iff uncompressedInet_inverse (by unfold IrP4Info.BitwidthsFit; decide) hreached ?_⟩
  simpa using And.symm (by simpa using sampleRoutes_translate)

/-- A route that the switch returned twice hides the one that it lost. -/
theorem lost_route_hidden : ¬ ∀ (info : AcceptedP4Info) (s : SwitchState),Reached info s →
    ∀ (treatAsEqual : TreatAsEqual) (switchEntries : List TableEntry),
      (∀ e ∈ switchEntries,∃ c,canonicalizeTableEntry info.toIrP4Info e false = .ok c) →
      (s.assertEntriesAreEqualToState switchEntries treatAsEqual = .ok () ↔ s.CorrespondsTo treatAsEqual switchEntries) := by
  intro hclaim
  have hset : setSampleRoutes.map (fun r =>
      (r.1.assertEntriesAreEqualToState [sampleRoute 10,sampleRoute 10] none).toOption.isSome) = some true := by decide
  obtain ⟨⟨s,status⟩,hcall,hok⟩ := Option.map_eq_some_iff.mp hset
  obtain ⟨⟨⟩,hok⟩ := Option.isSome_iff_exists.mp hok
  have htranslate : ∀ e ∈ [sampleRoute 10,sampleRoute 10],
      ∃ c,canonicalizeTableEntry samplePipeline.toIrP4Info e false = .ok c := by
    simpa using sampleRoutes_translate 10 (by decide)
  obtain ⟨hnodup,-⟩ := (hclaim samplePipeline s (Reached.fresh.call hcall) none _ htranslate).mp (toOption_eq_some.mp hok)
  exact absurd hnodup (by decide)

end SonicPins.P4Fuzzer
