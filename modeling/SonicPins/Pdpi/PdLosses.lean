import SonicPins.Lib.PointUpdates
import SonicPins.Pdpi.IrToPd

/-! What a translation to PD that succeeds has kept of the matches, parameters and
metadata of its input. -/
namespace SonicPins.Pdpi
open Lib

variable {ms : List IrMatch} {a : IrActionInvocation} {type : IrTableEntryType} {ir : IrTableEntry}

section Matches
variable {gen : PdGenOptions} {options : TranslationOptions} {table : IrTableDefinition}

def IrMatchValue.matchType : IrMatchValue → Option MatchType
  | .notSet => none
  | .exact _ => some .exact
  | .lpm _ _ => some .lpm
  | .ternary _ _ => some .ternary
  | .optional _ => some .optional

def IrMatchValue.pdForm : IrMatchValue → Option PdFieldValue
  | .notSet => none
  | .exact v => some (.text (irValueString v))
  | .lpm v prefixLength => some (.message (.lpm (irValueString v) prefixLength))
  | .ternary v mask => some (.message (.ternary (irValueString v) (irValueString mask)))
  | .optional v => some (.message (.optional (irValueString v)))

theorem pdForm_eq_some {value : IrMatchValue} {v : PdFieldValue} (h : value.pdForm = some v) {matchType : MatchType} :
    pdFieldValue matchType value = some v ↔ value.matchType = some matchType := by
  cases value with
  | notSet => cases h
  | _ =>
    cases h
    cases matchType <;> simp [pdFieldValue,IrMatchValue.matchType,IrMatchValue.exactValue,IrMatchValue.lpmValue,
      IrMatchValue.ternaryValue,IrMatchValue.optionalValue]

/-- The value of a field, by the type that it is declared with. -/
def PdMatch.get (pd : PdMatch) (matchType : MatchType) (name : String) : Option PdFieldValue :=
  if matchType = .exact then some (.text (pd.text name)) else (pd.message name).map .message

theorem irMatchToPd_eq_ok {m : IrMatch} {r : Option (String × PdFieldValue)} : irMatchToPd gen options table m = .ok r ↔
    (table.matchFieldsByName.lookup m.name = none ∧ r = none) ∨ ∃ d,table.matchFieldsByName.lookup m.name = some d ∧
      unsupportedReason "Match field" d.isUnsupported options = [] ∧ m.name ∈ table.pdMatchFields ∧
      ∃ v,pdFieldValue d.matchField.matchType m.value = some v ∧ r = some (m.name,v) := by
  unfold irMatchToPd
  cases hd : table.matchFieldsByName.lookup m.name with
  | none => simp [eq_comm (a := r)]
  | some d =>
    simp only [reduceCtorEq,false_and,false_or,Option.some.injEq,exists_eq_left']
    unfold irMatchFieldToPd
    cases hv : pdFieldValue d.matchField.matchType m.value with
    | none => simp
    | some v =>
      by_cases hname : m.name ∈ table.pdMatchFields
      · simp only [getFieldDescriptor,if_pos hname,reasonOf,Except.mapError,Except.map]
        cases unsupportedReason "Match field" d.isUnsupported options <;> simp [hname,eq_comm (a := r)]
      · simp [getFieldDescriptor,hname,reasonOf,Except.mapError,Except.map]

theorem irMatchEntryToPd_eq_ok {pd : PdMatch} : irMatchEntryToPd gen options table ms = .ok pd ↔
    ∃ values,List.Forall₂ (fun m r => irMatchToPd gen options table m = .ok r) ms values ∧
      values.reduceOption.foldl (fun pd x => pd.set x.1 x.2) {} = pd := by
  unfold irMatchEntryToPd
  constructor
  · intro h
    simp only [List.isEmpty_iff] at h
    split_ifs at h with hreasons
    cases h
    exact ⟨_,partitionResults_nil hreasons,rfl⟩
  · rintro ⟨values,hvalues,rfl⟩
    rw [partitionResults_eq hvalues]
    rfl

theorem writesAt_set : WritesAt (fun (pd : PdMatch) (x : String × PdFieldValue) => pd.set x.1 x.2) Prod.fst
    fun pd name => (pd.text name,pd.message name) := by
  rintro pd ⟨name,v⟩ k hk
  cases v <;> simp [PdMatch.set,Function.update_of_ne hk]

theorem get_of_written {l : List (String × PdFieldValue)} (hnodup : (l.map Prod.fst).Nodup) {name : String} {v : PdFieldValue}
    (hmem : (name,v) ∈ l) {matchType : MatchType} {value : IrMatchValue} (hv : pdFieldValue matchType value = some v) :
    (l.foldl (fun pd x => pd.set x.1 x.2) ({} : PdMatch)).get matchType name = some v := by
  obtain ⟨pd,-,hpd⟩ := observe_foldl_of_mem writesAt_set hnodup hmem {}
  obtain ⟨htext,hmessage⟩ := Prod.mk.inj hpd
  unfold PdMatch.get
  cases matchType with
  | exact =>
    cases hv
    rw [if_pos rfl,htext]
    simp [PdMatch.set]
  | lpm | ternary | optional =>
    cases hv
    rw [if_neg (by decide),hmessage]
    simp [PdMatch.set]
  | unspecified | range => cases hv

theorem written_names {values : List (Option (String × PdFieldValue))}
    (h : List.Forall₂ (fun m r => irMatchToPd gen options table m = .ok r) ms values) :
    (values.reduceOption.map Prod.fst).Sublist (ms.map IrMatch.name) := by
  induction h with
  | nil => exact .slnil
  | @cons m r ms values hr _ ih =>
    rcases irMatchToPd_eq_ok.mp hr with ⟨-,rfl⟩ | ⟨d,-,-,-,v,-,rfl⟩
    · rw [List.reduceOption_cons_of_none]
      exact ih.cons _
    · rw [List.reduceOption_cons_of_some]
      exact ih.cons_cons _

/-- Every match names a field of the table, no two the same one, and its texts are in the message. -/
structure MatchesKept (table : IrTableDefinition) (ms : List IrMatch) (pd : PdMatch) : Prop where
  distinct : (ms.map IrMatch.name).Nodup
  kept : ∀ m ∈ ms,∃ d,table.matchFieldsByName.lookup m.name = some d ∧
    ∀ v,m.value.pdForm = some v → pd.get d.matchField.matchType m.name = some v

/-- Matches with distinct names of fields of the table, each of the kind of its field. -/
structure MatchesFit (table : IrTableDefinition) (ms : List IrMatch) : Prop where
  distinct : (ms.map IrMatch.name).Nodup
  fit : ∀ m ∈ ms,∃ d,table.matchFieldsByName.lookup m.name = some d ∧
    (m.value = .notSet ∨ m.value.matchType = some d.matchField.matchType)

theorem matchesKept_iff {pd : PdMatch} (h : irMatchEntryToPd gen options table ms = .ok pd) :
    MatchesKept table ms pd ↔ MatchesFit table ms := by
  obtain ⟨values,hvalues,rfl⟩ := irMatchEntryToPd_eq_ok.mp h
  -- A match of a known field is written with the value that the field's type reads from it.
  have hwritten : (ms.map IrMatch.name).Nodup → ∀ m ∈ ms,∀ d,table.matchFieldsByName.lookup m.name = some d →
      ∃ v,pdFieldValue d.matchField.matchType m.value = some v ∧
        (values.reduceOption.foldl (fun pd x => pd.set x.1 x.2) ({} : PdMatch)).get d.matchField.matchType m.name = some v := by
    intro hnodup m hm d hd
    obtain ⟨r,hr,hmr⟩ := exists_of_forall₂_left hvalues hm
    rcases irMatchToPd_eq_ok.mp hmr with ⟨hnone,-⟩ | ⟨d',hd',-,-,v,hv,rfl⟩
    · cases hd.symm.trans hnone
    · cases hd.symm.trans hd'
      exact ⟨v,hv,get_of_written (hnodup.sublist (written_names hvalues)) (List.reduceOption_mem_iff.mpr hr) hv⟩
  constructor
  · rintro ⟨hnodup,hkept⟩
    refine ⟨hnodup,fun m hm => ?_⟩
    obtain ⟨d,hd,hget⟩ := hkept m hm
    obtain ⟨v,hv,hread⟩ := hwritten hnodup m hm d hd
    refine ⟨d,hd,?_⟩
    cases hform : m.value.pdForm with
    | none =>
      left
      cases hvalue : m.value <;> simp [hvalue,IrMatchValue.pdForm] at hform
      rfl
    | some w =>
      have hw := hget w hform
      rw [hread] at hw
      cases hw
      exact .inr ((pdForm_eq_some hform).mp hv)
  · rintro ⟨hnodup,hfit⟩
    refine ⟨hnodup,fun m hm => ?_⟩
    obtain ⟨d,hd,hkind⟩ := hfit m hm
    obtain ⟨v,hv,hread⟩ := hwritten hnodup m hm d hd
    refine ⟨d,hd,fun w hw => ?_⟩
    rcases hkind with hnotSet | hkind
    · rw [hnotSet] at hw
      cases hw
    · rw [(pdForm_eq_some hw).mpr hkind] at hv
      cases hv
      exact hread

end Matches

section Actions
variable {gen : PdGenOptions} {info : IrP4Info} {options : TranslationOptions} {table : IrTableDefinition}

theorem irParamToPd_eq_ok {d : IrActionDefinition} {p : IrActionParam} {r : String × String} :
    irParamToPd gen d p = .ok r ↔ p.name ∈ d.pdFields ∧ r = (p.name,irValueString p.value) := by
  unfold irParamToPd getFieldDescriptor
  by_cases hname : p.name ∈ d.pdFields <;> simp [hname,eq_comm (a := r)]

private theorem mem_pdFields {d : IrActionDefinition} {name : String} :
    name ∈ d.pdFields ↔ ∃ x ∈ d.paramsById,x.2.param.name = name := by
  unfold IrActionDefinition.pdFields
  rw [List.mem_map]
  simp only [(List.perm_insertionSort _ _).mem_iff]

/-- The parameters of an action are distinct, known, and in the message with their texts. -/
structure ParamsKept (info : IrP4Info) (a : IrActionInvocation) (pd : Option PdAction) : Prop where
  distinct : (a.params.map IrActionParam.name).Nodup
  kept : ∀ p ∈ a.params,∃ d texts,info.actionsByName.lookup a.name = some d ∧
    (d.paramsByName.lookup p.name).isSome = true ∧ pd = some (some (a.name,texts)) ∧ texts p.name = irValueString p.value

theorem irActionInvocationToPd_spec {pd : PdAction}
    (h : irActionInvocationToPd gen info options table a = .ok pd) : ∃ d,info.actionsByName.lookup a.name = some d ∧
      unsupportedReason "Action" d.isUnsupported options = [] ∧ (∀ p ∈ a.params,p.name ∈ d.pdFields) ∧
      pd = some (a.name,(a.params.map fun p => (p.name,irValueString p.value)).foldl
        (fun texts x => Function.update texts x.1 x.2) fun _ => "") := by
  unfold irActionInvocationToPd at h
  split at h
  · cases h
  · rename_i d hd
    split at h
    · cases h
    · obtain ⟨hreasons,rfl⟩ := unlessInvalid_eq_ok.mp h
      obtain ⟨hsupported,hreasons⟩ := List.append_eq_nil_iff.mp hreasons
      have hparams := partitionResults_nil hreasons
      have hvalues : (partitionResults (irParamToPd gen d) a.params).2 = a.params.map fun p => (p.name,irValueString p.value) := by
        have hmap := map_eq_of_forall₂ (g := id) hparams fun p r hr => (irParamToPd_eq_ok.mp hr).2
        rw [← hmap,List.map_id]
      refine ⟨d,hd,hsupported,fun p hp => ?_,by rw [hvalues]⟩
      obtain ⟨r,-,hr⟩ := exists_of_forall₂_left hparams hp
      exact (irParamToPd_eq_ok.mp hr).1

theorem paramsKept_iff (hinfo : info.WellFormed) {pd : PdAction}
    (h : irActionInvocationToPd gen info options table a = .ok pd) :
    ParamsKept info a (some pd) ↔ (a.params.map IrActionParam.name).Nodup := by
  obtain ⟨d,hd,-,hknown,rfl⟩ := irActionInvocationToPd_spec h
  refine ⟨ParamsKept.distinct,fun hnodup => ⟨hnodup,fun p hp => ⟨d,_,hd,?_,rfl,?_⟩⟩⟩
  · obtain ⟨x,hx,hname⟩ := mem_pdFields.mp (hknown p hp)
    have hwf := hinfo.action _ (mem_of_lookup_eq_some (hinfo.actions.lookup_id hd).2)
    have hlookup := lookup_eq_some_of_mem hwf.params.nameNodup (hwf.params.ofId x hx).2
    rw [hname] at hlookup
    rw [hlookup]
    rfl
  · refine foldl_update_of_mem (κ := String) (β := String) ?_ (List.mem_map.mpr ⟨p,hp,rfl⟩) _
    rw [List.map_map]
    exact hnodup

theorem paramsKept_none : ParamsKept info a none ↔ a.params = [] := by
  constructor
  · intro h
    rw [List.eq_nil_iff_forall_not_mem]
    intro p hp
    obtain ⟨d,texts,-,-,hpd,-⟩ := h.kept p hp
    cases hpd
  · intro h
    exact ⟨by simp [h],by simp [h]⟩

/-- The parameters of every action of an entry are kept. -/
def ActionsKept (info : IrP4Info) (pd : PdTable) : IrTableEntryType → Prop
  | .notSet => True
  | .action a => ParamsKept info a pd.action
  | .actionSet actions => ∀ i (h : i < actions.length),
    ParamsKept info (actions.get ⟨i,h⟩).action (pd.wcmpActions[i]?.bind PdWcmpAction.action)

def IrTableEntryType.invocations : IrTableEntryType → List IrActionInvocation
  | .notSet => []
  | .action a => [a]
  | .actionSet actions => actions.map IrActionSetInvocation.action

/-- Actions of the kind that the table's message has, in a translation that is not of the key only. -/
def isTranslated (options : TranslationOptions) (table : IrTableDefinition) : IrTableEntryType → Bool
  | .notSet => false
  | .action _ => !options.keyOnly && !table.usesOneshot
  | .actionSet _ => !options.keyOnly && table.usesOneshot

/-- Actions that are translated and repeat no parameter, or that have none. -/
def ActionsFit (options : TranslationOptions) (table : IrTableDefinition) (type : IrTableEntryType) : Prop :=
  if isTranslated options table type then ∀ a ∈ type.invocations,(a.params.map IrActionParam.name).Nodup
  else ∀ a ∈ type.invocations,a.params = []

theorem irActionSetInvocationToPd_eq_ok {a : IrActionSetInvocation} {pd : PdWcmpAction} :
    irActionSetInvocationToPd gen info options table a = .ok pd ↔
      ∃ action,irActionInvocationToPd gen info options table a.action = .ok action ∧
        pd = ⟨some action,a.weight,a.watchPort⟩ := by
  unfold irActionSetInvocationToPd
  cases h : irActionInvocationToPd gen info options table a.action <;> simp [eq_comm (a := pd)]

theorem irActionSetToPd_eq_ok {actions : List IrActionSetInvocation} {pds : List PdWcmpAction} :
    irActionSetToPd gen info options table actions = .ok pds ↔
      List.Forall₂ (fun a pd => irActionSetInvocationToPd gen info options table a = .ok pd) actions pds := by
  unfold irActionSetToPd
  simp only [unlessInvalid_eq_ok]
  constructor
  · rintro ⟨hreasons,rfl⟩
    exact partitionResults_nil hreasons
  · intro h
    rw [partitionResults_eq h]
    exact ⟨rfl,rfl⟩

private theorem actionSetKept_iff (hinfo : info.WellFormed) {actions : List IrActionSetInvocation} {pds : List PdWcmpAction}
    (h : List.Forall₂ (fun a pd => irActionSetInvocationToPd gen info options table a = .ok pd) actions pds) :
    (∀ i (h : i < actions.length),ParamsKept info (actions.get ⟨i,h⟩).action (pds[i]?.bind PdWcmpAction.action)) ↔
      ∀ a ∈ actions,(a.action.params.map IrActionParam.name).Nodup := by
  have hplace : ∀ i (hi : i < actions.length),ParamsKept info (actions.get ⟨i,hi⟩).action (pds[i]?.bind PdWcmpAction.action) ↔
      ((actions.get ⟨i,hi⟩).action.params.map IrActionParam.name).Nodup := by
    intro i hi
    have hi' : i < pds.length := h.length_eq ▸ hi
    obtain ⟨action,haction,hpd⟩ := irActionSetInvocationToPd_eq_ok.mp (h.get hi hi')
    have hget : pds[i]?.bind PdWcmpAction.action = some action := by
      rw [List.getElem?_eq_getElem hi',Option.bind_some]
      exact congrArg PdWcmpAction.action hpd
    rw [hget]
    exact paramsKept_iff hinfo haction
  constructor
  · intro hkept a ha
    obtain ⟨⟨i,hi⟩,rfl⟩ := List.get_of_mem ha
    exact (hplace i hi).mp (hkept i hi)
  · exact fun hnodup i hi => (hplace i hi).mpr (hnodup _ (List.get_mem _ _))

private theorem actionsKept_nil {pd : PdTable} (haction : pd.action = none) (hwcmp : pd.wcmpActions = []) :
    ActionsKept info pd type ↔ ∀ a ∈ type.invocations,a.params = [] := by
  cases type with
  | notSet => simp [ActionsKept,IrTableEntryType.invocations]
  | action a => simp [ActionsKept,haction,paramsKept_none,IrTableEntryType.invocations]
  | actionSet actions =>
    rw [ActionsKept,hwcmp]
    simp only [List.getElem?_nil,Option.bind_none,paramsKept_none,IrTableEntryType.invocations,List.forall_mem_map]
    constructor
    · intro hparams a ha
      obtain ⟨⟨i,hi⟩,rfl⟩ := List.get_of_mem ha
      exact hparams i hi
    · exact fun hparams i hi => hparams _ (List.get_mem _ _)

theorem actionsKept_empty {pd : PdTable} (haction : pd.action = none) (hwcmp : pd.wcmpActions = [])
    (htranslated : isTranslated options table type = false) : ActionsKept info pd type ↔ ActionsFit options table type := by
  rw [actionsKept_nil haction hwcmp,ActionsFit,htranslated]
  simp

private theorem actionsKept_iff (hinfo : info.WellFormed) (hoptions : options.keyOnly = false)
    (h : (irTableActionToPd gen info options table type).1 = []) {pd : PdTable}
    (haction : pd.action = (irTableActionToPd gen info options table type).2.1)
    (hwcmp : pd.wcmpActions = (irTableActionToPd gen info options table type).2.2) :
    ActionsKept info pd type ↔ ActionsFit options table type := by
  unfold irTableActionToPd at h haction hwcmp
  cases honeshot : table.usesOneshot with
  | true =>
    simp only [honeshot,if_true] at h haction hwcmp
    cases hset : irActionSetToPd gen info options table type.setActions with
    | error status => simp [hset] at h
    | ok pds =>
      simp only [hset] at haction hwcmp
      cases type with
      | notSet => simp [ActionsKept,ActionsFit,isTranslated,IrTableEntryType.invocations]
      | action a => simp [ActionsKept,ActionsFit,isTranslated,IrTableEntryType.invocations,honeshot,haction,paramsKept_none]
      | actionSet actions =>
        have hmembers : List.Forall₂ (fun a pd => irActionSetInvocationToPd gen info options table a = .ok pd) actions pds :=
          irActionSetToPd_eq_ok.mp hset
        have hkept := actionSetKept_iff hinfo hmembers
        rw [ActionsKept,hwcmp]
        simpa [ActionsFit,isTranslated,IrTableEntryType.invocations,honeshot,hoptions] using hkept
  | false =>
    simp only [honeshot,Bool.false_eq_true,if_false] at h haction hwcmp
    cases type with
    | notSet => simp [ActionsKept,ActionsFit,isTranslated,IrTableEntryType.invocations]
    | action a =>
      cases ha : irActionInvocationToPd gen info options table a with
      | error status => simp [ha] at h
      | ok action =>
        simp only [ha] at haction
        rw [ActionsKept,haction,paramsKept_iff hinfo ha]
        simp [ActionsFit,isTranslated,IrTableEntryType.invocations,honeshot,hoptions]
    | actionSet actions =>
      exact actionsKept_empty haction hwcmp (by simp [isTranslated,honeshot])

end Actions

section TableEntries
variable {gen : PdGenOptions} {info : IrP4Info} {options : TranslationOptions} {table : IrTableDefinition}

theorem irTableKeyToPd_spec (h : (irTableKeyToPd gen options table ir).1 = []) :
    ∃ pdMatch,irMatchEntryToPd gen options table ir.matches_ = .ok pdMatch ∧
      (irTableKeyToPd gen options table ir).2 = { match_ := some pdMatch,priority := ir.priority } := by
  unfold irTableKeyToPd at h ⊢
  cases hmatch : irMatchEntryToPd gen options table ir.matches_ with
  | error status => simp [hmatch] at h
  | ok pdMatch => exact ⟨pdMatch,rfl,rfl⟩

/-- The message of an entry has kept its matches and the parameters of its actions. -/
def EntryKept (info : IrP4Info) (ir : IrTableEntry) (pd : PdTableEntry) : Prop :=
  ∃ table fieldName pdTable pdMatch,info.tablesByName.lookup ir.tableName = some table ∧ pd = .table fieldName pdTable ∧
    pdTable.match_ = some pdMatch ∧ MatchesKept table ir.matches_ pdMatch ∧ ActionsKept info pdTable ir.type

/-- What an entry has to be for its message to keep it. -/
def EntryFits (info : IrP4Info) (options : TranslationOptions) (ir : IrTableEntry) : Prop :=
  ∃ table,info.tablesByName.lookup ir.tableName = some table ∧ MatchesFit table ir.matches_ ∧
    ActionsFit options table ir.type

private theorem irTableEntryToPd_spec {pd : PdTableEntry} (h : irTableEntryToPd gen info ir options = .ok pd) :
    ∃ table pdTable pdMatch,info.tablesByName.lookup ir.tableName = some table ∧
      pd = .table (tableFieldName ir.tableName) pdTable ∧ pdTable.match_ = some pdMatch ∧
      irMatchEntryToPd gen options table ir.matches_ = .ok pdMatch ∧
      (options.keyOnly = true → pdTable = { match_ := some pdMatch,priority := ir.priority }) ∧
      (options.keyOnly = false → (irTableActionToPd gen info options table ir.type).1 = [] ∧
        pdTable.action = (irTableActionToPd gen info options table ir.type).2.1 ∧
        pdTable.wcmpActions = (irTableActionToPd gen info options table ir.type).2.2) := by
  unfold irTableEntryToPd at h
  split at h
  · cases h
  · rename_i table htable
    split at h
    · cases h
    · simp only at h
      cases hkeyOnly : options.keyOnly with
      | true =>
        rw [if_pos hkeyOnly] at h
        obtain ⟨hreasons,rfl⟩ := unlessInvalid_eq_ok.mp h
        obtain ⟨pdMatch,hmatch,hkey⟩ := irTableKeyToPd_spec hreasons
        refine ⟨table,_,pdMatch,htable,rfl,?_,hmatch,fun _ => hkey,by simp⟩
        rw [hkey]
      | false =>
        rw [if_neg (by simp [hkeyOnly])] at h
        obtain ⟨hreasons,rfl⟩ := unlessInvalid_eq_ok.mp h
        simp only [List.append_eq_nil_iff] at hreasons
        obtain ⟨pdMatch,hmatch,hkey⟩ := irTableKeyToPd_spec hreasons.1.1.1
        refine ⟨table,_,pdMatch,htable,rfl,?_,hmatch,by simp,fun _ => ⟨hreasons.1.1.2,rfl,rfl⟩⟩
        simp only [hkey]

private theorem entryKept_iff (hinfo : info.WellFormed) {pd : PdTableEntry}
    (h : irTableEntryToPd gen info ir options = .ok pd) : EntryKept info ir pd ↔ EntryFits info options ir := by
  obtain ⟨table,pdTable,pdMatch,htable,rfl,hpdMatch,hmatch,hkey,hfull⟩ := irTableEntryToPd_spec h
  have hactions : ActionsKept info pdTable ir.type ↔ ActionsFit options table ir.type := by
    cases hkeyOnly : options.keyOnly with
    | true =>
      obtain rfl := hkey hkeyOnly
      have htranslated : isTranslated options table ir.type = false := by
        cases htype : ir.type <;> simp [isTranslated,hkeyOnly]
      exact actionsKept_empty rfl rfl htranslated
    | false =>
      obtain ⟨hreasons,haction,hwcmp⟩ := hfull hkeyOnly
      exact actionsKept_iff hinfo hkeyOnly hreasons haction hwcmp
  constructor
  · rintro ⟨table',_,pdTable',pdMatch',htable',hpd,hpdMatch',hkept,hkeptActions⟩
    cases htable.symm.trans htable'
    cases hpd
    cases hpdMatch.symm.trans hpdMatch'
    exact ⟨table,htable,(matchesKept_iff hmatch).mp hkept,hactions.mp hkeptActions⟩
  · rintro ⟨table',htable',hfit,hfitActions⟩
    cases htable.symm.trans htable'
    exact ⟨table,_,pdTable,pdMatch,htable,rfl,hpdMatch,(matchesKept_iff hmatch).mpr hfit,hactions.mpr hfitActions⟩

end TableEntries

section Packets
variable {gen : PdGenOptions} {info : IrP4Info} {kind : PacketIoKind} {options : TranslationOptions}

/-- Every metadata names a declared field, no two the same one, and its text is in the message. -/
structure PacketKept (info : IrP4Info) (kind : PacketIoKind) (packet : IrPacketIo) (pd : PdPacketIo) : Prop where
  distinct : (packet.metadata.map IrPacketMetadata.name).Nodup
  kept : ∀ m ∈ packet.metadata,((info.packetMetadataByName kind).lookup m.name).isSome = true ∧
    ∃ texts,pd.metadata = some texts ∧ texts m.name = irValueString m.value

def IrValue.format : IrValue → Option Format
  | .notSet => none
  | .hexStr _ => some .hexString
  | .ipv4 _ => some .ipv4
  | .ipv6 _ => some .ipv6
  | .mac _ => some .mac
  | .str _ => some .string

/-- Metadata with distinct names, each with a value in the format of its field, or with an empty text. -/
structure PacketFits (info : IrP4Info) (kind : PacketIoKind) (packet : IrPacketIo) : Prop where
  distinct : (packet.metadata.map IrPacketMetadata.name).Nodup
  fit : ∀ m ∈ packet.metadata,∀ d,(info.packetMetadataByName kind).lookup m.name = some d →
    m.value.format = some d.format ∨ irValueString m.value = ""

theorem formattedString_eq_iff {value : IrValue} {format : Format} :
    irValueToFormattedString value format = irValueString value ↔ value.format = some format ∨ irValueString value = "" := by
  cases value <;> cases format <;>
    simp [irValueToFormattedString,irValueString,IrValue.format,eq_comm (a := "")]

theorem irMetadataToPd_eq_ok {m : IrPacketMetadata} {r : String × String} (h : irMetadataToPd gen info kind m = .ok r) :
    ∃ d,(info.packetMetadataByName kind).lookup m.name = some d ∧ r = (m.name,irValueToFormattedString m.value d.format) := by
  unfold irMetadataToPd at h
  split at h
  · cases h
  · rename_i d hd
    split_ifs at h
    simp only at h
    split at h
    · cases h
    · cases h
      exact ⟨d,hd,rfl⟩

private theorem packetKept_iff {packet : IrPacketIo} {pd : PdPacketIo} (h : irPacketIoToPd gen info kind packet options = .ok pd) :
    PacketKept info kind packet pd ↔ PacketFits info kind packet := by
  unfold irPacketIoToPd at h
  obtain ⟨hreasons,rfl⟩ := unlessInvalid_eq_ok.mp h
  have hvalues := partitionResults_nil hreasons
  generalize (partitionResults (irMetadataToPd gen info kind) packet.metadata).2 = values at hvalues
  have hnames : values.map Prod.fst = packet.metadata.map IrPacketMetadata.name := by
    refine map_eq_of_forall₂ hvalues fun m r hr => ?_
    obtain ⟨d,-,rfl⟩ := irMetadataToPd_eq_ok hr
    rfl
  -- With distinct names every field has the text that its format reads.
  have hread : (packet.metadata.map IrPacketMetadata.name).Nodup → ∀ m ∈ packet.metadata,∃ d texts,
      (info.packetMetadataByName kind).lookup m.name = some d ∧
      (if values.isEmpty then none
        else some (values.foldl (fun texts x => Function.update texts x.1 x.2) fun _ => "")) = some texts ∧
      texts m.name = irValueToFormattedString m.value d.format := by
    intro hnodup m hm
    obtain ⟨r,hr,hmr⟩ := exists_of_forall₂_left hvalues hm
    obtain ⟨d,hd,rfl⟩ := irMetadataToPd_eq_ok hmr
    have hne : values.isEmpty = false := by
      rw [Bool.eq_false_iff]
      intro hempty
      rw [List.isEmpty_iff.mp hempty] at hr
      cases hr
    exact ⟨d,_,hd,if_neg (by simp [hne]),foldl_update_of_mem (hnames ▸ hnodup) hr _⟩
  constructor
  · rintro ⟨hnodup,hkept⟩
    refine ⟨hnodup,fun m hm d hd => ?_⟩
    obtain ⟨d',texts,hd',htexts,htext⟩ := hread hnodup m hm
    cases hd.symm.trans hd'
    obtain ⟨-,texts',htexts',htext'⟩ := hkept m hm
    cases htexts.symm.trans htexts'
    exact formattedString_eq_iff.mp (htext.symm.trans htext')
  · rintro ⟨hnodup,hfit⟩
    refine ⟨hnodup,fun m hm => ?_⟩
    obtain ⟨d,texts,hd,htexts,htext⟩ := hread hnodup m hm
    exact ⟨by simp [hd],texts,htexts,htext.trans (formattedString_eq_iff.mpr (hfit m hm d hd))⟩

end Packets

/-- A translation to PD that succeeds has kept its input exactly when the input fits the schema. -/
theorem pd_keeps_iff {info : IrP4Info} (hinfo : info.WellFormed) (gen : PdGenOptions) (options : TranslationOptions) :
    (∀ ir pd,irTableEntryToPd gen info ir options = .ok pd → (EntryKept info ir pd ↔ EntryFits info options ir)) ∧
    (∀ kind packet pd,irPacketIoToPd gen info kind packet options = .ok pd →
      (PacketKept info kind packet pd ↔ PacketFits info kind packet)) :=
  ⟨fun _ _ h => entryKept_iff hinfo h,fun _ _ _ h => packetKept_iff h⟩

def vrfField : IrMatchFieldDefinition := { matchField := { id := 1,name := "vrf_id",bitwidth := 8,matchType := .exact } }

def exactTable : IrTableDefinition :=
  { preamble := { id := 1,aliasName := "vrf_table" },matchFieldsById := [(1,vrfField)],matchFieldsByName := [("vrf_id",vrfField)] }

def exactInfo : IrP4Info := { tablesById := [(1,exactTable)],tablesByName := [("vrf_table",exactTable)] }

/-- An entry with a match field that the table does not have. -/
def unknownMatch : IrTableEntry := { tableName := "vrf_table",matches_ := [⟨"vrf",.exact (.hexStr "0x01")⟩] }

def knownMatch : IrTableEntry := { tableName := "vrf_table",matches_ := [⟨"vrf_id",.exact (.hexStr "0x01")⟩] }

theorem known_match_is_kept : ∃ pd,irTableEntryToPd {} exactInfo knownMatch {} = .ok pd ∧ EntryKept exactInfo knownMatch pd := by
  obtain ⟨pd,hpd⟩ := exists_ok_of_isOk (show (irTableEntryToPd {} exactInfo knownMatch {}).isOk = true by decide)
  refine ⟨pd,hpd,((pd_keeps_iff (by decide) {} {}).1 knownMatch pd hpd).mpr ⟨exactTable,by decide,⟨by decide,?_⟩,?_⟩⟩
  · rintro m (_ | ⟨_,hm⟩)
    · exact ⟨vrfField,by decide,.inr rfl⟩
    · cases hm
  · simp [ActionsFit,isTranslated,knownMatch,IrTableEntryType.invocations]

/-- The match is left out of the message without an error. -/
theorem unknown_match_is_lost : ∃ pd,irTableEntryToPd {} exactInfo unknownMatch {} = .ok pd ∧
    ¬ EntryKept exactInfo unknownMatch pd := by
  obtain ⟨pd,hpd⟩ := exists_ok_of_isOk (show (irTableEntryToPd {} exactInfo unknownMatch {}).isOk = true by decide)
  refine ⟨pd,hpd,fun hkept => ?_⟩
  obtain ⟨table,_,_,_,htable,-,-,hmatches,-⟩ := hkept
  have hexact : exactInfo.tablesByName.lookup unknownMatch.tableName = some exactTable := by decide
  cases htable.symm.trans hexact
  obtain ⟨d,hd,-⟩ := hmatches.kept _ List.mem_cons_self
  have hunknown : exactTable.matchFieldsByName.lookup "vrf" = none := by decide
  cases hd.symm.trans hunknown

end SonicPins.Pdpi
