import SonicPins.Lib.Status
import SonicPins.Pdpi.IrToPi
import SonicPins.Pdpi.P4InfoConsistency

/-! What a successful translation consists of, part by part. -/
namespace SonicPins.Pdpi
open Lib

variable {table : IrTableDefinition} {validActions : List IrActionDefinition}

section Loops

theorem unlessInvalid_eq_ok {α : Type} {field : String} {reasons : List String} {a b : α} :
    unlessInvalid field reasons a = .ok b ↔ reasons = [] ∧ a = b := by
  unfold unlessInvalid
  cases reasons <;> simp

variable {α β κ : Type} [DecidableEq κ]

omit [DecidableEq κ] in
theorem partitionResults_nil {f : α → Except String β} {l : List α} (h : (partitionResults f l).1 = []) :
    List.Forall₂ (fun a b => f a = .ok b) l (partitionResults f l).2 := by
  induction l with
  | nil => exact .nil
  | cons a l ih =>
    unfold partitionResults at h ⊢
    cases ha : f a with
    | error reason => simp [ha] at h
    | ok b => exact .cons ha (ih (by simpa [ha] using h))

theorem partitionDistinct_nil {key : α → κ} {duplicate : κ → String} {f : α → Except String β} (used : List κ) {l : List α}
    (h : (partitionDistinct key duplicate f used l).1 = []) :
    List.Forall₂ (fun a b => f a = .ok b) l (partitionDistinct key duplicate f used l).2 ∧
      (l.map key).Nodup ∧ ∀ a ∈ l,key a ∉ used := by
  induction l generalizing used with
  | nil => exact ⟨.nil,List.nodup_nil,by simp⟩
  | cons a l ih =>
    unfold partitionDistinct at h ⊢
    by_cases hused : key a ∈ used
    · simp [hused] at h
    · cases ha : f a with
      | error reason => simp [hused,ha] at h
      | ok b =>
        obtain ⟨hrel,hnodup,hfresh⟩ := ih (key a :: used) (by simpa [hused,ha] using h)
        refine ⟨?_,?_,?_⟩
        · simpa [hused,ha] using hrel
        · refine List.nodup_cons.mpr ⟨fun hmem => ?_,hnodup⟩
          obtain ⟨a',ha',hkey⟩ := List.mem_map.mp hmem
          exact hfresh a' ha' (by simp [hkey])
        · rintro a' (_ | ⟨_,ha'⟩)
          · exact hused
          · exact fun hmem => hfresh a' ha' (by simp [hmem])

omit [DecidableEq κ] in
theorem partitionResults_eq {f : α → Except String β} {l : List α} {r : List β}
    (h : List.Forall₂ (fun a b => f a = .ok b) l r) : partitionResults f l = ([],r) := by
  induction h with
  | nil => rfl
  | cons hab _ ih => simp [partitionResults,hab,ih]

theorem partitionDistinct_eq {key : α → κ} {duplicate : κ → String} {f : α → Except String β} {used : List κ} {l : List α}
    {r : List β} (h : List.Forall₂ (fun a b => f a = .ok b) l r) (hnodup : (l.map key).Nodup) (hfresh : ∀ a ∈ l,key a ∉ used) :
    partitionDistinct key duplicate f used l = ([],r) := by
  induction h generalizing used with
  | nil => rfl
  | @cons a b l r hab _ ih =>
    obtain ⟨ha,hl⟩ := List.nodup_cons.mp hnodup
    have hrest : partitionDistinct key duplicate f (key a :: used) l = ([],r) := by
      refine ih hl fun x hx => ?_
      rw [List.mem_cons,not_or]
      exact ⟨fun heq => ha (List.mem_map.mpr ⟨x,hx,heq⟩),hfresh x (List.mem_cons_of_mem _ hx)⟩
    simp [partitionDistinct,hfresh a List.mem_cons_self,hab,hrest]

omit [DecidableEq κ] in
theorem nodup_of_forall₂ {ι : Type} {R : α → β → Prop} {key : α → κ} {name : β → ι} {l : List α} {r : List β}
    (h : List.Forall₂ R l r) (hnodup : (l.map key).Nodup)
    (hinjective : ∀ a b a' b',R a b → R a' b' → name b = name b' → key a = key a') : (r.map name).Nodup := by
  induction h with
  | nil => exact List.nodup_nil
  | @cons a b l r hab hrest ih =>
    obtain ⟨ha,hl⟩ := List.nodup_cons.mp hnodup
    refine List.nodup_cons.mpr ⟨fun hmem => ?_,ih hl⟩
    obtain ⟨b',hb',heq⟩ := List.mem_map.mp hmem
    obtain ⟨a',ha',hab'⟩ := exists_of_forall₂_right hrest hb'
    exact ha (List.mem_map.mpr ⟨a',ha',hinjective a' b' a b hab' hab heq⟩)

end Loops

section PiToIr
variable [InetText] {info : IrP4Info} {options : TranslationOptions}

/-- A table entry in IR form, from the PI of a table that exists. -/
structure TranslatedPiEntry (info : IrP4Info) (options : TranslationOptions) (pi : TableEntry) (ir : IrTableEntry)
    (table : IrTableDefinition) : Prop where
  found : info.tablesById.lookup pi.tableId = some table
  tableName : ir.tableName = table.preamble.aliasName
  priority : ir.priority = pi.priority
  supported : unsupportedReason ("Table '" ++ table.preamble.aliasName ++ "'") table.isUnsupported options = []
  matchReasons : (piMatchesToIr options table pi.matches_).1 = []
  matches_ : ir.matches_ = (piMatchesToIr options table pi.matches_).2.map Prod.snd
  mandatory : checkMandatoryMatches (mandatoryNames (piMatchesToIr options table pi.matches_).2) table = []
  priorityReasons :
    priorityReasons table pi.priority "Table entries with no ternary or optional matches cannot have a priority." = []
  actionReasons : options.keyOnly = false → (piTableActionToIr info options table pi.action).1 = []
  type : ir.type = if options.keyOnly then .notSet else (piTableActionToIr info options table pi.action).2
  meterConfig : ir.meterConfig = if options.keyOnly then none else pi.meterConfig
  counterData : ir.counterData = if options.keyOnly then none else pi.counterData
  meterCounterData : ir.meterCounterData = if options.keyOnly then none else pi.meterCounterData
  controllerMetadata : ir.controllerMetadata = if options.keyOnly then [] else pi.metadata
  meterReasons : options.keyOnly = false → meterReasons table pi.meterConfig.isSome = []
  meterCounterReasons : options.keyOnly = false →
    meterCounterReasons table pi.meterConfig.isSome pi.meterCounterData.isSome
      "Table does not support meters, but table entry contained a meter counter."
      "Pi entry does not have a meter config, but table entry contained a meter counter." = []
  counterReasons : options.keyOnly = false → counterReasons table pi.counterData.isSome = []

theorem piTableEntryToIr_spec {pi : TableEntry} {ir : IrTableEntry} (h : piTableEntryToIr info pi options = .ok ir) :
    ∃ table,TranslatedPiEntry info options pi ir table := by
  unfold piTableEntryToIr at h
  split at h
  · cases h
  · rename_i table htable
    refine ⟨table,?_⟩
    simp only at h
    split at h
    · rename_i hkey
      obtain ⟨hreasons,rfl⟩ := unlessInvalid_eq_ok.mp h
      simp only [List.append_eq_nil_iff] at hreasons
      constructor <;> simp [hkey,htable,hreasons]
    · rename_i hkey
      obtain ⟨hreasons,rfl⟩ := unlessInvalid_eq_ok.mp h
      simp only [List.append_eq_nil_iff] at hreasons
      constructor <;> simp [hkey,htable,hreasons]

theorem piMatchToIr_spec {m : FieldMatch} {r : IrMatchFieldDefinition × IrMatch}
    (h : piMatchToIr options table m = .ok r) : table.matchFieldsById.lookup m.fieldId = some r.1 ∧
      unsupportedReason "Match field" r.1.isUnsupported options = [] ∧ r.2.name = r.1.matchField.name ∧
      piMatchValueToIr r.1 m.value = .ok r.2.value := by
  unfold piMatchToIr at h
  split at h
  · cases h
  · rename_i d hd
    split at h
    · cases h
    · rename_i ir hir
      cases h
      unfold piMatchFieldToIr at hir
      simp only at hir
      split at hir
      · rename_i value hvalue
        obtain ⟨hreasons,rfl⟩ := unlessInvalid_eq_ok.mp hir
        exact ⟨hd,hreasons,rfl,hvalue⟩
      · cases hir

theorem piParamToIr_spec {action : IrActionDefinition} {p : ActionParamValue} {ir : IrActionParam}
    (h : piParamToIr action p = .ok ir) : ∃ d,action.paramsById.lookup p.paramId = some d ∧ ir.name = d.param.name ∧
      arbitraryByteStringToIrValue d.format d.param.bitwidth p.value = .ok ir.value := by
  unfold piParamToIr at h
  split at h
  · cases h
  · rename_i d hd
    split at h
    · cases h
    · rename_i value hvalue
      cases h
      exact ⟨d,hd,rfl,hvalue⟩

theorem piActionToIr_spec {a : Action} {ir : IrActionInvocation}
    (h : piActionToIr info options validActions a = .ok ir) : ∃ d,info.actionsById.lookup a.actionId = some d ∧
      (validActions.any fun v => v.preamble.id = a.actionId) = true ∧
      unsupportedReason "Action" d.isUnsupported options = [] ∧ (piParamsToIr d a.params).1 = [] ∧
      checkParams ((piParamsToIr d a.params).2.map IrActionParam.name) d = [] ∧ ir.name = d.preamble.aliasName ∧
      ir.params = (piParamsToIr d a.params).2 := by
  unfold piActionToIr at h
  split at h
  · cases h
  · rename_i d hd
    split_ifs at h with hvalid
    obtain ⟨hreasons,rfl⟩ := unlessInvalid_eq_ok.mp h
    simp only [List.append_eq_nil_iff] at hreasons
    exact ⟨d,hd,by simpa using hvalid,hreasons.1.1,hreasons.1.2,hreasons.2,rfl,rfl⟩

/-- The action of an entry in IR form. -/
inductive TranslatedPiAction (info : IrP4Info) (options : TranslationOptions) (table : IrTableDefinition) :
    Option TableAction → IrTableEntryType → Prop
  | notSet : table.entryActions.isEmpty = true → TranslatedPiAction info options table none .notSet
  | action {a : Action} {ir : IrActionInvocation} : table.entryActions.isEmpty = false → table.usesOneshot = false →
      piActionToIr info options table.entryActions a = .ok ir →
      TranslatedPiAction info options table (some (.action a)) (.action ir)
  | actionSet {actions : List ActionProfileAction} {irs : List IrActionSetInvocation} :
      table.entryActions.isEmpty = false → table.usesOneshot = true →
      List.Forall₂ (fun a ir => piActionProfileActionToIr info options table.entryActions a = .ok ir) actions irs →
      TranslatedPiAction info options table (some (.actionProfileActionSet actions)) (.actionSet irs)

theorem piTableActionToIr_spec {action : Option TableAction}
    (h : (piTableActionToIr info options table action).1 = []) :
    TranslatedPiAction info options table action (piTableActionToIr info options table action).2 := by
  unfold piTableActionToIr at h ⊢
  cases hactions : table.entryActions.isEmpty with
  | true =>
    cases action with
    | none => simpa [hactions] using .notSet hactions
    | some a => simp [hactions] at h
  | false =>
    simp only [hactions,Bool.false_eq_true,if_false] at h ⊢
    cases action with
    | none => simp at h
    | some action =>
      cases action with
      | action a =>
        simp only at h ⊢
        split_ifs at h ⊢ with honeshot
        cases ha : piActionToIr info options table.entryActions a with
        | error status => simp [ha] at h
        | ok ir => exact .action hactions (by simpa using honeshot) ha
      | actionProfileActionSet actions =>
        simp only at h ⊢
        split_ifs at h ⊢ with honeshot
        cases ha : piActionSetToIr info options table.entryActions actions with
        | error status => simp [ha] at h
        | ok irs =>
          unfold piActionSetToIr at ha
          obtain ⟨hreasons,rfl⟩ := unlessInvalid_eq_ok.mp ha
          exact .actionSet hactions (by simpa using honeshot) (partitionResults_nil hreasons)
      | notSet => simp at h
      | actionProfileMemberId _ => simp at h
      | actionProfileGroupId _ => simp at h

theorem piActionProfileActionToIr_spec {a : ActionProfileAction}
    {ir : IrActionSetInvocation} (h : piActionProfileActionToIr info options validActions a = .ok ir) :
    piActionToIr info options validActions a.action = .ok ir.action ∧ ¬ a.weight < 1 ∧ ir.weight = a.weight ∧
      ir.watchPort = a.watchPort := by
  unfold piActionProfileActionToIr at h
  split at h
  · cases h
  · rename_i action haction
    split_ifs at h with hweight
    cases h
    exact ⟨haction,hweight,rfl,rfl⟩

end PiToIr

section IrToPi
variable [InetText] {info : IrP4Info} {options : TranslationOptions}

/-- A table entry in PI form, from the IR of a table that exists. -/
structure TranslatedEntry (info : IrP4Info) (options : TranslationOptions) (ir : IrTableEntry) (pi : TableEntry)
    (table : IrTableDefinition) : Prop where
  found : info.tablesByName.lookup ir.tableName = some table
  tableId : pi.tableId = table.preamble.id
  priority : pi.priority = ir.priority
  matchReasons : (irMatchesToPi options table ir.matches_).1 = []
  matches_ : pi.matches_ = (irMatchesToPi options table ir.matches_).2.map Prod.snd
  actionReasons : options.keyOnly = false → (irTableActionToPi info options table ir.type).1 = []
  action : pi.action = if options.keyOnly then none else (irTableActionToPi info options table ir.type).2
  meterConfig : pi.meterConfig = if options.keyOnly then none else ir.meterConfig
  counterData : pi.counterData = if options.keyOnly then none else ir.counterData
  meterCounterData : pi.meterCounterData = if options.keyOnly then none else ir.meterCounterData
  metadata : pi.metadata = if options.keyOnly then [] else ir.controllerMetadata

theorem irTableEntryToPi_spec {ir : IrTableEntry} {pi : TableEntry} (h : irTableEntryToPi info ir options = .ok pi) :
    ∃ table,TranslatedEntry info options ir pi table := by
  unfold irTableEntryToPi at h
  split at h
  · cases h
  · rename_i table htable
    refine ⟨table,?_⟩
    simp only at h
    split at h
    · rename_i hkey
      obtain ⟨hreasons,rfl⟩ := unlessInvalid_eq_ok.mp h
      simp only [List.append_eq_nil_iff] at hreasons
      constructor <;> simp [hkey,htable,hreasons]
    · rename_i hkey
      obtain ⟨hreasons,rfl⟩ := unlessInvalid_eq_ok.mp h
      simp only [List.append_eq_nil_iff] at hreasons
      constructor <;> simp [hkey,htable,hreasons]

/-- The action of an entry in PI form. -/
inductive TranslatedAction (info : IrP4Info) (options : TranslationOptions) (table : IrTableDefinition) :
    IrTableEntryType → Option TableAction → Prop
  | notSet : TranslatedAction info options table .notSet none
  | action {a : IrActionInvocation} {pi : Action} : table.usesOneshot = false →
      irActionInvocationToPi info options table.entryActions a = .ok pi →
      TranslatedAction info options table (.action a) (some (.action pi))
  | actionSet {actions : List IrActionSetInvocation} {pis : List ActionProfileAction} : table.usesOneshot = true →
      List.Forall₂ (fun a pi => irActionSetInvocationToPi info options table.entryActions a = .ok pi) actions pis →
      TranslatedAction info options table (.actionSet actions) (some (.actionProfileActionSet pis))

theorem irTableActionToPi_spec {type : IrTableEntryType} (h : (irTableActionToPi info options table type).1 = []) :
    TranslatedAction info options table type (irTableActionToPi info options table type).2 := by
  cases type with
  | notSet =>
    simp only [irTableActionToPi]
    split <;> exact .notSet
  | action a =>
    unfold irTableActionToPi at h ⊢
    simp only at h ⊢
    split_ifs at h ⊢ with honeshot hactions
    cases ha : irActionInvocationToPi info options table.entryActions a with
    | error status => simp [ha] at h
    | ok pi => exact .action (by simpa using honeshot) ha
  | actionSet actions =>
    unfold irTableActionToPi at h ⊢
    simp only at h ⊢
    split_ifs at h ⊢ with honeshot hactions
    all_goals
      cases ha : irActionSetToPi info options table.entryActions actions with
      | error status => simp [ha] at h
      | ok pis =>
        unfold irActionSetToPi at ha
        obtain ⟨hreasons,rfl⟩ := unlessInvalid_eq_ok.mp ha
        exact .actionSet (by simpa using honeshot) (partitionResults_nil hreasons)

theorem irActionSetInvocationToPi_spec {a : IrActionSetInvocation}
    {pi : ActionProfileAction} (h : irActionSetInvocationToPi info options validActions a = .ok pi) :
    irActionInvocationToPi info options validActions a.action = .ok pi.action ∧ ¬ a.weight < 1 ∧ pi.weight = a.weight ∧
      pi.watchPort = a.watchPort := by
  unfold irActionSetInvocationToPi at h
  split at h
  · cases h
  · rename_i action haction
    split_ifs at h with hweight
    cases h
    exact ⟨haction,hweight,rfl,rfl⟩

end IrToPi

variable [InetText] (info : IrP4Info) (options : TranslationOptions)

/-- A translation never fails with the status of a success. -/
abbrev FailsNotOk {α : Type} (r : StatusOr α) : Prop := FailsWith (fun s => s.isOk = false) r

omit [InetText] in
theorem unlessInvalid_notOk {α : Type} (field : String) (reasons : List String) (a : α) :
    FailsNotOk (unlessInvalid field reasons a) := by
  unfold unlessInvalid
  split
  · exact failsWith_ok a
  · exact (failsWith_error _).mpr rfl

omit [InetText] in
theorem annotate_notOk {α : Type} {r : StatusOr α} (h : FailsNotOk r) (note : String) :
    FailsNotOk (r.mapError (·.annotate note)) := h.mapError fun _ hs => hs

theorem piTableEntryToIr_notOk (pi : TableEntry) : FailsNotOk (piTableEntryToIr info pi options) := by
  unfold piTableEntryToIr
  split
  · exact (failsWith_error _).mpr rfl
  · simp only
    split
    · exact unlessInvalid_notOk _ _ _
    · exact unlessInvalid_notOk _ _ _

theorem irTableEntryToPi_notOk (ir : IrTableEntry) : FailsNotOk (irTableEntryToPi info ir options) := by
  unfold irTableEntryToPi
  split
  · exact (failsWith_error _).mpr rfl
  · simp only
    split
    · exact unlessInvalid_notOk _ _ _
    · exact unlessInvalid_notOk _ _ _

omit [InetText] in
theorem piMulticastGroupEntryToIr_notOk (pi : MulticastGroupEntry) : FailsNotOk (piMulticastGroupEntryToIr pi options) := by
  unfold piMulticastGroupEntryToIr
  split
  · exact failsWith_ok _
  · exact unlessInvalid_notOk _ _ _

omit [InetText] in
private theorem irMulticastGroupEntryToPi_notOk (ir : IrMulticastGroupEntry) : FailsNotOk (irMulticastGroupEntryToPi ir options) := by
  unfold irMulticastGroupEntryToPi
  split
  · exact failsWith_ok _
  · exact unlessInvalid_notOk _ _ _

theorem irEntityToPi_notOk (ir : IrEntity) : FailsNotOk (irEntityToPi info ir options) := by
  cases ir with
  | tableEntry e => exact (irTableEntryToPi_notOk info options e).map _
  | packetReplicationEngineEntry e =>
    refine FailsWith.map ?_ _
    cases e with
    | multicastGroupEntry e => exact (irMulticastGroupEntryToPi_notOk options e).map _
    | cloneSessionEntry e =>
      refine FailsWith.map ?_ _
      unfold irCloneSessionEntryToPi
      split
      · exact failsWith_ok _
      · exact failsWith_ok _

end SonicPins.Pdpi
