import SonicPins.Pdpi.MulticastMeaning
import SonicPins.Pdpi.PdLosses
import SonicPins.Pdpi.PdReading

/-! The projection of a PD table entry to its key, beside the translation of the key to
IR and back. -/
namespace SonicPins.Pdpi
open Lib Packetlib

def PdMatchMessage.matchType : PdMatchMessage → MatchType
  | .lpm _ _ => .lpm
  | .ternary _ _ => .ternary
  | .optional _ => .optional

/-- The set fields of a `Match` message are fields of the table, with the types that they are declared with. -/
structure PdMatch.Conforms (table : IrTableDefinition) (pd : PdMatch) : Prop where
  text : ∀ name,pd.text name ≠ "" → ∃ d,table.matchFieldsByName.lookup name = some d ∧ d.matchField.matchType = .exact
  message : ∀ name m,pd.message name = some m →
    ∃ d,table.matchFieldsByName.lookup name = some d ∧ d.matchField.matchType = m.matchType

/-- The set fields of a table's message are fields that the message has. -/
structure PdTable.Conforms (table : IrTableDefinition) (pd : PdTable) : Prop where
  match_ : ∀ m ∈ pd.match_,m.Conforms table
  priority : table.hasPriority = false → pd.priority = 0
  action : table.usesOneshot = true → pd.action = none
  wcmpActions : table.usesOneshot = false → pd.wcmpActions = []
  meterConfig : table.hasMeter = false → pd.meterConfig = none
  counterData : table.hasCounter = false → pd.counterData = none
  meterCounterData : table.hasMeter = false ∨ table.hasCounter = false → pd.meterCounterData = none

/-- A message of the proto that is generated for the P4Info. -/
def PdTableEntry.Conforms (gen : PdGenOptions) (info : IrP4Info) : PdTableEntry → Prop
  | .notSet => True
  | .multicastGroupTableEntry _ => "multicast_group_table_entry" ∈ pdEntryFields gen info
  | .table fieldName pd => fieldName ∈ pdEntryFields gen info ∧
    ∀ p4Name table,fieldName = tableFieldName p4Name → info.tablesByName.lookup p4Name = some table → pd.Conforms table

private theorem controllerMetadata_mem_pdFields (table : IrTableDefinition) : "controller_metadata" ∈ table.pdFields := by
  simp [IrTableDefinition.pdFields]

private theorem action_mem_pdFields (table : IrTableDefinition) :
    (if table.usesOneshot then "wcmp_actions" else "action") ∈ table.pdFields := by simp [IrTableDefinition.pdFields]

theorem meter_notMem_pdFields (table : IrTableDefinition) : "meter" ∉ table.pdFields ∧ "counter" ∉ table.pdFields := by
  unfold IrTableDefinition.pdFields
  split_ifs <;> simp

section Matches
variable {gen : PdGenOptions} {options : TranslationOptions} {info : IrP4Info} {table : IrTableDefinition} {pd : PdMatch}

/-- The content of a field that is read. -/
def PdMatch.content (pd : PdMatch) (x : String × IrMatchFieldDefinition) : PdFieldValue :=
  match pd.message x.1 with
  | some m => .message m
  | none => .text (pd.text x.1)

theorem ReadField.content_cases (hpd : pd.Conforms table) {x : String × IrMatchFieldDefinition} (hx : ReadField table pd x) :
    (x.2.matchField.matchType = .exact ∧ pd.message x.1 = none) ∨
      (pd.text x.1 = "" ∧ ∃ m,pd.message x.1 = some m ∧ x.2.matchField.matchType = m.matchType) := by
  cases hm : pd.message x.1 with
  | some m =>
    obtain ⟨d,hd,htype⟩ := hpd.message x.1 m hm
    cases hd.symm.trans hx.found
    refine .inr ⟨?_,m,rfl,htype⟩
    by_contra htext
    obtain ⟨d,hd,hexact⟩ := hpd.text x.1 htext
    cases hd.symm.trans hx.found
    rw [htype] at hexact
    cases m <;> cases hexact
  | none =>
    left
    refine ⟨?_,rfl⟩
    by_contra hexact
    have hread := hx.read
    simp only [isRead,PdMatch.has,hm,hexact,decide_false,Bool.or_false,Option.isSome_none,decide_eq_true_eq,ne_eq] at hread
    obtain ⟨d,hd,htype⟩ := hpd.text x.1 hread
    cases hd.symm.trans hx.found
    exact hexact htype

theorem ReadField.back (htable : table.WellFormed info) (hpd : pd.Conforms table) {x : String × IrMatchFieldDefinition}
    (hx : ReadField table pd x) {m : IrMatch} (h : pdMatchToIr options pd x = .ok m) :
    irMatchToPd gen options table m = .ok (some (x.1,pd.content x)) := by
  unfold pdMatchToIr at h
  cases hvalue : pdMatchValueToIr x.2 pd x.1 with
  | error reasons => simp [hvalue] at h
  | ok value =>
    simp only [hvalue] at h
    split_ifs at h with hsupported
    cases h
    rw [irMatchToPd_eq_ok]
    refine .inr ⟨x.2,hx.found,List.isEmpty_iff.mp hsupported,mem_pdMatchFields htable hx.found,pd.content x,?_,rfl⟩
    rcases hx.content_cases hpd with ⟨hexact,hnone⟩ | ⟨-,msg,hmsg,htype⟩
    · rw [pdMatchValueToIr,hexact] at hvalue
      cases hvalue
      simp [hexact,pdFieldValue,IrMatchValue.exactValue,irValueString_formatted,PdMatch.content,hnone]
    · cases msg with
      | lpm text prefixLength =>
        simp only [PdMatchMessage.matchType] at htype
        simp only [pdMatchValueToIr,htype,PdMatch.lpm,hmsg] at hvalue
        split_ifs at hvalue
        cases hvalue
        simp [htype,pdFieldValue,IrMatchValue.lpmValue,irValueString_formatted,PdMatch.content,hmsg]
      | ternary text mask =>
        simp only [PdMatchMessage.matchType] at htype
        simp only [pdMatchValueToIr,htype,PdMatch.ternary,hmsg] at hvalue
        cases hvalue
        simp [htype,pdFieldValue,IrMatchValue.ternaryValue,irValueString_formatted,PdMatch.content,hmsg]
      | optional text =>
        simp only [PdMatchMessage.matchType] at htype
        simp only [pdMatchValueToIr,htype,PdMatch.optional,hmsg] at hvalue
        cases hvalue
        simp [htype,pdFieldValue,IrMatchValue.optionalValue,irValueString_formatted,PdMatch.content,hmsg]
private theorem foldl_content (htable : table.WellFormed info) (hpd : pd.Conforms table) :
    ((readFields table pd).map fun x => (x.1,pd.content x)).foldl (fun pd x => pd.set x.1 x.2) ({} : PdMatch) = pd := by
  have hnames : ((readFields table pd).map fun x => (x.1,pd.content x)).map Prod.fst = (readFields table pd).map Prod.fst := by
    rw [List.map_map]
    rfl
  have hshown : ∀ name,(fun (pd : PdMatch) name => (pd.text name,pd.message name))
      (((readFields table pd).map fun x => (x.1,pd.content x)).foldl (fun pd x => pd.set x.1 x.2) ({} : PdMatch)) name =
        (pd.text name,pd.message name) := by
    intro name
    by_cases hname : name ∈ (readFields table pd).map Prod.fst
    · obtain ⟨x,hx,rfl⟩ := List.mem_map.mp hname
      obtain ⟨before,hbefore,hafter⟩ := observe_foldl_of_mem writesAt_set (hnames ▸ readFields_nodup htable)
        (List.mem_map.mpr ⟨x,hx,rfl⟩) ({} : PdMatch)
      obtain ⟨htext,hmessage⟩ := Prod.mk.inj hbefore
      refine hafter.trans ?_
      rcases ((mem_readFields htable).mp hx).content_cases hpd with ⟨-,hnone⟩ | ⟨hempty,m,hm,-⟩
      · simp [PdMatch.content,hnone,PdMatch.set,hmessage]
      · simp [PdMatch.content,hm,PdMatch.set,htext,hempty]
    · refine (observe_foldl_of_notMem writesAt_set (hnames ▸ hname) ({} : PdMatch)).trans ?_
      -- A field of the table that is set is read.
      have hunset : ∀ d,table.matchFieldsByName.lookup name = some d → pd.has name = false := by
        intro d hd
        rw [Bool.eq_false_iff]
        intro hhas
        exact hname (List.mem_map.mpr ⟨(name,d),(mem_readFields htable).mpr ⟨hd,by simp [isRead,hhas]⟩,rfl⟩)
      have htext : pd.text name = "" := by
        by_contra htext
        obtain ⟨d,hd,-⟩ := hpd.text name htext
        simpa [PdMatch.has,htext] using hunset d hd
      have hmessage : pd.message name = none := by
        cases hm : pd.message name with
        | none => rfl
        | some m =>
          obtain ⟨d,hd,-⟩ := hpd.message name m hm
          simpa [PdMatch.has,hm] using hunset d hd
      rw [htext,hmessage]
  have htext : ∀ name,_ := fun name => (Prod.mk.inj (hshown name)).1
  have hmessage : ∀ name,_ := fun name => (Prod.mk.inj (hshown name)).2
  obtain ⟨text,message⟩ := pd
  exact PdMatch.mk.injEq _ _ _ _ ▸ ⟨funext htext,funext hmessage⟩

private theorem written_back (htable : table.WellFormed info) (hpd : pd.Conforms table) {read : List (String × IrMatchFieldDefinition)}
    (hread : ∀ x ∈ read,ReadField table pd x) {ms : List IrMatch}
    (h : List.Forall₂ (fun x m => pdMatchToIr options pd x = .ok m) read ms) :
    List.Forall₂ (fun m r => irMatchToPd gen options table m = .ok r) ms (read.map fun x => some (x.1,pd.content x)) := by
  induction h with
  | nil => exact .nil
  | cons hm _ ih =>
    obtain ⟨hx,hrest⟩ := List.forall_mem_cons.mp hread
    exact .cons (hx.back htable hpd hm) (ih hrest)

private theorem irMatchEntryToPd_of_pdMatchEntryToIr (htable : table.WellFormed info) (hpd : pd.Conforms table) {ms : List IrMatch}
    (h : pdMatchEntryToIr options table pd = .ok ms) : irMatchEntryToPd gen options table ms = .ok pd := by
  rw [irMatchEntryToPd_eq_ok]
  refine ⟨_,written_back htable hpd (fun x => (mem_readFields htable).mp) ((pdMatchEntryToIr_eq_ok htable).mp h),?_⟩
  have hvalues : ((readFields table pd).map fun x => some (x.1,pd.content x)).reduceOption =
      (readFields table pd).map fun x => (x.1,pd.content x) := by
    rw [List.reduceOption,List.filterMap_map]
    exact congrFun (List.filterMap_eq_map (f := fun x => (x.1,pd.content x))) _
  rw [hvalues]
  exact foldl_content htable hpd

end Matches

section Projection
variable {gen : PdGenOptions} {info : IrP4Info} {table : IrTableDefinition} {pd : PdTable}

def PdTableEntry.key : PdTableEntry → PdTableEntry
  | .notSet => .notSet
  | .multicastGroupTableEntry entry => .multicastGroupTableEntry { match_ := entry.match_ }
  | .table fieldName pd => .table fieldName { match_ := pd.match_,priority := pd.priority }

private theorem clearField_controllerMetadata :
    pd.clearField gen table "controller_metadata" = .ok { pd with controllerMetadata := [] } := by
  unfold PdTable.clearField
  rw [getFieldDescriptor_eq_ok.mpr (controllerMetadata_mem_pdFields table)]
  rfl

private theorem clearField_action : pd.clearField gen table (if table.usesOneshot then "wcmp_actions" else "action") =
    .ok (if table.usesOneshot then { pd with wcmpActions := [] } else { pd with action := none }) := by
  unfold PdTable.clearField
  rw [getFieldDescriptor_eq_ok.mpr (action_mem_pdFields table)]
  cases table.usesOneshot <;> rfl

theorem clearFieldIf_eq_ok {c : Bool} {fieldname : String} (h : fieldname ∉ table.pdFields) {r : PdTable} :
    pd.clearFieldIf gen table c fieldname = .ok r ↔ c = false ∧ pd = r := by
  unfold PdTable.clearFieldIf PdTable.clearField getFieldDescriptor
  cases c <;> simp [h,Except.map]

theorem pdTableEntryToOnlyKeyPd_table {p4Name : String} (hlookup : info.tablesByName.lookup p4Name = some table)
    (hname : tableFieldName p4Name ≠ "multicast_group_table_entry") {key : PdTableEntry} : pdTableEntryToOnlyKeyPd gen info
      (.table (tableFieldName p4Name) pd) = .ok key ↔
      table.hasMeter = false ∧ table.hasCounter = false ∧ .table (tableFieldName p4Name)
        (if table.usesOneshot then { pd with controllerMetadata := [],wcmpActions := [] }
          else { pd with controllerMetadata := [],action := none }) = key := by
  unfold pdTableEntryToOnlyKeyPd
  simp only [bind_eq_ok,protobufFieldNameToP4Name_eq_ok.mpr rfl,Except.ok.injEq,exists_eq_left',hlookup,
    if_neg hname,clearField_controllerMetadata,clearField_action,clearFieldIf_eq_ok (meter_notMem_pdFields table).1,
    clearFieldIf_eq_ok (meter_notMem_pdFields table).2]
  cases table.usesOneshot <;> simp

private theorem cleared_eq_key (hpd : pd.Conforms table) (hmeter : table.hasMeter = false) (hcounter : table.hasCounter = false) :
    (if table.usesOneshot then { pd with controllerMetadata := [],wcmpActions := [] }
      else { pd with controllerMetadata := [],action := none }) =
      ({ match_ := pd.match_,priority := pd.priority } : PdTable) := by
  have hconfig := hpd.meterConfig hmeter
  have hdata := hpd.counterData hcounter
  have hcolors := hpd.meterCounterData (.inl hmeter)
  cases honeshot : table.usesOneshot with
  | true =>
    have haction := hpd.action honeshot
    simp [hconfig,hdata,hcolors,haction]
  | false =>
    have hactions := hpd.wcmpActions honeshot
    simp [hconfig,hdata,hcolors,hactions]

end Projection

section Keys
variable {gen : PdGenOptions} {info : IrP4Info} {options : TranslationOptions} {table : IrTableDefinition} {pd : PdTable}

def onlyKey (options : TranslationOptions) : TranslationOptions := { options with keyOnly := true }

private theorem pdTableEntryToIrTableEntry_onlyKey {fieldName : String} {ir : IrTableEntry}
    (h : pdTableEntryToIrTableEntry info fieldName pd (full options) = .ok ir) : ∃ p4Name table ms,
      fieldName = tableFieldName p4Name ∧ info.tablesByName.lookup p4Name = some table ∧
      unsupportedReason ("Table '" ++ p4Name ++ "'") table.isUnsupported (onlyKey options) = [] ∧
      pdMatchEntryToIr (onlyKey options) table (pd.match_.getD {}) = .ok ms ∧
      pdTableEntryToIrTableEntry info fieldName pd (onlyKey options) =
        .ok { tableName := p4Name,matches_ := ms,priority := if "priority" ∈ table.pdFields then pd.priority else 0 } := by
  unfold pdTableEntryToIrTableEntry at h ⊢
  cases hp4Name : protobufFieldNameToP4Name fieldName with
  | error status => simp [hp4Name] at h
  | ok p4Name =>
    cases htable : info.tablesByName.lookup p4Name with
    | none => simp [hp4Name,htable] at h
    | some table =>
      simp only [hp4Name,htable] at h
      rw [if_neg (by simp [full])] at h
      obtain ⟨hreasons,-⟩ := unlessInvalid_eq_ok.mp h
      simp only [List.append_eq_nil_iff] at hreasons
      have hkey : (pdTableKeyToIr (onlyKey options) table p4Name pd).1 = [] := hreasons.1.1.1.1
      cases hmatch : pdMatchEntryToIr (onlyKey options) table (pd.match_.getD {}) with
      | error status => simp [pdTableKeyToIr,hmatch] at hkey
      | ok ms =>
        refine ⟨p4Name,table,ms,protobufFieldNameToP4Name_eq_ok.mp hp4Name,htable,?_,hmatch,?_⟩
        · simpa [pdTableKeyToIr,hmatch] using hkey
        · simp only [htable]
          rw [if_pos (show (onlyKey options).keyOnly = true from rfl),unlessInvalid_eq_ok]
          exact ⟨hkey,by simp [pdTableKeyToIr,hmatch]⟩

private theorem irTableEntryToPd_onlyKey {p4Name : String} (hlookup : info.tablesByName.lookup p4Name = some table)
    (hfield : tableFieldName p4Name ∈ pdEntryFields gen info)
    (hsupported : unsupportedReason ("Table '" ++ p4Name ++ "'") table.isUnsupported (onlyKey options) = []) {ms : List IrMatch}
    {pdMatch : PdMatch} (hmatch : irMatchEntryToPd gen (onlyKey options) table ms = .ok pdMatch) {priority : Int32}
    (hpriority : priority ≠ 0 → "priority" ∈ table.pdFields) :
    irTableEntryToPd gen info { tableName := p4Name,matches_ := ms,priority := priority } (onlyKey options) =
      .ok (.table (tableFieldName p4Name) { match_ := some pdMatch,priority := priority }) := by
  unfold irTableEntryToPd
  simp only [hlookup,getFieldDescriptor_eq_ok.mpr hfield]
  rw [if_pos (by rfl),unlessInvalid_eq_ok]
  unfold irTableKeyToPd
  simp only [hmatch,hsupported,List.nil_append,and_true]
  split_ifs with hzero
  · rfl
  · rw [getFieldDescriptor_eq_ok.mpr (hpriority hzero)]

private theorem pdMulticastGroupEntryToIr_onlyKey {entry : PdMulticastGroupTableEntry} {ir : IrMulticastGroupEntry}
    (h : pdMulticastGroupEntryToIr entry (full options) = .ok ir) : ∃ text groupId,entry.match_ = some text ∧
      hexStringToUint32 text = .ok groupId ∧
      pdMulticastGroupEntryToIr entry (onlyKey options) = .ok { multicastGroupId := groupId } := by
  unfold pdMulticastGroupEntryToIr at h ⊢
  cases hmatch : entry.match_ with
  | none => simp [hmatch] at h
  | some text =>
    cases hempty : text.isEmpty with
    | true => simp [hmatch,hempty] at h
    | false =>
      cases hid : hexStringToUint32 text with
      | error status => simp [hmatch,hempty,hid] at h
      | ok groupId => exact ⟨text,groupId,rfl,hid,by simp [hempty,hid,onlyKey]⟩

end Keys

variable {gen : PdGenOptions} {info : IrP4Info} {options : TranslationOptions}

/-- The projection succeeds, is idempotent, leaves the key and nothing else, and is the translation of the key
to IR and back. -/
def KeyProjectionCommutes (gen : PdGenOptions) (info : IrP4Info) (options : TranslationOptions) (pd : PdTableEntry) : Prop :=
  ∃ key,pdTableEntryToOnlyKeyPd gen info pd = .ok key ∧ pdTableEntryToOnlyKeyPd gen info key = .ok key ∧ key = pd.key ∧
    ∃ ir,pdTableEntryToIrEntity gen info pd (onlyKey options) = .ok ir ∧
      irEntityToPdTableEntry gen info ir (onlyKey options) = .ok key

/-- An entry of a table without meter and counter that has its match message, or a multicast group without metadata
whose id is written as 16 bits. -/
def KeyFits (info : IrP4Info) : PdTableEntry → Prop
  | .notSet => False
  | .multicastGroupTableEntry entry =>
    entry.metadata = [] ∧ ∃ groupId : UInt32,groupId.toNat < 2 ^ 16 ∧ entry.match_ = some (bitsetToHexString 16 groupId.toNat)
  | .table fieldName pd => pd.match_.isSome = true ∧ ∀ p4Name table,fieldName = tableFieldName p4Name →
    info.tablesByName.lookup p4Name = some table → table.hasMeter = false ∧ table.hasCounter = false

private theorem table_commutes_iff (hinfo : info.WellFormed) {fieldName : String} {pd : PdTable}
    (hpd : (PdTableEntry.table fieldName pd).Conforms gen info) {ir : IrTableEntry}
    (hname : fieldName ≠ "multicast_group_table_entry") (h : pdTableEntryToIrTableEntry info fieldName pd (full options) = .ok ir) :
    KeyProjectionCommutes gen info options (.table fieldName pd) ↔ KeyFits info (.table fieldName pd) := by
  obtain ⟨p4Name,table,ms,rfl,hlookup,hsupported,hms,hir⟩ := pdTableEntryToIrTableEntry_onlyKey h
  obtain ⟨hfield,hfields⟩ := hpd
  have hfits := hfields p4Name table rfl hlookup
  have htable := hinfo.table _ (mem_of_lookup_eq_some (hinfo.tables.lookup_id hlookup).2)
  have hpdMatch : (pd.match_.getD {}).Conforms table := by
    cases hm : pd.match_ with
    | none => exact ⟨fun _ hne => absurd rfl hne,by simp⟩
    | some m => exact hfits.match_ m hm
  have hpriority : (if "priority" ∈ table.pdFields then pd.priority else 0) = pd.priority := by
    split_ifs with hpriority
    · rfl
    · rw [priority_mem_pdFields,Bool.not_eq_true] at hpriority
      exact (hfits.priority hpriority).symm
  rw [hpriority] at hir
  have hback : irTableEntryToPd gen info { tableName := p4Name,matches_ := ms,priority := pd.priority } (onlyKey options) =
      .ok (.table (tableFieldName p4Name) { match_ := some (pd.match_.getD {}),priority := pd.priority }) := by
    refine irTableEntryToPd_onlyKey hlookup hfield hsupported (irMatchEntryToPd_of_pdMatchEntryToIr htable hpdMatch hms) ?_
    intro hne
    rw [priority_mem_pdFields]
    by_contra hnone
    exact hne (hfits.priority (Bool.not_eq_true _ ▸ hnone))
  constructor
  · rintro ⟨key,hkey,-,rfl,ir',hir',hpd⟩
    obtain ⟨hmeter,hcounter,-⟩ := (pdTableEntryToOnlyKeyPd_table hlookup hname).mp hkey
    simp only [pdTableEntryToIrEntity,if_neg hname,hir] at hir'
    cases hir'
    rw [irEntityToPdTableEntry,hback] at hpd
    simp only [PdTableEntry.key,Except.ok.injEq,PdTableEntry.table.injEq,true_and,PdTable.mk.injEq] at hpd
    refine ⟨by rw [← hpd.1]; rfl,fun p4Name' table' hname hlookup' => ?_⟩
    cases tableFieldName_inj.mp hname
    cases hlookup.symm.trans hlookup'
    exact ⟨hmeter,hcounter⟩
  · rintro ⟨hmatch,htables⟩
    obtain ⟨hmeter,hcounter⟩ := htables p4Name table rfl hlookup
    obtain ⟨m,hm⟩ := Option.isSome_iff_exists.mp hmatch
    have hprojects : ∀ r : PdTable,(if table.usesOneshot then { r with controllerMetadata := [],wcmpActions := [] }
        else { r with controllerMetadata := [],action := none }) = ({ match_ := pd.match_,priority := pd.priority } : PdTable) →
        pdTableEntryToOnlyKeyPd gen info (.table (tableFieldName p4Name) r) =
          .ok (PdTableEntry.table (tableFieldName p4Name) pd).key := by
      intro r hr
      rw [pdTableEntryToOnlyKeyPd_table hlookup hname,hr]
      exact ⟨hmeter,hcounter,rfl⟩
    have hread : pdTableEntryToIrEntity gen info (.table (tableFieldName p4Name) pd) (onlyKey options) = .ok (.tableEntry _) :=
      (if_neg hname).trans (map_eq_ok.mpr ⟨_,hir,rfl⟩)
    refine ⟨_,hprojects _ (cleared_eq_key hfits hmeter hcounter),hprojects _ ?_,rfl,_,hread,?_⟩
    · cases table.usesOneshot <;> rfl
    · rw [irEntityToPdTableEntry,hback,hm]
      simp [PdTableEntry.key,hm]

private theorem multicast_commutes_iff {entry : PdMulticastGroupTableEntry}
    (hpd : (PdTableEntry.multicastGroupTableEntry entry).Conforms gen info) {ir : IrMulticastGroupEntry}
    (h : pdMulticastGroupEntryToIr entry (full options) = .ok ir) :
    KeyProjectionCommutes gen info options (.multicastGroupTableEntry entry) ↔ KeyFits info (.multicastGroupTableEntry entry) := by
  obtain ⟨text,groupId,htext,hid,hir⟩ := pdMulticastGroupEntryToIr_onlyKey h
  have hback : irEntityToPdTableEntry gen info (.packetReplicationEngineEntry (.multicastGroupEntry { multicastGroupId := groupId }))
      (onlyKey options) = .ok (.multicastGroupTableEntry { match_ := some (bitsetToHexString 16 groupId.toNat) }) := by
    rw [irEntityToPdTableEntry,irPacketReplicationEngineEntryToPd,getFieldDescriptor_eq_ok.mpr hpd]
    rfl
  constructor
  · rintro ⟨key,hkey,-,rfl,ir',hir',hpd⟩
    rw [pdTableEntryToIrEntity,hir] at hir'
    cases hir'
    rw [hback] at hpd
    simp only [PdTableEntry.key,Except.ok.injEq,PdTableEntry.multicastGroupTableEntry.injEq,
      PdMulticastGroupTableEntry.mk.injEq,and_true,htext,Option.some.injEq] at hpd
    simp only [pdTableEntryToOnlyKeyPd,PdTableEntry.key,Except.ok.injEq,PdTableEntry.multicastGroupTableEntry.injEq,
      PdMulticastGroupTableEntry.mk.injEq,true_and] at hkey
    refine ⟨hkey,groupId,?_,by rw [htext,hpd]⟩
    rw [← hpd,hexStringToUint32_bitsetToHexString] at hid
    exact sixteenBits_eq_iff.mp (Except.ok.inj hid)
  · rintro ⟨hmetadata,n,hn,hmatch⟩
    cases htext.symm.trans hmatch
    rw [hexStringToUint32_bitsetToHexString,sixteenBits_eq_iff.mpr hn] at hid
    cases hid
    refine ⟨_,rfl,rfl,by simp [PdTableEntry.key,hmetadata],_,by rw [pdTableEntryToIrEntity,hir]; rfl,?_⟩
    simp only [hback,hmatch,hmetadata]

/-- The projection of an entry that can be translated commutes with the translations exactly when it fits. -/
theorem key_projection_commutes_iff (hinfo : info.WellFormed) {pd : PdTableEntry} (hpd : pd.Conforms gen info) {ir : IrEntity}
    (h : pdTableEntryToIrEntity gen info pd (full options) = .ok ir) :
    KeyProjectionCommutes gen info options pd ↔ KeyFits info pd := by
  cases pd with
  | notSet => cases h
  | multicastGroupTableEntry entry =>
    obtain ⟨e,he,-⟩ := map_eq_ok.mp h
    exact multicast_commutes_iff hpd he
  | table fieldName pd =>
    obtain ⟨hname,e,he⟩ := pdTableEntryToIrEntity_full (by simp [full]) h
    exact table_commutes_iff hinfo hpd hname he

/-- An entry of the table with one exact match field. -/
def vrfEntry : PdTable :=
  { match_ := some { text := fun name => if name = "vrf_id" then "0x01" else "" },controllerMetadata := [1] }

private theorem vrfEntry_conforms : vrfEntry.Conforms exactTable where
  match_ := by
    rintro m ⟨⟩
    refine ⟨fun name htext => ?_,fun name m hm => by cases hm⟩
    by_cases hname : name = "vrf_id"
    · subst hname
      exact ⟨vrfField,by decide,rfl⟩
    · simp [hname] at htext
  priority := fun _ => rfl
  action := fun _ => rfl
  wcmpActions := fun _ => rfl
  meterConfig := fun _ => rfl
  counterData := fun _ => rfl
  meterCounterData := fun _ => rfl

theorem vrf_key_commutes : KeyProjectionCommutes {} exactInfo {} (.table "vrf_table_entry" vrfEntry) := by
  obtain ⟨ir,hir⟩ := exists_ok_of_isOk (show (pdTableEntryToIrEntity {} exactInfo (.table "vrf_table_entry" vrfEntry)
    (full {})).isOk = true by decide)
  have htable : ∀ p4Name table,"vrf_table_entry" = tableFieldName p4Name → exactInfo.tablesByName.lookup p4Name = some table →
      table = exactTable := by
    intro p4Name table _ hlookup
    have hmem := mem_of_lookup_eq_some hlookup
    simp only [exactInfo,List.mem_singleton] at hmem
    exact congrArg Prod.snd hmem
  have hconforms : (PdTableEntry.table "vrf_table_entry" vrfEntry).Conforms {} exactInfo := by
    refine ⟨by decide,fun p4Name table hname hlookup => ?_⟩
    exact htable p4Name table hname hlookup ▸ vrfEntry_conforms
  refine (key_projection_commutes_iff (by decide) hconforms hir).mpr ⟨rfl,?_⟩
  · intro p4Name table hname hlookup
    cases htable p4Name table hname hlookup
    exact ⟨rfl,rfl⟩

def countedInfo : IrP4Info :=
  let table := { exactTable with hasCounter := true,counterUnit := .packets }
  { tablesById := [(1,table)],tablesByName := [("vrf_table",table)] }

/-- The projection fails, since it clears a field that the message does not have. -/
theorem counted_key_fails : (∃ ir,pdTableEntryToIrEntity {} countedInfo (.table "vrf_table_entry" vrfEntry) (full {}) = .ok ir) ∧
    ¬ KeyProjectionCommutes {} countedInfo {} (.table "vrf_table_entry" vrfEntry) := by
  constructor
  · exact exists_ok_of_isOk (by decide)
  · rintro ⟨key,hkey,-⟩
    have hfails : (pdTableEntryToOnlyKeyPd {} countedInfo (.table "vrf_table_entry" vrfEntry)).isOk = false := by decide
    rw [hkey] at hfails
    cases hfails

end SonicPins.Pdpi
