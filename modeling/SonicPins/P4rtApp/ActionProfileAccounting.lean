import Mathlib.Logic.Relation
import SonicPins.Lib.MapTotals
import SonicPins.P4rtApp.WriteStatuses
import SonicPins.Pdpi.TranslationSpecs

/-! The totals of the action profiles are the sums over the entity cache, after
every Write of a run. -/
namespace SonicPins.P4rtApp
open Lib Pdpi Sonic

variable {table : IrTableDefinition} {pi : TableEntry}

def tableProfile (info : IrP4Info) (table : IrTableDefinition) : Option String :=
  table.actionProfileId.bind fun id => (info.actionProfilesById.lookup id).map fun p => p.preamble.aliasName

def entityProfile (info : IrP4Info) : Entity → Option String
  | .tableEntry e => (info.tablesById.lookup e.tableId).bind (tableProfile info)
  | _ => none

def entityWeights : Entity → List Int32
  | .tableEntry e => piActionSetWeights e
  | _ => []

/-- An action set counted by its members, or by their weights. -/
def actionSetAmount (members : Bool) (weights : List Int32) : Int := if members then weights.length else weightSum weights

def usedAmount (members : Bool) (info : IrP4Info) (name : String) (e : Entity) : Int :=
  if entityProfile info e = some name then actionSetAmount members (entityWeights e) else 0

def recordedTotal (members : Bool) (c : ActionProfileResourceCapacity) : Int :=
  if members then c.currentTotalMembers else c.currentTotalWeight

/-- For every action profile, the totals of weights and of members are the sums over
the entries whose table uses the profile. -/
def Accounted (info : IrP4Info) (cache : EntityCache) (capacities : ActionProfileCapacityMap) : Prop :=
  ∀ name profile,info.actionProfilesByName.lookup name = some profile →
    ∃ c,capacities.lookup name = some c ∧
      ∀ members,recordedTotal members c = mapTotal (usedAmount members info name) cache.entries

/-- The part of a change that one profile sees. -/
def amountOf (members : Bool) (name : String) (r : Option ActionProfileResources) : Int :=
  r.elim 0 fun r => if r.name = name then countedResources members r else 0

private theorem countedResources_actionProfileResources (members : Bool) (name : String) (weights : List Int32) :
    countedResources members (actionProfileResources name weights) = actionSetAmount members weights := by
  cases members <;> rfl

theorem amountOf_resources (members : Bool) (name : String) (profile : Option String) (weights : List Int32) :
    amountOf members name (profile.map (actionProfileResources · weights)) =
      if profile = some name then actionSetAmount members weights else 0 := by
  cases profile with
  | none => simp [amountOf]
  | some p =>
    have hname : (actionProfileResources p weights).name = p := rfl
    simp [amountOf,countedResources_actionProfileResources,hname]

theorem profile_of_resources {profile : Option String} {weights : List Int32} :
    ∀ r ∈ profile.map (actionProfileResources · weights),profile = some r.name := by
  cases profile with
  | none => simp
  | some p => simp [actionProfileResources]

private theorem amountOf_resourceChange (members : Bool) (name : String) {new old : TableResources}
    (h : ∀ n ∈ new.actionProfile,∀ o ∈ old.actionProfile,n.name = o.name) :
    amountOf members name (resourceChange new old).actionProfile =
      amountOf members name new.actionProfile - amountOf members name old.actionProfile := by
  unfold resourceChange
  cases ho : old.actionProfile with
  | none => cases hn : new.actionProfile <;> simp [amountOf]
  | some o =>
    cases hn : new.actionProfile with
    | none =>
      by_cases hname : o.name = name <;> cases members <;> simp [amountOf,countedResources,hname]
    | some n =>
      have hsame : n.name = o.name := h n hn o ho
      by_cases hname : o.name = name <;> cases members <;> simp [amountOf,countedResources,hname,hsame]

theorem tableResources_profile {info : IrP4Info} {name : String} {weights : List Int32}
    {r : TableResources} (h : tableResources info name table weights = .ok r) :
    r.actionProfile = (tableProfile info table).map (actionProfileResources · weights) := by
  unfold tableResources at h
  cases hid : table.actionProfileId with
  | none =>
    rw [hid] at h
    cases h
    simp [tableProfile,hid]
  | some id =>
    rw [hid] at h
    obtain ⟨profile,hprofile,rfl⟩ := map_eq_ok.mp h
    unfold getActionProfileName at hprofile
    cases hlookup : info.actionProfilesById.lookup id with
    | none => simp [hlookup] at hprofile
    | some p =>
      simp only [hlookup,Except.ok.injEq] at hprofile
      simp [tableProfile,hid,hlookup,hprofile]

theorem getResourceUsageForPiTableEntry_profile {info : IrP4Info} {e : TableEntry} {r : TableResources}
    (h : getResourceUsageForPiTableEntry info e = .ok r) :
    r.actionProfile = (entityProfile info (.tableEntry e)).map (actionProfileResources · (piActionSetWeights e)) := by
  unfold getResourceUsageForPiTableEntry at h
  cases htable : info.tablesById.lookup e.tableId with
  | none => simp [htable] at h
  | some table =>
    rw [htable] at h
    simpa [entityProfile,htable] using tableResources_profile h

section Translation

private theorem translateActionSetInvocation_weight {options : TranslateTableEntryOptions}
    {a b : IrActionSetInvocation} (h : translateActionSetInvocation options table a = .ok b) : b.weight = a.weight := by
  obtain ⟨action,-,h⟩ := bind_eq_ok.mp h
  split at h
  · obtain ⟨port,-,h⟩ := bind_eq_ok.mp h
    cases h
    rfl
  · cases h
    rfl

private theorem map_weights {α β : Type} {R : α → β → Prop} {f : α → Int32} {g : β → Int32} {l : List α} {l' : List β}
    (h : List.Forall₂ R l l') (hR : ∀ a b,R a b → g b = f a) : l'.map g = l.map f := by
  induction h with
  | nil => rfl
  | cons hab _ ih => rw [List.map_cons,List.map_cons,hR _ _ hab,ih]

theorem translateTableEntry_weights {options : TranslateTableEntryOptions} {e e' : IrTableEntry}
    (h : translateTableEntry options e = .ok e') :
    e'.tableName = e.tableName ∧ irActionSetWeights e' = irActionSetWeights e := by
  unfold translateTableEntry at h
  split at h
  · cases h
  · rename_i table htable
    obtain ⟨ms,-,h⟩ := bind_eq_ok.mp h
    obtain ⟨type,htype,h⟩ := bind_eq_ok.mp h
    cases h
    refine ⟨rfl,?_⟩
    unfold irActionSetWeights
    unfold translateEntryType at htype
    cases hetype : e.type with
    | notSet =>
      rw [hetype] at htype
      cases htype
      rfl
    | action a =>
      rw [hetype] at htype
      obtain ⟨a',-,rfl⟩ := map_eq_ok.mp htype
      rfl
    | actionSet actions =>
      rw [hetype] at htype
      obtain ⟨actions',hactions,rfl⟩ := map_eq_ok.mp htype
      exact map_weights (mapM_eq_ok.mp hactions) fun a b => translateActionSetInvocation_weight

variable [InetText]

theorem piTableEntryToIr_weights {info : IrP4Info} {options : TranslationOptions} (hoptions : options.keyOnly = false)
    {ir : IrTableEntry} (h : piTableEntryToIr info pi options = .ok ir) :
    ∃ table,info.tablesById.lookup pi.tableId = some table ∧ ir.tableName = table.preamble.aliasName ∧
      irActionSetWeights ir = piActionSetWeights pi ∧ (∀ w ∈ piActionSetWeights pi,1 ≤ w) ∧
      ∀ actions,pi.action = some (.actionProfileActionSet actions) → table.usesOneshot = true := by
  obtain ⟨table,hspec⟩ := piTableEntryToIr_spec h
  refine ⟨table,hspec.found,hspec.tableName,?_⟩
  have haction := piTableActionToIr_spec (hspec.actionReasons hoptions)
  rw [irActionSetWeights,hspec.type,hoptions,piActionSetWeights]
  simp only [Bool.false_eq_true,if_false]
  generalize (piTableActionToIr info options table pi.action).2 = type at haction
  generalize pi.action = action at haction
  cases haction with
  | notSet _ => simp
  | action _ _ _ => simp
  | actionSet _ honeshot hrel =>
    refine ⟨map_weights hrel fun a b hab => (piActionProfileActionToIr_spec hab).2.2.1,fun w hw => ?_,fun _ _ => honeshot⟩
    obtain ⟨a,ha,rfl⟩ := List.mem_map.mp hw
    obtain ⟨b,-,hab⟩ := exists_of_forall₂_left hrel ha
    exact Int32.not_lt.mp (piActionProfileActionToIr_spec hab).2.1

theorem irTableEntryToPi_weights {info : IrP4Info} (hinfo : info.WellFormed) {options : TranslationOptions}
    (hoptions : options.keyOnly = false) {ir : IrTableEntry} (h : irTableEntryToPi info ir options = .ok pi) :
    ∃ table,info.tablesByName.lookup ir.tableName = some table ∧ info.tablesById.lookup pi.tableId = some table ∧
      piActionSetWeights pi = irActionSetWeights ir := by
  obtain ⟨table,hspec⟩ := irTableEntryToPi_spec h
  refine ⟨table,hspec.found,?_,?_⟩
  · rw [hspec.tableId]
    exact (hinfo.table_of_name hspec.found).2.1
  · have haction := irTableActionToPi_spec (hspec.actionReasons hoptions)
    rw [piActionSetWeights,hspec.action,hoptions,irActionSetWeights]
    simp only [Bool.false_eq_true,if_false]
    generalize (irTableActionToPi info options table ir.type).2 = action at haction
    generalize ir.type = type at haction
    cases haction with
    | notSet => rfl
    | action _ _ => rfl
    | actionSet _ hrel => exact map_weights hrel fun a b hab => (irActionSetInvocationToPi_spec hab).2.2.1

end Translation

section Planned
variable [InetText] {info : IrP4Info} {constraints : ConstraintInfo} {translation : SwitchTranslation} {cache : EntityCache}
  {capacities : ActionProfileCapacityMap} {role : String} {u : Update}

private theorem translated_replication {e : EntityUpdate} {r : IrPacketReplicationEngineEntry}
    (h : piUpdateToEntityUpdate info constraints translation role u = .ok e)
    (hentry : e.entry = .packetReplicationEngineEntry r) : ∃ p,e.piEntity = .packetReplicationEngineEntry p := by
  obtain ⟨-,ir,-,-,hentry',hpi,-⟩ := piUpdateToEntityUpdate_spec h
  cases ir with
  | tableEntry t =>
    obtain ⟨t',-,ht'⟩ := map_eq_ok.mp hentry'
    rw [hentry] at ht'
    cases ht'
  | packetReplicationEngineEntry p =>
    obtain ⟨p',-,hp'⟩ := map_eq_ok.mp hpi
    exact ⟨p',hp'.symm⟩

private theorem translated_tableEntry {e : EntityUpdate} {t : IrTableEntry}
    (h : piUpdateToEntityUpdate info constraints translation role u = .ok e) (hentry : e.entry = .tableEntry t) :
    ∃ pi,e.piEntity = .tableEntry pi ∧ (info.WellFormed → u.type ≠ .delete →
      ∃ table,info.tablesByName.lookup t.tableName = some table ∧ info.tablesById.lookup pi.tableId = some table ∧
        piActionSetWeights pi = irActionSetWeights t) := by
  obtain ⟨-,ir,-,-,hentry',hpi,-⟩ := piUpdateToEntityUpdate_spec h
  cases ir with
  | packetReplicationEngineEntry p =>
    obtain ⟨p',-,hp'⟩ := map_eq_ok.mp hentry'
    rw [hentry] at hp'
    cases hp'
  | tableEntry t' =>
    obtain ⟨pi,hpi,hpi'⟩ := map_eq_ok.mp hpi
    refine ⟨pi,hpi'.symm,fun hinfo htype => ?_⟩
    obtain ⟨t'',ht'',heq⟩ := map_eq_ok.mp hentry'
    rw [hentry] at heq
    cases heq
    obtain ⟨hname,hweights⟩ := translateTableEntry_weights ht''
    rw [hname,hweights]
    have hoptions : (pdpiOptions u.type).keyOnly = false := by simpa [pdpiOptions] using htype
    obtain ⟨table,hfound⟩ := irTableEntryToPi_weights hinfo hoptions hpi
    exact ⟨table,hfound⟩

omit [InetText] in
private theorem newResources_profile {t : IrTableEntry} {type : UpdateType}
    {new : TableResources} (htype : type = .insert ∨ type = .modify) (h : newResources info type t = .ok new)
    (hname : info.tablesByName.lookup t.tableName = some table) (hid : info.tablesById.lookup pi.tableId = some table)
    (hweights : piActionSetWeights pi = irActionSetWeights t) :
    new.actionProfile = (entityProfile info (.tableEntry pi)).map (actionProfileResources · (piActionSetWeights pi)) := by
  rw [newResources,if_pos htype] at h
  have hresources := mapError_eq_ok.mp h
  rw [getResourceUsageForIrTableEntry,hname] at hresources
  simpa [entityProfile,hid,hweights] using tableResources_profile hresources

omit [InetText] in
private theorem oldResources_profile {type : UpdateType} {e : TableEntry} {old : TableResources}
    (htype : type = .modify ∨ type = .delete) (h : oldResources info type (some (.tableEntry e)) = .ok old) :
    old.actionProfile = (entityProfile info (.tableEntry e)).map (actionProfileResources · (piActionSetWeights e)) := by
  rw [oldResources,if_pos htype] at h
  exact getResourceUsageForPiTableEntry_profile (mapError_eq_ok.mp h)

omit [InetText] in
theorem keyed_tableEntry {k : EntityKey} {e : Entity} (hpi : makeEntityKey (.tableEntry pi) = .ok k)
    (he : makeEntityKey e = .ok k) : ∃ e',e = .tableEntry e' ∧ e'.tableId = pi.tableId := by
  cases hpi
  cases e with
  | tableEntry e' =>
    refine ⟨e',rfl,?_⟩
    simp only [makeEntityKey,TableEntry.key,Except.ok.injEq,EntityKey.tableEntry.injEq,TableEntryKey.mk.injEq] at he
    exact he.1
  | packetReplicationEngineEntry p => simp [makeEntityKey] at he
  | notSet => simp [makeEntityKey] at he
  | other field => simp [makeEntityKey] at he

omit [InetText] in
private theorem keyed_replication {p : PacketReplicationEngineEntry} {k : EntityKey} {e : Entity}
    (hp : makeEntityKey (.packetReplicationEngineEntry p) = .ok k) (he : makeEntityKey e = .ok k) :
    entityProfile info e = none := by
  cases hp
  cases e with
  | tableEntry e' => simp [makeEntityKey] at he
  | packetReplicationEngineEntry p' => rfl
  | notSet => rfl
  | other field => rfl

/-- What the entity of an update uses of a profile once it is programmed. -/
def programmedAmount (members : Bool) (info : IrP4Info) (name : String) (e : EntityUpdate) : Int :=
  if e.updateType = .delete then 0 else usedAmount members info name e.piEntity

omit [InetText] in
private theorem found_of_verifyEntityCacheForExistence {e : EntityUpdate} (h : verifyEntityCacheForExistence cache e = .ok ()) :
    (e.updateType = .insert ∧ cache.entries.lookup e.entityKey = none) ∨
    ((e.updateType = .modify ∨ e.updateType = .delete) ∧ ∃ old,cache.entries.lookup e.entityKey = some old) := by
  unfold verifyEntityCacheForExistence at h
  cases hfound : cache.entries.lookup e.entityKey with
  | none =>
    cases htype : e.updateType <;> simp [hfound,htype] at h
    exact .inl ⟨rfl,rfl⟩
  | some old =>
    cases htype : e.updateType <;> simp [hfound,htype] at h
    · exact .inr ⟨.inl rfl,old,rfl⟩
    · exact .inr ⟨.inr rfl,old,rfl⟩

theorem PlannedFrom.amountOf_change (hinfo : info.WellFormed) {p : PlannedUpdate}
    (h : PlannedFrom info constraints translation cache capacities role u p) (members : Bool) (name : String) :
    amountOf members name p.change.actionProfile = programmedAmount members info name p.update -
      amountAt (usedAmount members info name) cache.entries p.update.entityKey := by
  obtain ⟨inBatch,hchange⟩ := h.change
  have hkeyed := p.update.keyed
  have htype := (piUpdateToEntityUpdate_spec h.translated).1
  cases hentry : p.update.entry with
  | packetReplicationEngineEntry r =>
    rw [verifyCapacityAndGetTableResourceChange_replication hentry hchange]
    obtain ⟨pi,hpi⟩ := translated_replication h.translated hentry
    rw [hpi] at hkeyed
    have hnew : programmedAmount members info name p.update = 0 := by
      simp [programmedAmount,usedAmount,hpi,entityProfile]
    have hold : amountAt (usedAmount members info name) cache.entries p.update.entityKey = 0 := by
      unfold amountAt
      cases hlookup : cache.entries.lookup p.update.entityKey with
      | none => rfl
      | some old => simp [usedAmount,keyed_replication hkeyed (cache.keyed _ _ hlookup)]
    rw [hnew,hold]
    rfl
  | tableEntry t =>
    obtain ⟨new,old,hnew,hold,hresources,-⟩ := verifyCapacityAndGetTableResourceChange_spec hentry hchange
    rw [hresources]
    obtain ⟨pi,hpi,htranslated⟩ := translated_tableEntry h.translated hentry
    rw [hpi] at hkeyed
    -- What the two sides of the change use, and that they use the same profile.
    have hadds : amountOf members name new.actionProfile = programmedAmount members info name p.update ∧
        ∀ n ∈ new.actionProfile,entityProfile info (.tableEntry pi) = some n.name := by
      by_cases hdelete : p.update.updateType = .delete
      · rw [newResources,if_neg (by simp [hdelete])] at hnew
        cases hnew
        simp [amountOf,programmedAmount,hdelete]
      · have hkind : p.update.updateType = .insert ∨ p.update.updateType = .modify := by
          rcases verifyEntityCacheForExistence_type h.existence with ht | ht | ht
          · exact .inl ht
          · exact .inr ht
          · exact absurd ht hdelete
        obtain ⟨table,hname,hid,hweights⟩ := htranslated hinfo (htype ▸ hdelete)
        rw [newResources_profile hkind hnew hname hid hweights,amountOf_resources,programmedAmount,if_neg hdelete,
          usedAmount,hpi]
        exact ⟨rfl,profile_of_resources⟩
    have hremoves : amountOf members name old.actionProfile =
          amountAt (usedAmount members info name) cache.entries p.update.entityKey ∧
        ∀ o ∈ old.actionProfile,entityProfile info (.tableEntry pi) = some o.name := by
      rcases found_of_verifyEntityCacheForExistence h.existence with ⟨hinsert,hnone⟩ | ⟨hkind,cached,hcached⟩
      · obtain rfl : old = {} := by simpa [oldResources,hinsert] using hold.symm
        simp [amountOf,amountAt,hnone]
      · obtain ⟨e,rfl,htable⟩ := keyed_tableEntry hkeyed (cache.keyed _ _ hcached)
        rw [hcached] at hold
        have hsame : entityProfile info (.tableEntry e) = entityProfile info (.tableEntry pi) := by
          simp [entityProfile,htable]
        rw [oldResources_profile hkind hold,amountOf_resources,amountAt,hcached,← hsame]
        exact ⟨rfl,profile_of_resources⟩
    rw [amountOf_resourceChange,hadds.1,hremoves.1]
    intro n hn o ho
    exact Option.some.inj ((hadds.2 n hn).symm.trans (hremoves.2 o ho))

end Planned

section Bookkeeping
variable [InetText] {info : IrP4Info} {constraints : ConstraintInfo} {translation : SwitchTranslation} {cache : EntityCache}
  {capacities : ActionProfileCapacityMap} {role : String}

omit [InetText] in
theorem EntityCache.apply_spec {c c' : EntityCache} {e : EntityUpdate} (h : c.apply e = .ok c') :
    (∀ k,k ≠ e.entityKey → c'.entries.lookup k = c.entries.lookup k) ∧
    ∀ members info name,mapTotal (usedAmount members info name) c'.entries =
      mapTotal (usedAmount members info name) c.entries + programmedAmount members info name e -
        amountAt (usedAmount members info name) c.entries e.entityKey := by
  have hinsert : e.updateType ≠ .delete → c' = c.insert e.entityKey e.piEntity e.keyed →
      (∀ k,k ≠ e.entityKey → c'.entries.lookup k = c.entries.lookup k) ∧
      ∀ members info name,mapTotal (usedAmount members info name) c'.entries =
        mapTotal (usedAmount members info name) c.entries + programmedAmount members info name e -
          amountAt (usedAmount members info name) c.entries e.entityKey := by
    rintro htype rfl
    refine ⟨fun k hk => AList.lookup_insert_ne hk,fun members info name => ?_⟩
    rw [programmedAmount,if_neg htype]
    exact mapTotal_insert _ _ _ _
  unfold EntityCache.apply at h
  cases htype : e.updateType with
  | insert =>
    simp only [htype,Except.ok.injEq] at h
    exact hinsert (by simp [htype]) h.symm
  | modify =>
    simp only [htype,Except.ok.injEq] at h
    exact hinsert (by simp [htype]) h.symm
  | delete =>
    simp only [htype,e.keyed,Except.map,Except.ok.injEq] at h
    subst h
    refine ⟨fun k hk => AList.lookup_erase_ne hk,fun members info name => ?_⟩
    rw [programmedAmount,if_pos htype,add_zero]
    exact mapTotal_erase _ _ _
  | unspecified => simp [htype] at h
  | unknown n => simp [htype] at h

omit [InetText] in
theorem addUtilization_spec {m m' : ActionProfileCapacityMap} {change : TableResources}
    (h : addUtilization m change = .ok m') {name : String} {c : ActionProfileResourceCapacity}
    (hc : m.lookup name = some c) :
    ∃ c',m'.lookup name = some c' ∧ c'.actionProfile = c.actionProfile ∧
      ∀ members,recordedTotal members c' = recordedTotal members c + amountOf members name change.actionProfile := by
  unfold addUtilization at h
  cases hr : change.actionProfile with
  | none =>
    simp only [hr,Except.ok.injEq] at h
    subst h
    exact ⟨c,hc,rfl,fun members => by simp [amountOf]⟩
  | some r =>
    simp only [hr] at h
    by_cases hname : r.name = name
    · subst hname
      simp only [hc,Except.ok.injEq] at h
      subst h
      refine ⟨_,AList.lookup_insert _,rfl,fun members => ?_⟩
      cases members <;> simp [recordedTotal,amountOf,countedResources]
    · cases hlookup : m.lookup r.name with
      | none => simp [hlookup] at h
      | some c' =>
        simp only [hlookup,Except.ok.injEq] at h
        subst h
        refine ⟨c,?_,rfl,fun members => by simp [amountOf,hname]⟩
        rw [AList.lookup_insert_ne (Ne.symm hname)]
        exact hc

/-- The bookkeeping of planned updates keeps the accounts, whatever their statuses. -/
theorem updateCacheAndUtilizationState_accounted (hinfo : info.WellFormed) {us : List Update} {planned : List PlannedUpdate}
    (h : List.Forall₂ (PlannedFrom info constraints translation cache capacities role) us planned)
    (hkeys : (planned.map fun p => p.update.entityKey).Nodup) (statuses : List Status) {c : EntityCache}
    {m : ActionProfileCapacityMap}
    (hsame : ∀ p ∈ planned,c.entries.lookup p.update.entityKey = cache.entries.lookup p.update.entityKey)
    (hm : ∀ name,name ∈ capacities → name ∈ m) (haccounted : Accounted info c m) :
    Accounted info (updateCacheAndUtilizationState (planned.zip statuses) (c,m)).1.1
      (updateCacheAndUtilizationState (planned.zip statuses) (c,m)).1.2 := by
  induction h generalizing statuses c m with
  | nil => exact haccounted
  | @cons u p us planned hp _ ih =>
    obtain ⟨hkey,hkeys⟩ := List.nodup_cons.mp hkeys
    cases statuses with
    | nil => exact haccounted
    | cons status statuses =>
      rw [List.zip_cons_cons,updateCacheAndUtilizationState]
      split
      · exact ih hkeys statuses (fun q hq => hsame q (by simp [hq])) hm haccounted
      · obtain ⟨c',hc',-⟩ := hp.apply c
        rw [hc']
        obtain ⟨hother,htotal⟩ := EntityCache.apply_spec hc'
        obtain ⟨inBatch,hchange⟩ := hp.change
        obtain ⟨m',hm',hgrows⟩ := addUtilization_ok fun r hr => hm r.name
          (verifyCapacityAndGetTableResourceChange_mem hchange hr)
        simp only [hm']
        refine ih hkeys statuses (fun q hq => ?_) (fun name hname => hgrows name (hm name hname))
          fun name profile hprofile => ?_
        · have hne : q.update.entityKey ≠ p.update.entityKey := fun heq =>
            hkey (List.mem_map.mpr ⟨q,hq,heq⟩)
          rw [hother _ hne]
          exact hsame q (by simp [hq])
        · obtain ⟨a,ha,hrecorded⟩ := haccounted name profile hprofile
          obtain ⟨a',ha',-,hrecorded'⟩ := addUtilization_spec hm' ha
          refine ⟨a',ha',fun members => ?_⟩
          rw [hrecorded' members,hrecorded members,hp.amountOf_change hinfo,htotal,amountAt,amountAt,
            hsame p (by simp)]
          omega

end Bookkeeping

section Runs
variable [InetText]

/-- One Write, whatever it asks for and whatever the lower layers answer. -/
def WriteStep (s t : ServerState) : Prop := ∃ lower r,t = (write lower s r).1

/-- The totals of a server are the sums over its cache. -/
def ServerState.Accounted (s : ServerState) : Prop :=
  ∀ info,s.irP4Info = some info →
    P4rtApp.Accounted info.toIrP4Info s.entityCache s.capacityByActionProfileName

private theorem plan_accepted {s : ServerState} {r : WriteRequest} {info : AcceptedP4Info} (hinfo : s.irP4Info = some info)
    {planned : List PlannedUpdate} {statuses : List Status} (h : plan s r = .ok (planned,statuses)) :
    ∃ constraints us st,s.constraintInfo = some constraints ∧
      Accepts info.toIrP4Info constraints s.translation s.entityCache s.capacityByActionProfileName r.role us st ∧
      planned = st.updates := by
  obtain ⟨constraints,hconstraints⟩ := Option.isSome_iff_exists.mp (s.constraintsSet (by simp [hinfo]))
  rw [plan_eq hinfo hconstraints] at h
  obtain ⟨us,st,-,haccepts,hplanned⟩ := piEntityUpdatesToIr_accepted h
  exact ⟨constraints,us,st,hconstraints,haccepts,hplanned⟩

theorem WriteStep.accounted {s t : ServerState} (h : WriteStep s t) (hs : s.Accounted) : t.Accounted := by
  obtain ⟨lower,r,rfl⟩ := h
  rcases write_state lower s r with heq | ⟨-,planned,initial,statuses,hplan,heq⟩
  · rw [heq]
    exact hs
  · rw [heq]
    intro info (hinfo : s.irP4Info = some info)
    obtain ⟨constraints,us,st,-,haccepts,rfl⟩ := plan_accepted hinfo hplan
    exact updateCacheAndUtilizationState_accounted info.wellFormed haccepts.plannedFrom haccepts.keys.1 statuses
      (fun _ _ => rfl) (fun _ h => h) (hs info hinfo)

/-- Over every run of Writes, the totals of every action profile stay the sums over
the entity cache. -/
theorem accounted_across_writes {s t : ServerState} (hrun : Relation.ReflTransGen WriteStep s t) (hs : s.Accounted) :
    t.Accounted := by
  induction hrun with
  | refl => exact hs
  | tail _ hstep ih => exact hstep.accounted ih

end Runs

attribute [local instance] uncompressedInet

private theorem sampleServer_accounted : sampleServer.Accounted := by
  intro info hinfo name profile hprofile
  cases hinfo
  have hname : name = "wcmp_group_selector" := by
    by_contra hne
    simp [samplePipeline,List.lookup_cons,beq_eq_false_iff_ne.mpr hne] at hprofile
  subst hname
  exact ⟨{ actionProfile := wcmpSelector },by decide +kernel,fun members => by cases members <;> rfl⟩

/-- A group of two members with weights one and two, inserted and accounted for. -/
theorem accounted_after_group_insert : ∃ t,Relation.ReflTransGen WriteStep sampleServer t ∧ t.Accounted ∧
    t.capacityByActionProfileName.lookup "wcmp_group_selector" =
      some { actionProfile := wcmpSelector,currentTotalWeight := 3,currentTotalMembers := 2 } := by
  have hrun : Relation.ReflTransGen WriteStep sampleServer (write acceptAll sampleServer groupRequest).1 :=
    .single ⟨_,_,rfl⟩
  exact ⟨_,hrun,accounted_across_writes hrun sampleServer_accounted,by decide +kernel⟩

end SonicPins.P4rtApp
