import SonicPins.P4rtApp.ActionProfileAccounting
import SonicPins.P4rtApp.PushAtomicity
import SonicPins.P4rtApp.WarmBoot

/-! The totals of the action profiles across pushes of a config and warm boots. -/
namespace SonicPins.P4rtApp
open Lib Pdpi Sonic

variable {db : AppDb} {t s : ServerState} {entry entry' : IrTableEntry} {key name : String} {cache' cache : EntityCache}
  {s' : DbSession}

section Rows
variable {info : IrP4Info} {tableName : String}

def HoldsNoGroups (t : DbTable) : Prop := ∀ key ∈ getAllP4TableEntryKeys t,hasField (getRow t key) "actions" = false

private theorem appDbKeyMember_weights {member : String × Json}
    (h : appDbKeyMember info tableName entry member = .ok entry') : irActionSetWeights entry' = irActionSetWeights entry := by
  unfold appDbKeyMember at h
  split at h
  · obtain ⟨p,-,rfl⟩ := map_eq_ok.mp h
    rfl
  · obtain ⟨key,-,h⟩ := bind_eq_ok.mp h
    obtain ⟨value,-,h⟩ := bind_eq_ok.mp h
    obtain ⟨m,-,h⟩ := bind_eq_ok.mp h
    cases h
    rfl

private theorem appDbKeyToIrTableEntry_weights {jsonKey : String}
    (h : appDbKeyToIrTableEntry info tableName jsonKey = .ok entry) : irActionSetWeights entry = [] := by
  unfold appDbKeyToIrTableEntry at h
  split at h
  · cases h
  · cases h
    rfl
  · cases h
    rfl
  · refine foldlM_invariant (P := fun e => irActionSetWeights e = []) (fun e member e' _ he h => ?_) rfl h
    rw [appDbKeyMember_weights h,he]
  · cases h

private theorem addAppDbMeterDataToIrTableEntry_weights {data : Bytes}
    (h : addAppDbMeterDataToIrTableEntry key data entry = .ok entry') : irActionSetWeights entry' = irActionSetWeights entry := by
  unfold addAppDbMeterDataToIrTableEntry at h
  split at h
  · cases h
  · simp only at h
    split_ifs at h <;> cases h <;> rfl

private theorem appDbField_weights {actionName : Option String} {field : FieldValue}
    (hfield : field.1 ≠ "actions") (hentry : irActionSetWeights entry = [])
    (h : appDbField info tableName actionName entry field = .ok entry') : irActionSetWeights entry' = [] := by
  unfold appDbField at h
  rw [if_neg hfield] at h
  split at h
  · obtain ⟨name,-,rfl⟩ := map_eq_ok.mp h
    rfl
  · split at h
    · split at h
      · cases h
      · obtain ⟨value,-,h⟩ := bind_eq_ok.mp h
        obtain ⟨param,-,h⟩ := bind_eq_ok.mp h
        cases h
        rfl
    · split at h
      · rw [addAppDbMeterDataToIrTableEntry_weights (orFail_eq_ok.mp h),hentry]
      · split at h
        · cases h
          exact hentry
        · cases h

private theorem appDbKeyAndValuesToIrTableEntry_weights {values : List FieldValue}
    (hvalues : hasField values "actions" = false) (h : appDbKeyAndValuesToIrTableEntry info key values = .ok entry) :
    irActionSetWeights entry = [] := by
  obtain ⟨name,-,h⟩ := bind_eq_ok.mp h
  obtain ⟨start,hstart,h⟩ := bind_eq_ok.mp h
  obtain ⟨actionName,-,h⟩ := bind_eq_ok.mp h
  obtain ⟨last,hlast,h⟩ := bind_eq_ok.mp h
  split at h
  · cases h
  · cases h
    refine foldlM_invariant (P := fun e => irActionSetWeights e = []) (fun e field e' hfield he h => ?_)
      (appDbKeyToIrTableEntry_weights hstart) hlast
    refine appDbField_weights (fun heq => ?_) he h
    simp only [hasField,List.any_eq_false,decide_eq_true_eq] at hvalues
    exact hvalues field hfield heq

private theorem appendCounter_weights (entry : IrTableEntry) (counter : FieldValue) :
    irActionSetWeights (appendCounter entry counter) = irActionSetWeights entry := by
  unfold appendCounter
  split
  · rfl
  · simp only
    split_ifs <;> first | rfl | (split <;> rfl)

private theorem appendCounterData_weights (entry : IrTableEntry) (counters : List FieldValue) :
    irActionSetWeights (appendCounterData entry counters) = irActionSetWeights entry := by
  unfold appendCounterData
  induction counters generalizing entry with
  | nil => rfl
  | cons counter counters ih => rw [List.foldl_cons,ih,appendCounter_weights]

private theorem readP4TableEntry_weights
    (hrow : hasField (getRow db.p4rt key) "actions" = false) (h : readP4TableEntry info db key = .ok entry) :
    irActionSetWeights entry = [] := by
  obtain ⟨read,hread,h⟩ := bind_eq_ok.mp h
  have hweights := appDbKeyAndValuesToIrTableEntry_weights hrow hread
  split at h
  · cases h
    rw [appendCounterData_weights,hweights]
  · cases h
    exact hweights

end Rows

section Rebuilding
variable [InetText] {info : IrP4Info} {translation : SwitchTranslation}

/-- Nothing in the cache uses an action profile. -/
def EntityCache.NoGroups (cache : EntityCache) : Prop := ∀ k e,cache.entries.lookup k = some e → entityWeights e = []

omit [InetText] in
theorem cacheEntity_noGroups {e : Entity} (he : entityWeights e = []) (hcache : cache.NoGroups)
    (h : cacheEntity cache e = .ok cache') : cache'.NoGroups := by
  unfold cacheEntity at h
  split at h
  · cases h
  · cases h
    intro k e' hlookup
    rcases lookup_insert_cases hlookup with ⟨-,rfl⟩ | ⟨-,hlookup⟩
    · exact he
    · exact hcache k e' hlookup

theorem irTableEntryToCached_weights (hinfo : info.WellFormed) {ir : IrTableEntry} {pi : TableEntry}
    (h : irTableEntryToCached info ir = .ok pi) : piActionSetWeights pi = irActionSetWeights ir := by
  obtain ⟨-,-,-,hweights⟩ := irTableEntryToPi_weights hinfo rfl (mapError_eq_ok.mp (orFail_eq_ok.mp h))
  exact hweights

private theorem cacheP4TableEntry_noGroups (hinfo : info.WellFormed)
    (hrow : hasField (getRow db.p4rt key) "actions" = false) (hcache : cache.NoGroups)
    (h : cacheP4TableEntry info translation db cache key = .ok cache') : cache'.NoGroups := by
  obtain ⟨read,hread,h⟩ := bind_eq_ok.mp h
  obtain ⟨ir,hir,h⟩ := bind_eq_ok.mp h
  obtain ⟨pi,hpi,h⟩ := bind_eq_ok.mp h
  refine cacheEntity_noGroups ?_ hcache h
  change piActionSetWeights pi = []
  rw [irTableEntryToCached_weights hinfo hpi,(translateTableEntry_weights (orFail_eq_ok.mp hir)).2,readP4TableEntry_weights hrow hread]

theorem cacheTranslatedEntry_noGroups (hinfo : info.WellFormed) {added : Status → Status}
    {ir : IrTableEntry} (hir : irActionSetWeights ir = []) (hcache : cache.NoGroups)
    (h : cacheTranslatedEntry info translation added cache ir = .ok cache') : cache'.NoGroups := by
  obtain ⟨ir',hir',h⟩ := bind_eq_ok.mp h
  obtain ⟨pi,hpi,h⟩ := bind_eq_ok.mp h
  refine cacheEntity_noGroups ?_ hcache h
  change piActionSetWeights pi = []
  rw [irTableEntryToCached_weights hinfo hpi,(translateTableEntry_weights (mapError_eq_ok.mp (orFail_eq_ok.mp hir'))).2,hir]

omit [InetText] in
private theorem vlanTableEntry_weights {t : DbTable} {entries : List IrTableEntry} (h : getAllAppDbVlanTableEntries t = .ok entries) :
    ∀ e ∈ entries,irActionSetWeights e = [] := by
  intro e he
  obtain ⟨key,-,hkey⟩ := exists_of_forall₂_right (mapM_eq_ok.mp h) he
  obtain ⟨id,-,hkey⟩ := bind_eq_ok.mp hkey
  cases hkey
  rfl

omit [InetText] in
private theorem vlanMemberTableEntry_weights {t : DbTable} {entries : List IrTableEntry}
    (h : getAllAppDbVlanMemberTableEntries t = .ok entries) : ∀ e ∈ entries,irActionSetWeights e = [] := by
  intro e he
  obtain ⟨key,-,hkey⟩ := exists_of_forall₂_right (mapM_eq_ok.mp h) he
  obtain ⟨id,-,hkey⟩ := bind_eq_ok.mp hkey
  cases hkey
  rfl

private theorem rebuildEntityEntryCache_noGroups (hinfo : info.WellFormed) (hdb : HoldsNoGroups db.p4rt)
    (h : rebuildEntityEntryCache info translation db = .ok cache) : cache.NoGroups := by
  obtain ⟨entries,hentries,h⟩ := bind_eq_ok.mp h
  obtain ⟨vrfs,hvrfs,h⟩ := bind_eq_ok.mp h
  obtain ⟨vlanRows,hvlanRows,h⟩ := bind_eq_ok.mp h
  obtain ⟨vlans,hvlans,h⟩ := bind_eq_ok.mp h
  obtain ⟨memberRows,hmemberRows,h⟩ := bind_eq_ok.mp h
  obtain ⟨members,hmembers,h⟩ := bind_eq_ok.mp h
  obtain ⟨groups,-,h⟩ := bind_eq_ok.mp h
  have hempty : emptyCache.NoGroups := fun k e hlookup => by cases hlookup
  have hentries : entries.NoGroups := foldlM_invariant
    (fun c key c' hkey hc hstep => cacheP4TableEntry_noGroups hinfo (hdb key hkey) hc hstep) hempty hentries
  have hvrfs : vrfs.NoGroups := by
    refine foldlM_invariant (fun c ir c' hir hc hstep => ?_) hentries hvrfs
    obtain ⟨pi,hpi,hstep⟩ := bind_eq_ok.mp hstep
    refine cacheEntity_noGroups ?_ hc hstep
    obtain ⟨key,-,rfl⟩ := List.mem_map.mp hir
    change piActionSetWeights pi = []
    rw [irTableEntryToCached_weights hinfo hpi]
    rfl
  have hvlans : vlans.NoGroups := foldlM_invariant
    (fun c ir c' hir hc hstep => cacheTranslatedEntry_noGroups hinfo (vlanTableEntry_weights (orFail_eq_ok.mp hvlanRows) ir hir) hc hstep)
    hvrfs hvlans
  have hmembers : members.NoGroups := foldlM_invariant
    (fun c ir c' hir hc hstep => cacheTranslatedEntry_noGroups hinfo
      (vlanMemberTableEntry_weights (orFail_eq_ok.mp hmemberRows) ir hir) hc hstep) hvlans hmembers
  refine foldlM_invariant (fun c ir c' _ hc hstep => ?_) hmembers h
  obtain ⟨ir',-,hstep⟩ := bind_eq_ok.mp hstep
  obtain ⟨pi,-,hstep⟩ := bind_eq_ok.mp hstep
  exact cacheEntity_noGroups rfl hc hstep

end Rebuilding

/-- The keys of the rows that define tables. -/
def DefinitionKey (key : String) : Prop :=
  ∃ name rest,(name = aclTableDefinitionName ∨ name = tablesDefinitionTableName) ∧ key = name ++ ":" ++ rest

theorem DefinitionKey.not_entry (h : DefinitionKey key) (t : DbTable) : key ∉ getAllP4TableEntryKeys t := by
  obtain ⟨name,rest,hname,rfl⟩ := h
  have hcolon : ':' ∉ name.toList := by
    rcases hname with rfl | rfl <;> decide
  have hsplit : strSplit ':' (name ++ ":" ++ rest) = name :: strSplit ':' rest := by
    have hchars : (name ++ ":" ++ rest).toList = name.toList ++ ':' :: rest.toList := by simp
    rw [strSplit,hchars,splitChars_append_cons hcolon,List.map_cons,String.ofList_toList,strSplit]
  intro hmem
  have hkept := (List.mem_filter.mp hmem).2
  obtain ⟨word,words,hwords⟩ := List.exists_cons_of_ne_nil (splitChars_ne_nil ':' rest.toList)
  rw [hsplit,strSplit,hwords,List.map_cons] at hkept
  rcases hname with rfl | rfl <;> simp at hkept

theorem HoldsNoGroups.insert_definition {t : DbTable} (h : HoldsNoGroups t) (hkey : DefinitionKey key)
    (values : List FieldValue) : HoldsNoGroups (t.insert key values) := by
  intro k hk
  have hne : k ≠ key := by
    rintro rfl
    exact hkey.not_entry _ hk
  obtain ⟨hmem,hkept⟩ := List.mem_filter.mp hk
  have hold : k ∈ getAllP4TableEntryKeys t :=
    List.mem_filter.mpr ⟨AList.mem_keys.mp (((AList.mem_insert t).mp (AList.mem_keys.mpr hmem)).resolve_left hne),hkept⟩
  rw [getRow,AList.lookup_insert_ne hne]
  exact h k hold

theorem sendDefinition_noGroups {layers : SwitchLayers} {s : DbSession} {row : KeyOpFieldsValues} (hkey : DefinitionKey row.key)
    (hop : row.op = .set) (hs : HoldsNoGroups s.db.p4rt) (h : sendDefinition layers s row = .ok s') : HoldsNoGroups s'.db.p4rt := by
  obtain ⟨responses,-,h⟩ := bind_eq_ok.mp h
  obtain ⟨statuses,-,h⟩ := bind_eq_ok.mp h
  simp only at h
  split at h
  · cases h
    have happlied : (s.db.apply ⟨.p4rt,row⟩).p4rt = s.db.p4rt.insert row.key row.values := by
      simp [AppDb.apply,applyToTable,hop]
    rw [happlied]
    exact hs.insert_definition hkey _
  · cases h

private theorem insertAclTableDefinition_noGroups {fs : PipelineFunctions} {layers : SwitchLayers} {table : IrTableDefinition}
    {s : DbSession} (hs : HoldsNoGroups s.db.p4rt) (h : insertAclTableDefinition layers fs table s = .ok s') :
    HoldsNoGroups s'.db.p4rt := by
  obtain ⟨row,hrow,h⟩ := bind_eq_ok.mp h
  obtain ⟨key,hkey,hrow⟩ := bind_eq_ok.mp (orFail_eq_ok.mp hrow)
  obtain ⟨values,-,hrow⟩ := bind_eq_ok.mp hrow
  cases hrow
  refine sendDefinition_noGroups ?_ rfl hs h
  unfold generateSonicDbKeyFromIrTable at hkey
  split at hkey
  · cases hkey
  · cases hkey
    refine ⟨aclTableDefinitionName,"ACL_" ++ asciiToUpper table.preamble.aliasName,.inl rfl,?_⟩
    have hcolon : ":ACL_" = ":" ++ "ACL_" := by decide
    simp only [generateSonicDbKeyFromTableName,hcolon,String.append_assoc]

theorem stepIf_eq_ok {α : Type} {P : α → Prop} {c : Bool} {step : α → Fallible α} {a b : α} (ha : P a)
    (hstep : ∀ b,step a = .ok b → P b) (h : stepIf c step a = .ok b) : P b := by
  cases c with
  | true => exact hstep b h
  | false =>
    cases h
    exact ha

private theorem configureTable_noGroups {fs : PushFunctions} {env : PushEnvironment} {table : IrTableDefinition} {s : DbSession}
    (hs : HoldsNoGroups s.db.p4rt) (h : configureTable fs env s table = .ok s') : HoldsNoGroups s'.db.p4rt := by
  obtain ⟨type,-,h⟩ := bind_eq_ok.mp h
  obtain ⟨defined,hdefined,h⟩ := bind_eq_ok.mp h
  have hdefined : HoldsNoGroups defined.db.p4rt := stepIf_eq_ok (P := fun s => HoldsNoGroups s.db.p4rt) hs
    (fun b hb => insertAclTableDefinition_noGroups hs (mapError_eq_ok.mp hb)) hdefined
  exact sendDefinition_noGroups ⟨tablesDefinitionTableName,"\x7b\"context\":\"0\"\x7d",.inr rfl,by decide⟩ rfl hdefined h

private theorem configureAppDbTables_noGroups {fs : PushFunctions} {env : PushEnvironment} {info : IrP4Info} {s : DbSession}
    (hs : HoldsNoGroups s.db.p4rt) (h : configureAppDbTables fs env info s = .ok s') : HoldsNoGroups s'.db.p4rt := by
  obtain ⟨configured,hconfigured,h⟩ := bind_eq_ok.mp h
  obtain ⟨fields,-,h⟩ := bind_eq_ok.mp h
  obtain ⟨params,-,h⟩ := bind_eq_ok.mp h
  obtain ⟨-,h⟩ := then_eq_ok.mp h
  obtain ⟨-,h⟩ := then_eq_ok.mp h
  cases h
  exact foldlM_invariant (P := fun s : DbSession => HoldsNoGroups s.db.p4rt)
    (fun _ table _ _ hs hstep => configureTable_noGroups hs hstep) hs hconfigured

section Steps
variable [InetText] {fs : PushFunctions} {env : PushEnvironment}

/-- The tables of the cached groups use the same action profiles in both P4Infos. -/
def KeepsProfiles (old new : IrP4Info) (cache : EntityCache) : Prop :=
  ∀ k e,cache.entries.lookup k = some e → entityWeights e ≠ [] → entityProfile new e = entityProfile old e

structure Started (s : ServerState) : Prop where
  irP4Info : s.irP4Info = none
  config : s.forwardingPipelineConfig = none
  capacities : s.capacityByActionProfileName = ∅
  cache : s.entityCache.entries = ∅

/-- What holds of a server between two steps. -/
structure Balanced (s : ServerState) : Prop where
  accounted : s.Accounted
  recorded : ∀ info,s.irP4Info = some info → ∀ name,name ∈ s.capacityByActionProfileName →
    ∃ profile,info.actionProfilesByName.lookup name = some profile
  started : s.irP4Info = none → Started s
  configured : s.forwardingPipelineConfig = none → s.irP4Info = none

omit [InetText] in
theorem Started.balanced {s : ServerState} (h : Started s) : Balanced s where
  accounted := fun info hinfo => by simp [h.irP4Info] at hinfo
  recorded := fun info hinfo => by simp [h.irP4Info] at hinfo
  started := fun _ => h
  configured := fun _ => h.irP4Info

omit [InetText] in
theorem usedAmount_of_noWeights {members : Bool} {info : IrP4Info} {e : Entity} (h : entityWeights e = []) :
    usedAmount members info name e = 0 := by
  unfold usedAmount
  rw [h]
  cases members <;> simp [actionSetAmount,weightSum]

omit [InetText] in
theorem KeepsProfiles.mapTotal_eq {old new : IrP4Info} (h : KeepsProfiles old new cache) (members : Bool)
    (name : String) : mapTotal (usedAmount members new name) cache.entries = mapTotal (usedAmount members old name) cache.entries := by
  refine mapTotal_congr fun k e hlookup => ?_
  by_cases hweights : entityWeights e = []
  · rw [usedAmount_of_noWeights hweights,usedAmount_of_noWeights hweights]
  · rw [usedAmount,usedAmount,h k e hlookup hweights]

omit [InetText] in
private theorem usedAmount_of_unknown {info : AcceptedP4Info} (h : info.actionProfilesByName.lookup name = none)
    (members : Bool) (e : Entity) : usedAmount members info.toIrP4Info name e = 0 := by
  refine if_neg fun hprofile => ?_
  unfold entityProfile at hprofile
  split at hprofile
  · obtain ⟨table,-,hprofile⟩ := Option.bind_eq_some_iff.mp hprofile
    obtain ⟨id,-,hprofile⟩ := Option.bind_eq_some_iff.mp hprofile
    obtain ⟨p,hp,rfl⟩ := Option.map_eq_some_iff.mp hprofile
    obtain ⟨-,hname⟩ := info.wellFormed.profiles.lookup_name hp
    cases h.symm.trans hname
  · cases hprofile

omit [InetText] in
theorem Adopted.balanced {c : ForwardingPipelineConfig} (h : Adopted fs c s t)
    (hcache : t.entityCache = s.entityCache) (hs : Balanced s)
    (hkeeps : ∀ new old,preprocessConfig fs (some c) = .ok (c,new) → isCurrentP4Info fs s new = false → s.irP4Info = some old →
      KeepsProfiles old.toIrP4Info new.irP4Info.toIrP4Info s.entityCache) : Balanced t := by
  obtain ⟨new,hprepared,hpipeline⟩ := h.pipeline
  have hconfigured : t.forwardingPipelineConfig ≠ none := by simp [h.pushed]
  split at hpipeline
  · rename_i hcurrent
    obtain ⟨hinfo,-,hcapacities⟩ := hpipeline
    refine ⟨fun info ht => ?_,fun info ht name hname => ?_,fun hnone => ?_,fun hnone => absurd hnone hconfigured⟩
    · rw [hcache,hcapacities]
      exact hs.accounted info (hinfo ▸ ht)
    · exact hs.recorded info (hinfo ▸ ht) name (hcapacities ▸ hname)
    · rw [hinfo] at hnone
      simp [isCurrentP4Info,hnone] at hcurrent
  · rename_i hcurrent
    obtain ⟨hinfo,-,hcapacities⟩ := hpipeline
    refine ⟨fun info ht name profile hprofile => ?_,fun info ht name hname => ?_,fun hnone => ?_,
      fun hnone => absurd hnone hconfigured⟩
    · cases hinfo.symm.trans ht
      rw [hcapacities,hcache]
      unfold expectedCapacity
      cases hold : s.irP4Info with
      | none =>
        refine ⟨_,by rw [hprofile]; rfl,fun members => ?_⟩
        rw [(hs.started hold).cache]
        cases members <;> rfl
      | some old =>
        refine ⟨_,by simp only [hprofile]; rfl,fun members => ?_⟩
        rw [(hkeeps new old hprepared (by simpa using hcurrent) hold).mapTotal_eq]
        cases hrecorded : s.capacityByActionProfileName.lookup name with
        | none =>
          have hunknown : old.actionProfilesByName.lookup name = none := by
            by_contra hsome
            obtain ⟨p,hp⟩ := Option.ne_none_iff_exists'.mp hsome
            obtain ⟨c',hc',-⟩ := hs.accounted old hold name p hp
            cases hrecorded.symm.trans hc'
          rw [mapTotal_eq_zero fun k e _ => usedAmount_of_unknown hunknown members e]
          unfold updatedCapacity
          rw [hrecorded]
          cases members <;> rfl
        | some c' =>
          obtain ⟨p,hp⟩ := hs.recorded old hold name (AList.lookup_isSome.mp (by simp [hrecorded]))
          obtain ⟨c'',hc'',htotal⟩ := hs.accounted old hold name p hp
          cases hrecorded.symm.trans hc''
          rw [← htotal members]
          obtain ⟨hweight,hmembers⟩ := updatedCapacity_recorded hrecorded profile
          cases members with
          | true => exact hmembers
          | false => exact hweight
    · cases hinfo.symm.trans ht
      obtain ⟨c',hc'⟩ := Option.isSome_iff_exists.mp (AList.lookup_isSome.mpr hname)
      rw [hcapacities] at hc'
      unfold expectedCapacity at hc'
      cases hold : s.irP4Info with
      | none =>
        rw [hold] at hc'
        simp only [(hs.started hold).capacities,AList.lookup_empty,Option.or_none] at hc'
        obtain ⟨p,hp,-⟩ := Option.map_eq_some_iff.mp hc'
        exact ⟨p,hp⟩
      | some old =>
        rw [hold] at hc'
        obtain ⟨p,hp,-⟩ := Option.map_eq_some_iff.mp hc'
        exact ⟨p,hp⟩
    · simp [hinfo] at hnone

omit [InetText] in
theorem Balanced.replace_cache (hs : Balanced s) {info : AcceptedP4Info} (hinfo : s.irP4Info = some info)
    (hold : s.entityCache.NoGroups) (hcache : cache.NoGroups) : Balanced { s with entityCache := cache } where
  accounted := by
    intro info' hinfo' name profile hprofile
    obtain ⟨c,hc,htotal⟩ := hs.accounted info' hinfo' name profile hprofile
    refine ⟨c,hc,fun members => ?_⟩
    rw [htotal members,mapTotal_eq_zero fun k e he => usedAmount_of_noWeights (hold k e he)]
    exact (mapTotal_eq_zero fun k e he => usedAmount_of_noWeights (hcache k e he)).symm
  recorded := hs.recorded
  started := fun hnone => by cases hinfo.symm.trans hnone
  configured := hs.configured

omit [InetText] in
theorem Started.noGroups (h : Started s) : s.entityCache.NoGroups := by
  intro k e hlookup
  rw [h.cache] at hlookup
  cases hlookup

theorem rebuildCache_balanced (hs : Balanced s) (hold : s.entityCache.NoGroups)
    (hdb : HoldsNoGroups db.p4rt) : Balanced (rebuildCache s db).1 := by
  unfold rebuildCache
  split
  · exact hs
  · rename_i info hinfo
    split
    · exact hs
    · rename_i cache hcache
      exact hs.replace_cache hinfo hold (rebuildEntityEntryCache_noGroups info.wellFormed hdb hcache)

variable (fs env) in
theorem firstConfig_noGroups (commitToHardware : Bool) (config : Option ForwardingPipelineConfig)
    (hs : s.irP4Info = none) {db : DbSession} (db' : DbSession) (hdb : (preprocessConfig fs config).isOk → HoldsNoGroups db.db.p4rt)
    (h : (reconcileAndCommitPipelineConfig fs env commitToHardware config s db).2 = .ok db') : HoldsNoGroups db'.db.p4rt := by
  unfold reconcileAndCommitPipelineConfig at h
  split at h
  · cases h
  · rename_i c new hprepared
    have hcurrent : isCurrentP4Info fs s new = false := by simp [isCurrentP4Info,hs]
    simp only [hcurrent,Bool.false_eq_true,if_false] at h
    split at h
    · cases h
    · rename_i capacities applied happly
      have happlied : HoldsNoGroups applied.db.p4rt := by
        unfold applyConfig at happly
        simp only [hs] at happly
        obtain ⟨configured,hconfigured,happly⟩ := bind_eq_ok.mp happly
        cases happly
        have hdb := hdb (by rw [hprepared]; rfl)
        exact stepIf_eq_ok (P := fun s : DbSession => HoldsNoGroups s.db.p4rt) hdb
          (fun b hb => configureAppDbTables_noGroups hdb (mapError_eq_ok.mp hb)) hconfigured
      simp only at h
      split at h
      · obtain ⟨-,-,rfl⟩ := map_eq_ok.mp h
        exact happlied
      · cases h
        exact happlied

omit [InetText] in
theorem updateCacheAndUtilizationState_mem {updates : List (PlannedUpdate × Status)} {c : EntityCache} {m : ActionProfileCapacityMap}
    (h : name ∈ (updateCacheAndUtilizationState updates (c,m)).1.2) : name ∈ m := by
  induction updates generalizing c m with
  | nil => exact h
  | cons update updates ih =>
    rw [updateCacheAndUtilizationState] at h
    split at h
    · exact ih h
    · split at h
      · exact h
      · split at h
        · exact h
        · rename_i hadd
          have hmem := ih h
          unfold addUtilization at hadd
          split at hadd
          · cases hadd
            exact hmem
          · split at hadd
            · cases hadd
            · rename_i r _ c' hc'
              cases hadd
              rcases (AList.mem_insert _).mp hmem with rfl | hmem
              · exact AList.lookup_isSome.mp (by simp [hc'])
              · exact hmem

private theorem write_balanced (hs : Balanced s) (lower : LowerLayer) (r : WriteRequest) : Balanced (write lower s r).1 := by
  have haccounted : (write lower s r).1.Accounted := WriteStep.accounted ⟨lower,r,rfl⟩ hs.accounted
  rcases write_state lower s r with heq | ⟨-,planned,initial,statuses,hplan,heq⟩
  · rw [heq]
    exact hs
  · rw [heq] at haccounted ⊢
    refine ⟨haccounted,fun info hinfo name hname => ?_,fun hnone => ?_,hs.configured⟩
    · exact hs.recorded info hinfo name (updateCacheAndUtilizationState_mem hname)
    · have hplanned : planned = [] := by
        change s.irP4Info = none at hnone
        unfold plan at hplan
        simp only [hnone] at hplan
        cases hplan
        rfl
      subst hplanned
      exact hs.started hnone

/-- A config that is valid, for a server that has none: the cache is then rebuilt from the AppDb. -/
def IsFirstConfig (fs : PushFunctions) (s : ServerState) (config : Option ForwardingPipelineConfig) : Prop :=
  s.forwardingPipelineConfig = none ∧ (preprocessConfig fs config).isOk

/-- The condition on a push that the server admits: the AppDb that a cache is rebuilt from holds no groups, and a reconciled
P4Info leaves the cached groups their profiles. -/
def KeepsAccounts (fs : PushFunctions) (env : PushEnvironment) (s : ServerState) (db : DbSession)
    (r : SetForwardingPipelineConfigRequest) : Prop :=
  (allowRequest r.toMutableRequest s.controllers).isOk → match r.action with
  | .verifyAndCommit => IsFirstConfig fs s r.config → HoldsNoGroups db.db.p4rt
  | .commit => ∀ path saved,r.config = none → env.forwardingConfigFullPath = some path → env.readProtoFromFile path = .ok saved →
      IsFirstConfig fs s (some saved) → HoldsNoGroups db.db.p4rt
  | .reconcileAndCommit => ∀ c new old,preprocessConfig fs r.config = .ok (c,new) → isCurrentP4Info fs s new = false →
      s.irP4Info = some old → KeepsProfiles old.toIrP4Info new.irP4Info.toIrP4Info s.entityCache
  | _ => True

variable (fs env) in
theorem reconcile_balanced (hs : Balanced s) (commitToHardware : Bool) (config : Option ForwardingPipelineConfig)
    (db : DbSession) (hkeeps : ∀ c new old,preprocessConfig fs config = .ok (c,new) → isCurrentP4Info fs s new = false →
      s.irP4Info = some old → KeepsProfiles old.toIrP4Info new.irP4Info.toIrP4Info s.entityCache) :
    Balanced (reconcileAndCommitPipelineConfig fs env commitToHardware config s db).1 ∧
      (reconcileAndCommitPipelineConfig fs env commitToHardware config s db).1.entityCache = s.entityCache := by
  rcases reconcileAndCommitPipelineConfig_spec fs env commitToHardware config s db with ⟨hsame,-⟩ | ⟨c,rfl,hadopted,hcache,-⟩
  · rw [hsame]
    exact ⟨hs,rfl⟩
  · exact ⟨hadopted.balanced hcache hs fun new old hnew => hkeeps c new old hnew,hcache⟩

theorem verifyAndCommit_balanced (hs : Balanced s) (config : Option ForwardingPipelineConfig) {db : DbSession}
    (hdb : IsFirstConfig fs s config → HoldsNoGroups db.db.p4rt) : Balanced (verifyAndCommitPipelineConfig fs env config s db).1 := by
  unfold verifyAndCommitPipelineConfig
  split
  · exact hs
  · rename_i hunconfigured
    have hfirst : s.forwardingPipelineConfig = none := by simpa using hunconfigured
    have hnone : s.irP4Info = none := hs.configured hfirst
    obtain ⟨hbalanced,hcache⟩ := reconcile_balanced fs env hs true config db
      fun c new old _ _ hold => by cases hnone.symm.trans hold
    obtain ⟨⟨t,outcome⟩,hr⟩ : ∃ r,reconcileAndCommitPipelineConfig fs env true config s db = r := ⟨_,rfl⟩
    have hrows (db' : DbSession) := firstConfig_noGroups fs env true config hnone db' fun hvalid => hdb ⟨hfirst,hvalid⟩
    rw [hr] at hbalanced hcache hrows ⊢
    cases outcome with
    | error failure => exact hbalanced
    | ok db' =>
      refine rebuildCache_balanced hbalanced ?_ (hrows db' rfl)
      rw [hcache]
      exact (hs.started hnone).noGroups

private theorem push_balanced (hs : Balanced s) (db : DbSession) (r : SetForwardingPipelineConfigRequest)
    (hkeeps : KeepsAccounts fs env s db r) : Balanced (setForwardingPipelineConfig fs env s db r).1 := by
  unfold setForwardingPipelineConfig
  simp only
  split
  · exact hs
  · rename_i hallowed
    change Balanced (performAction fs env r.action r.config s db).1
    have hkeeps := hkeeps (by simpa using hallowed)
    cases haction : r.action with
    | unspecified | verify | verifyAndSave | unknown n => exact hs
    | verifyAndCommit =>
      rw [haction] at hkeeps
      exact verifyAndCommit_balanced hs _ hkeeps
    | commit =>
      rw [haction] at hkeeps
      change Balanced (commitPipelineConfig fs env r.config s db).1
      unfold commitPipelineConfig
      split
      · exact hs
      · rename_i hconfig
        split
        · exact hs
        · rename_i path hpath
          split
          · exact hs
          · rename_i saved hsaved
            exact verifyAndCommit_balanced hs _ (hkeeps path saved (by simpa using hconfig) hpath hsaved)
    | reconcileAndCommit =>
      rw [haction] at hkeeps
      exact (reconcile_balanced fs env hs true r.config db hkeeps).1

end Steps

section WarmBoots
variable [InetText] {fs : PushFunctions} {env : PushEnvironment}

/-- Two servers that differ in their controllers and translations only. -/
structure SameAccounts (s t : ServerState) : Prop where
  irP4Info : t.irP4Info = s.irP4Info
  config : t.forwardingPipelineConfig = s.forwardingPipelineConfig
  capacities : t.capacityByActionProfileName = s.capacityByActionProfileName
  cache : t.entityCache = s.entityCache

omit [InetText] in
theorem SameAccounts.trans {u : ServerState} (h : SameAccounts s t) (h' : SameAccounts t u) : SameAccounts s u :=
  ⟨h'.irP4Info.trans h.irP4Info,h'.config.trans h.config,h'.capacities.trans h.capacities,h'.cache.trans h.cache⟩

omit [InetText] in
theorem SameAccounts.balanced {s t : ServerState} (h : SameAccounts s t) (hs : Balanced s) : Balanced t where
  accounted := by
    intro info hinfo
    rw [h.capacities,h.cache]
    exact hs.accounted info (h.irP4Info ▸ hinfo)
  recorded := fun info hinfo name hname => hs.recorded info (h.irP4Info ▸ hinfo) name (h.capacities ▸ hname)
  started := by
    intro hnone
    obtain ⟨hinfo,hconfig,hcapacities,hcache⟩ := hs.started (h.irP4Info ▸ hnone)
    exact ⟨h.irP4Info.trans hinfo,h.config.trans hconfig,h.capacities.trans hcapacities,by rw [h.cache,hcache]⟩
  configured := fun hnone => h.irP4Info.trans (hs.configured (h.config ▸ hnone))

omit [InetText] in
theorem andThen_sameAccounts {r : ServerState × Fallible Unit} (h : SameAccounts s r.1)
    {next : ServerState → Unit → ServerState × Fallible Unit} (hnext : ∀ t u,SameAccounts t (next t u).1) :
    SameAccounts s (andThen r next).1 := by
  obtain ⟨t,outcome⟩ := r
  cases outcome with
  | error failure => exact h
  | ok u => exact h.trans (hnext t u)

omit [InetText] in
private theorem restoreMembers_sameAccounts (boot : WarmBootState) (s : ServerState) : SameAccounts s (restoreMembers boot s).1 := by
  have hqueues (queueIds : List (String × String)) (assign : QueueTranslator → SwitchTranslation) (s : ServerState) :
      SameAccounts s (restoreTranslator queueIds assign s).1 := by
    unfold restoreTranslator
    split
    · exact ⟨rfl,rfl,rfl,rfl⟩
    · split <;> exact ⟨rfl,rfl,rfl,rfl⟩
  have hports : SameAccounts s (restorePorts boot s).1 := ⟨rfl,rfl,rfl,rfl⟩
  refine andThen_sameAccounts hports fun s _ => andThen_sameAccounts (hqueues _ _ s) fun s _ =>
    andThen_sameAccounts (hqueues _ _ s) fun s _ => ?_
  unfold restoreDeviceId
  split <;> exact ⟨rfl,rfl,rfl,rfl⟩

private theorem warmBoot_balanced (hs : Balanced s) (hnone : s.irP4Info = none) (boot : WarmBootState) {db : DbSession}
    (hdb : HoldsNoGroups db.db.p4rt) : Balanced (rebuildSwStateAfterWarmboot fs env boot s db).1 := by
  unfold rebuildSwStateAfterWarmboot
  split
  · exact hs
  · split
    · exact hs
    · unfold restoreConfig
      split
      · exact hs
      · rename_i saved hsaved
        obtain ⟨hbalanced,hcache⟩ := reconcile_balanced fs env hs false (some saved) db
          fun c new old _ _ hold => by cases hnone.symm.trans hold
        have hrows (db' : DbSession) := firstConfig_noGroups fs env false (some saved) hnone db' fun _ => hdb
        obtain ⟨⟨t,outcome⟩,hr⟩ : ∃ r,reconcileAndCommitPipelineConfig fs env false (some saved) s db = r := ⟨_,rfl⟩
        rw [hr] at hbalanced hcache hrows
        simp only [hr]
        cases outcome with
        | error failure => exact hbalanced
        | ok db' =>
          have hsame := restoreMembers_sameAccounts boot t
          change Balanced (andThen (restoreMembers boot t) fun s _ => rebuildCache s db'.db).1
          obtain ⟨⟨u,restored⟩,hu⟩ : ∃ r,restoreMembers boot t = r := ⟨_,rfl⟩
          rw [hu] at hsame ⊢
          cases restored with
          | error failure => exact hsame.balanced hbalanced
          | ok _ =>
            refine rebuildCache_balanced (hsame.balanced hbalanced) ?_ (hrows db' rfl)
            rw [hsame.cache,hcache]
            exact (hs.started hnone).noGroups

end WarmBoots

section Runs
variable [InetText]

/-- The steps of a server: Writes, pushes, warm boots, and changes of its controllers, ports and queues. -/
inductive ServerStep (fs : PushFunctions) : ServerState → ServerState → Prop
  | write (lower : LowerLayer) (s : ServerState) (r : WriteRequest) : ServerStep fs s (write lower s r).1
  | push (env : PushEnvironment) (s : ServerState) (db : DbSession) (r : SetForwardingPipelineConfigRequest) :
      ServerStep fs s (setForwardingPipelineConfig fs env s db r).1
  | warmBoot (env : PushEnvironment) (boot : WarmBootState) (s : ServerState) (db : DbSession) :
      ServerStep fs s (rebuildSwStateAfterWarmboot fs env boot s db).1
  | configure (s : ServerState) (controllers : ControllerState) (translation : SwitchTranslation) :
      ServerStep fs s { s with controllers := controllers,translation := translation }

/-- The steps that meet the condition: pushes that keep the accounts, and warm boots of a server that starts, with an AppDb that
holds no groups. -/
inductive CleanStep (fs : PushFunctions) : ServerState → ServerState → Prop
  | write (lower : LowerLayer) (s : ServerState) (r : WriteRequest) : CleanStep fs s (write lower s r).1
  | push (env : PushEnvironment) (s : ServerState) (db : DbSession) (r : SetForwardingPipelineConfigRequest)
      (hkeeps : KeepsAccounts fs env s db r) : CleanStep fs s (setForwardingPipelineConfig fs env s db r).1
  | warmBoot (env : PushEnvironment) (boot : WarmBootState) (s : ServerState) (db : DbSession) (hnone : s.irP4Info = none)
      (hdb : HoldsNoGroups db.db.p4rt) : CleanStep fs s (rebuildSwStateAfterWarmboot fs env boot s db).1
  | configure (s : ServerState) (controllers : ControllerState) (translation : SwitchTranslation) :
      CleanStep fs s { s with controllers := controllers,translation := translation }

variable {fs : PushFunctions}

theorem CleanStep.balanced (h : CleanStep fs s t) (hs : Balanced s) : Balanced t := by
  cases h with
  | write lower _ r => exact write_balanced hs lower r
  | push env _ db r hkeeps => exact push_balanced hs db r hkeeps
  | warmBoot env boot _ db hnone hdb => exact warmBoot_balanced hs hnone boot hdb
  | configure _ controllers translation => exact SameAccounts.balanced (s := s) ⟨rfl,rfl,rfl,rfl⟩ hs

/-- In every run of clean steps the totals of every action profile are the sums over the entity cache. -/
theorem accounted_across_pushes {s t : ServerState} (hs : Started s) (hrun : Relation.ReflTransGen (CleanStep fs) s t) :
    t.Accounted := by
  have hbalanced : Balanced t := by
    induction hrun with
    | refl => exact hs.balanced
    | tail _ hstep ih => exact hstep.balanced ih
  exact hbalanced.accounted

end Runs

attribute [local instance] uncompressedInet

theorem freshServer_started : Started freshServer := ⟨rfl,rfl,rfl,rfl⟩

def savedPushEnvironment : PushEnvironment :=
  { samplePushEnvironment with
    forwardingConfigFullPath := some "p4info.pb",readProtoFromFile := fun _ => .ok {},readErrors := fun _ => failsWith_ok _ }

/-- The AppDb with a group of two members, of weights one and two. -/
def groupSession : DbSession :=
  let member (weight : String) := "\x7b\"action\":\"set_nexthop_id\",\"param/nexthop_id\":\"n1\",\"weight\":" ++ weight ++ "\x7d"
  ⟨{ p4rt := AList.singleton "FIXED_WCMP_GROUP_TABLE:\x7b\"match/wcmp_group_id\":\"g1\"\x7d"
      [textField "actions" ("[" ++ member "1" ++ "," ++ member "2" ++ "]")] },0⟩

/-- A warm boot restores the group, and counts nothing of it. -/
theorem warm_boot_forgets_groups : ¬ ∀ (fs : PushFunctions) (env : PushEnvironment) (boot : WarmBootState) (s t : ServerState)
    (db : DbSession),Started s → Relation.ReflTransGen (ServerStep fs) s t →
      (rebuildSwStateAfterWarmboot fs env boot t db).2 = .ok () → (rebuildSwStateAfterWarmboot fs env boot t db).1.Accounted := by
  intro h
  have haccounted := h (samplePushFunctions samplePipeline) savedPushEnvironment {} freshServer freshServer groupSession
    freshServer_started .refl (by decide +kernel)
  have hrebuilt : ∃ t : ServerState,(rebuildSwStateAfterWarmboot (samplePushFunctions samplePipeline) savedPushEnvironment {} freshServer
      groupSession).1 = t := ⟨_,rfl⟩
  obtain ⟨t,ht⟩ := hrebuilt
  rw [ht] at haccounted
  have hcapacity : t.capacityByActionProfileName.lookup "wcmp_group_selector" = some { actionProfile := wcmpSelector } := by
    rw [← ht]
    decide +kernel
  have hinfo : (t.irP4Info.map fun info => (info.actionProfilesByName.lookup "wcmp_group_selector",
      mapTotal (usedAmount true info.toIrP4Info "wcmp_group_selector") t.entityCache.entries)) = some (some wcmpSelector,2) := by
    rw [← ht]
    decide +kernel
  obtain ⟨info,hinfo,hused⟩ := Option.map_eq_some_iff.mp hinfo
  obtain ⟨hprofile,htotal⟩ := Prod.mk.inj hused
  obtain ⟨c,hc,hsum⟩ := haccounted info hinfo "wcmp_group_selector" wcmpSelector hprofile
  cases hcapacity.symm.trans hc
  cases (hsum true).trans htotal

private theorem adopted_sample {pipeline : AcceptedP4Info} {c : ForwardingPipelineConfig}
    (h : Adopted (samplePushFunctions pipeline) c s t) : t.irP4Info = some pipeline := by
  obtain ⟨new,hnew,hpipeline⟩ := h.pipeline
  have hcurrent : isCurrentP4Info (samplePushFunctions pipeline) s new = false := by
    unfold isCurrentP4Info
    cases s.irP4Info <;> rfl
  cases hnew
  rw [if_neg (by simp [hcurrent])] at hpipeline
  exact hpipeline.1

def samplePushed (s : ServerState) (action : PipelineAction) : ServerState :=
  (setForwardingPipelineConfig (samplePushFunctions samplePipeline) samplePushEnvironment s ⟨{},0⟩ (samplePush action)).1

private theorem samplePushed_verifyAndCommit : samplePushed freshServer .verifyAndCommit =
    (verifyAndCommitPipelineConfig (samplePushFunctions samplePipeline) samplePushEnvironment (some {}) freshServer ⟨{},0⟩).1 := by
  have hallowed : (!(allowRequest (samplePush .verifyAndCommit).toMutableRequest freshServer.controllers).isOk) = false := by
    decide +kernel
  rw [samplePushed,setForwardingPipelineConfig]
  simp only [hallowed,Bool.false_eq_true,if_false]
  rfl

/-- The server after a first push and the insertion of a group. -/
def groupServer : ServerState := (write acceptAll (samplePushed freshServer .verifyAndCommit) groupRequest).1

-- Both are only to be unfolded by the kernel from here on.
attribute [local irreducible] write setForwardingPipelineConfig

private theorem groupServer_info : groupServer.irP4Info = some samplePipeline := by
  have hok : (verifyAndCommitPipelineConfig (samplePushFunctions samplePipeline) samplePushEnvironment (some {}) freshServer
      ⟨{},0⟩).2 = .ok () := by decide +kernel
  obtain ⟨c,-,hadopted,-⟩ := (verifyAndCommitPipelineConfig_atomic (samplePushFunctions samplePipeline) samplePushEnvironment
    freshServer ⟨{},0⟩ fun c _ path hpath => by cases hpath).succeeded hok
  rw [groupServer,write_irP4Info,samplePushed_verifyAndCommit]
  exact adopted_sample hadopted

/-- A group that is inserted after a first push is counted after the next one too. -/
theorem accounted_after_second_push : (samplePushed groupServer .reconcileAndCommit).Accounted ∧
    (samplePushed groupServer .reconcileAndCommit).capacityByActionProfileName.lookup "wcmp_group_selector" =
      some { actionProfile := wcmpSelector,currentTotalWeight := 3,currentTotalMembers := 2 } := by
  have hfirst : CleanStep (samplePushFunctions samplePipeline) freshServer (samplePushed freshServer .verifyAndCommit) :=
    .push samplePushEnvironment freshServer ⟨{},0⟩ (samplePush .verifyAndCommit) fun _ _ key hkey => by cases hkey
  have hsecond : CleanStep (samplePushFunctions samplePipeline) groupServer (samplePushed groupServer .reconcileAndCommit) := by
    refine .push samplePushEnvironment groupServer ⟨{},0⟩ (samplePush .reconcileAndCommit) ?_
    intro _ c new old hnew _ hold k e _ _
    rw [groupServer_info] at hold
    cases hnew
    cases hold
    rfl
  exact ⟨accounted_across_pushes freshServer_started (((Relation.ReflTransGen.single hfirst).tail
    (.write acceptAll _ groupRequest)).tail hsecond),by decide +kernel⟩

end SonicPins.P4rtApp
