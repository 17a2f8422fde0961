import SonicPins.P4Fuzzer.SwitchStateBookkeeping

/-! Rejected updates and the switch state: some rejections are noticed only after
the statistics have counted the update. -/
namespace SonicPins.P4Fuzzer
open Lib Pdpi P4rtApp

section Copies
variable {κ ε : Type} [DecidableEq κ]

/-- Both copies of a table hold the same entries, each under its own key. -/
structure EntryTable.InSync (key : ε → κ) (t : EntryTable κ ε) : Prop where
  same : ∀ k,t.ordered.lookup k = t.unordered.lookup k
  keyed : ∀ k e,t.unordered.lookup k = some e → k = key e

/-- The two tables differ in their statistics only. -/
def EntryTable.SameCopies (t t' : EntryTable κ ε) : Prop := t'.ordered = t.ordered ∧ t'.unordered = t.unordered

/-- The maps do not take an update of the key. -/
def EntryTable.Refuses (t : EntryTable κ ε) (type : UpdateType) (k : κ) : Prop :=
  match type with
  | .insert => (t.unordered.lookup k).isSome
  | .delete => t.unordered.lookup k = none
  | .modify => t.unordered.lookup k = none
  | _ => False

variable {key : ε → κ} {t t' : EntryTable κ ε} {type : UpdateType} {k : κ} {e : ε} {status : Status}

theorem EntryTable.InSync.of_sameCopies (h : t.InSync key) (hcopies : t.SameCopies t') : t'.InSync key := by
  constructor
  · rw [hcopies.1,hcopies.2]
    exact h.same
  · rw [hcopies.2]
    exact h.keyed

theorem EntryTable.InSync.store_fails_iff (h : t.InSync key) (hstore : t.store type k e = some (t',status)) :
    status.isOk = false ↔ t.Refuses type k := by
  have hsame : (t.ordered.lookup k).isSome = (t.unordered.lookup k).isSome := by rw [h.same]
  cases type with
  | insert =>
    obtain ⟨-,rfl⟩ := Prod.mk.injEq .. ▸ Option.some.inj hstore
    cases hk : t.unordered.lookup k <;> simp [EntryTable.Refuses,hsame,hk,invalidArgument,Status.isOk,Status.okStatus]
  | delete =>
    obtain ⟨-,rfl⟩ := Prod.mk.injEq .. ▸ Option.some.inj hstore
    cases hk : t.unordered.lookup k <;> simp [EntryTable.Refuses,hsame,hk,invalidArgument,Status.isOk,Status.okStatus]
  | modify =>
    obtain ⟨-,rfl⟩ := Prod.mk.injEq .. ▸ Option.some.inj hstore
    cases hk : t.unordered.lookup k <;> simp [EntryTable.Refuses,hsame,hk,invalidArgument,Status.isOk,Status.okStatus]
  | _ => cases hstore

theorem EntryTable.InSync.store (h : t.InSync key) (hstore : t.store type (key e) e = some (t',status)) :
    t'.InSync key := by
  have hinsert : ({ t with ordered := t.ordered.insert (key e) e,unordered := t.unordered.insert (key e) e } :
      EntryTable κ ε).InSync key := by
    refine ⟨fun k => ?_,fun k e' he' => ?_⟩
    · by_cases hk : k = key e
      · subst hk
        simp
      · simp [AList.lookup_insert_ne hk,h.same]
    · rcases lookup_insert_cases he' with ⟨rfl,rfl⟩ | ⟨-,he'⟩
      · rfl
      · exact h.keyed k e' he'
  cases type with
  | insert =>
    obtain ⟨rfl,-⟩ := Prod.mk.injEq .. ▸ Option.some.inj hstore
    simp only [insertNew,h.same]
    split_ifs
    · exact h.of_sameCopies ⟨rfl,rfl⟩
    · exact hinsert
  | delete =>
    obtain ⟨rfl,-⟩ := Prod.mk.injEq .. ▸ Option.some.inj hstore
    refine ⟨fun k => ?_,fun k e' he' => h.keyed k e' (lookup_erase_cases he').2⟩
    by_cases hk : k = key e
    · subst hk
      simp
    · simp [AList.lookup_erase_ne hk,h.same]
  | modify =>
    obtain ⟨rfl,-⟩ := Prod.mk.injEq .. ▸ Option.some.inj hstore
    exact hinsert
  | _ => cases hstore

theorem EntryTable.store_entries {k' : κ} {e' : ε} (hstore : t.store type k e = some (t',status))
    (he' : t'.unordered.lookup k' = some e') : (type ≠ .delete ∧ e' = e) ∨ t.unordered.lookup k' = some e' := by
  cases type with
  | insert =>
    obtain ⟨rfl,-⟩ := Prod.mk.injEq .. ▸ Option.some.inj hstore
    simp only [insertNew] at he'
    split_ifs at he'
    · exact .inr he'
    · exact (lookup_insert_cases he').imp (fun h => ⟨by decide,h.2⟩) (·.2)
  | delete =>
    obtain ⟨rfl,-⟩ := Prod.mk.injEq .. ▸ Option.some.inj hstore
    exact .inr (lookup_erase_cases he').2
  | modify =>
    obtain ⟨rfl,-⟩ := Prod.mk.injEq .. ▸ Option.some.inj hstore
    exact (lookup_insert_cases he').imp (fun h => ⟨by decide,h.2⟩) (·.2)
  | _ => cases hstore

end Copies

/-- The call fails only in the state that it started from. -/
def KeptWhenRejected (s : SwitchState) (o : Outcome) : Prop :=
  ∀ s' status,o = some (s',status) → status.isOk = false → s' = s

theorem KeptWhenRejected.of_unchanged (s : SwitchState) (status : Status) : KeptWhenRejected s (some (s,status)) := by
  intro s' status' h _
  cases h
  rfl

theorem keptWhenRejected_store_iff {κ ε : Type} [DecidableEq κ] {key : ε → κ} {t : EntryTable κ ε} {type : UpdateType}
    {k : κ} {e : ε} {s : SwitchState} (h : t.InSync key) (f : EntryTable κ ε → SwitchState)
    (hchanged : t.Refuses type k → ∀ t',f t' ≠ s) :
    KeptWhenRejected s ((t.store type k e).map fun r => (f r.1,r.2)) ↔ ¬ t.Refuses type k := by
  constructor
  · intro hkept hrefuses
    cases hstore : t.store type k e with
    | none => cases type <;> first | exact hrefuses.elim | exact absurd hstore (by simp [EntryTable.store])
    | some r =>
      obtain ⟨t',status⟩ := r
      rw [hstore] at hkept
      exact hchanged hrefuses t' (hkept _ _ rfl ((h.store_fails_iff hstore).mpr hrefuses))
  · intro htakes s' status hsome hfails
    obtain ⟨⟨t',status'⟩,hstore,hr⟩ := Option.map_eq_some_iff.mp hsome
    cases hr
    exact absurd ((h.store_fails_iff hstore).mp hfails) htakes

theorem Outcome.andThen_cases {o : Outcome} {next : SwitchState → Outcome} {s' : SwitchState} {status : Status}
    (h : o.andThen next = some (s',status)) :
    o = some (s',status) ∨ ∃ s first,o = some (s,first) ∧ next s = some (s',status) := by
  cases o with
  | none => cases h
  | some r =>
    obtain ⟨s,first⟩ := r
    simp only [Outcome.andThen] at h
    split_ifs at h with hfirst
    · exact .inr ⟨s,first,rfl,h⟩
    · exact .inl h

section States

/-- All tables are in sync, and hold their own entries only. -/
structure SwitchState.InSync (s : SwitchState) : Prop where
  tables : ∀ id,(s.tables id).InSync TableEntry.key
  owned : ∀ id k e,(s.tables id).unordered.lookup k = some e → e.tableId = id
  multicast : s.multicast.InSync MulticastGroupEntry.multicastGroupId

/-- The two states differ in their statistics and counts only. -/
structure SwitchState.SameEntries (s s' : SwitchState) : Prop where
  irP4Info : s'.irP4Info = s.irP4Info
  tables : ∀ id,(s.tables id).SameCopies (s'.tables id)
  multicast : s.multicast.SameCopies s'.multicast

variable {s s' s'' : SwitchState}

theorem SwitchState.SameEntries.refl (s : SwitchState) : s.SameEntries s := ⟨rfl,fun _ => ⟨rfl,rfl⟩,rfl,rfl⟩

theorem SwitchState.SameEntries.trans (h : s.SameEntries s') (h' : s'.SameEntries s'') : s.SameEntries s'' where
  irP4Info := h'.irP4Info.trans h.irP4Info
  tables id := ⟨(h'.tables id).1.trans (h.tables id).1,(h'.tables id).2.trans (h.tables id).2⟩
  multicast := ⟨h'.multicast.1.trans h.multicast.1,h'.multicast.2.trans h.multicast.2⟩

theorem SwitchState.InSync.of_sameEntries (h : s.InSync) (hsame : s.SameEntries s') : s'.InSync where
  tables id := (h.tables id).of_sameCopies (hsame.tables id)
  owned id k e he := h.owned id k e (by rwa [← (hsame.tables id).2])
  multicast := h.multicast.of_sameCopies hsame.multicast

theorem sameEntries_recordEntry (s : SwitchState) (id : UInt32) (sign : Int) (group : Option GroupResources) :
    s.SameEntries (s.recordEntry id sign group) := by
  refine ⟨rfl,fun id' => ?_,rfl,rfl⟩
  by_cases hid : id' = id
  · subst hid
    simp [SwitchState.recordEntry,EntryTable.SameCopies,EntryTable.record]
  · simp [SwitchState.recordEntry,EntryTable.SameCopies,Function.update_of_ne hid]

theorem sameEntries_recordMulticast (s : SwitchState) (sign replicas seen : Int) :
    s.SameEntries (s.recordMulticast sign replicas seen) := ⟨rfl,fun _ => ⟨rfl,rfl⟩,rfl,rfl⟩

/-- How the entry count changes with an update of the type. -/
def countChange : UpdateType → Int
  | .insert => 1
  | .delete => -1
  | _ => 0

/-- Statistics that fail change nothing, and others have counted the update. -/
structure Counted (s : SwitchState) (type : UpdateType) (mid : SwitchState) : Prop where
  sameEntries : s.SameEntries mid
  count : mid.currentEntries = s.currentEntries + countChange type

theorem Counted.currentEntries_ne {type : UpdateType} (h : Counted s type s') (htype : countChange type ≠ 0) :
    s'.currentEntries ≠ s.currentEntries := by
  rw [h.count]
  omega

theorem Counted.trans {type type' : UpdateType} (h : Counted s type s') (h' : Counted s' type' s'') :
    s.SameEntries s'' ∧ s''.currentEntries = s.currentEntries + countChange type + countChange type' :=
  ⟨h.sameEntries.trans h'.sameEntries,by rw [h'.count,h.count]⟩

end States

section Statistics
variable {s : SwitchState}

theorem insertStatistics_counted (s : SwitchState) (table : IrTableDefinition) (c : TableEntry) :
    Counted s .insert (insertStatistics s table c) := ⟨sameEntries_recordEntry ..,rfl⟩

theorem deleteStatistics_cases (s : SwitchState) (table : IrTableDefinition) (c : TableEntry) :
    (table.usesOneshot = true ∧ (s.tables c.tableId).unordered.lookup c.key = none ∧
      deleteStatistics s table c = (s,nonExistentStatistics "DELETE" "table entry")) ∨
    ((table.usesOneshot = true → (s.tables c.tableId).unordered.lookup c.key ≠ none) ∧
      ∃ mid,Counted s .delete mid ∧ deleteStatistics s table c = (mid,.okStatus)) := by
  unfold deleteStatistics
  cases honeshot : table.usesOneshot with
  | true =>
    cases hlookup : (s.tables c.tableId).unordered.lookup c.key with
    | none => exact .inl ⟨rfl,rfl,rfl⟩
    | some stored => exact .inr ⟨fun _ => Option.some_ne_none _,_,⟨sameEntries_recordEntry ..,rfl⟩,rfl⟩
  | false => exact .inr ⟨nofun,_,⟨sameEntries_recordEntry ..,rfl⟩,rfl⟩

private theorem modifyStatistics_counted (hs : s.InSync) {table : IrTableDefinition} {c stored : TableEntry}
    (htable : s.irP4Info.tablesById.lookup c.tableId = some table)
    (hstored : (s.tables c.tableId).unordered.lookup c.key = some stored) :
    ∃ mid,Counted s .modify mid ∧ updateResourceStatistics s c .modify = some (mid,.okStatus) := by
  have hkey : stored.key = c.key := ((hs.tables _).keyed _ _ hstored).symm
  have hid : stored.tableId = c.tableId := hs.owned _ _ _ hstored
  rcases deleteStatistics_cases s table stored with ⟨-,hnone,-⟩ | ⟨-,mid,hmid,hdelete⟩
  · rw [hid,hkey,hstored] at hnone
    cases hnone
  · obtain ⟨hsame,hcount⟩ := hmid.trans (insertStatistics_counted mid table c)
    refine ⟨insertStatistics mid table c,⟨hsame,by rw [hcount]; simp [countChange]⟩,?_⟩
    simp only [updateResourceStatistics,htable,hstored,hdelete,Outcome.andThen,Status.okStatus_isOk,if_true]

theorem insertMulticastStatistics_counted (s : SwitchState) (c : MulticastGroupEntry) :
    Counted s .insert (insertMulticastStatistics s c) := ⟨sameEntries_recordMulticast ..,rfl⟩

theorem deleteMulticastStatistics_cases (s : SwitchState) (c : MulticastGroupEntry) :
    (s.multicast.unordered.lookup c.multicastGroupId = none ∧
      deleteMulticastStatistics s c = (s,nonExistentStatistics "DELETE" "multicast group table entry")) ∨
    (s.multicast.unordered.lookup c.multicastGroupId ≠ none ∧
      ∃ mid,Counted s .delete mid ∧ deleteMulticastStatistics s c = (mid,.okStatus)) := by
  unfold deleteMulticastStatistics
  cases hlookup : s.multicast.unordered.lookup c.multicastGroupId with
  | none => exact .inl ⟨rfl,rfl⟩
  | some stored => exact .inr ⟨Option.some_ne_none _,_,⟨sameEntries_recordMulticast ..,rfl⟩,rfl⟩

private theorem modifyMulticastStatistics_counted (hs : s.InSync) {c stored : MulticastGroupEntry}
    (hstored : s.multicast.unordered.lookup c.multicastGroupId = some stored) :
    ∃ mid,Counted s .modify mid ∧ updateMulticastResourceStatistics s c .modify = (mid,.okStatus) := by
  have hid : c.multicastGroupId = stored.multicastGroupId := hs.multicast.keyed _ _ hstored
  rcases deleteMulticastStatistics_cases s stored with ⟨hnone,-⟩ | ⟨-,mid,hmid,hdelete⟩
  · rw [← hid,hstored] at hnone
    cases hnone
  · obtain ⟨hsame,hcount⟩ := hmid.trans (insertMulticastStatistics_counted mid c)
    refine ⟨insertMulticastStatistics mid c,⟨hsame,by rw [hcount]; simp [countChange]⟩,?_⟩
    simp only [updateMulticastResourceStatistics,hstored,hdelete,Status.okStatus_isOk,if_true]

end Statistics

section Rejections
variable [InetText] {s : SwitchState}

/-- The update of a table entry is rejected only after it was counted. -/
def SwitchState.MiscountsTableEntry (s : SwitchState) (type : UpdateType) (entry : TableEntry) : Prop :=
  ∃ table c,s.irP4Info.tablesById.lookup entry.tableId = some table ∧
    canonicalizeTableEntry s.irP4Info.toIrP4Info entry (type = .delete) = .ok c ∧
    ((type = .insert ∧ (s.tables entry.tableId).unordered.lookup c.key ≠ none) ∨
      (type = .delete ∧ table.usesOneshot = false ∧ (s.tables entry.tableId).unordered.lookup c.key = none))

/-- The update of a multicast group is rejected only after it was counted. -/
def SwitchState.MiscountsMulticastGroup (s : SwitchState) (update : Update) : Prop :=
  ∃ c,canonicalizeEntity s.irP4Info.toIrP4Info update.entity (update.type = .delete) = .ok c ∧
    update.type = .insert ∧ s.multicast.unordered.lookup (multicastGroupEntry c).multicastGroupId ≠ none

/-- The update is rejected only after it was counted: the insertion of a present key, or
the deletion of an absent one from a table without action profiles. -/
def SwitchState.Miscounts (s : SwitchState) (update : Update) : Prop :=
  match update.entity with
  | .packetReplicationEngineEntry (.multicastGroupEntry _) => s.MiscountsMulticastGroup update
  | entity => s.MiscountsTableEntry update.type (entityTableEntry entity)

omit [InetText] in
theorem EntryTable.SameCopies.refuses_iff {κ ε : Type} [DecidableEq κ] {t t' : EntryTable κ ε} (h : t.SameCopies t')
    (type : UpdateType) (k : κ) : t'.Refuses type k ↔ t.Refuses type k := by
  unfold EntryTable.Refuses
  rw [h.2]

omit [InetText] in
theorem storeTable_kept_iff {mid : SwitchState} {type : UpdateType} {id : UInt32} {c : TableEntry} (hs : s.InSync)
    (hmid : Counted s type mid) (hne : (s.tables id).Refuses type c.key → countChange type ≠ 0) :
    KeptWhenRejected s (((mid.tables id).store type c.key c).map fun r =>
      ({ mid with tables := Function.update mid.tables id r.1 },r.2)) ↔ ¬ (s.tables id).Refuses type c.key := by
  have hrefuses := (hmid.sameEntries.tables id).refuses_iff type c.key
  rw [← hrefuses]
  refine keptWhenRejected_store_iff ((hs.of_sameEntries hmid.sameEntries).tables id)
    (fun t => { mid with tables := Function.update mid.tables id t }) fun h t heq => ?_
  have hcount := congrArg SwitchState.currentEntries heq
  exact hmid.currentEntries_ne (hne (hrefuses.mp h)) hcount

omit [InetText] in
theorem storeMulticast_kept_iff {mid : SwitchState} {type : UpdateType} {c : MulticastGroupEntry} (hs : s.InSync)
    (hmid : Counted s type mid) (hne : s.multicast.Refuses type c.multicastGroupId → countChange type ≠ 0) :
    KeptWhenRejected s ((mid.multicast.store type c.multicastGroupId c).map fun r =>
      ({ mid with multicast := r.1 },r.2)) ↔ ¬ s.multicast.Refuses type c.multicastGroupId := by
  have hrefuses := hmid.sameEntries.multicast.refuses_iff type c.multicastGroupId
  rw [← hrefuses]
  refine keptWhenRejected_store_iff (hs.of_sameEntries hmid.sameEntries).multicast
    (fun t => { mid with multicast := t }) fun h t heq => ?_
  have hcount := congrArg SwitchState.currentEntries heq
  exact hmid.currentEntries_ne (hne (hrefuses.mp h)) hcount

private theorem miscountsTableEntry_iff {type : UpdateType} {entry c : TableEntry} {table : IrTableDefinition}
    (htable : s.irP4Info.tablesById.lookup entry.tableId = some table)
    (hc : canonicalizeTableEntry s.irP4Info.toIrP4Info entry (type = .delete) = .ok c) :
    s.MiscountsTableEntry type entry ↔
      (type = .insert ∧ (s.tables entry.tableId).unordered.lookup c.key ≠ none) ∨
      (type = .delete ∧ table.usesOneshot = false ∧ (s.tables entry.tableId).unordered.lookup c.key = none) := by
  constructor
  · rintro ⟨table',c',htable',hc',h⟩
    cases htable.symm.trans htable'
    cases hc.symm.trans hc'
    exact h
  · exact fun h => ⟨table,c,htable,hc,h⟩

omit [InetText] in
theorem Outcome.andThen_okStatus (mid : SwitchState) (next : SwitchState → Outcome) :
    Outcome.andThen (some (mid,.okStatus)) next = next mid := rfl

theorem applyTableUpdate_kept_iff (hs : s.InSync) (type : UpdateType) (entry : TableEntry) :
    KeptWhenRejected s (s.applyTableUpdate type entry) ↔ ¬ s.MiscountsTableEntry type entry := by
  cases htable : s.irP4Info.tablesById.lookup entry.tableId with
  | none =>
    have hnone : s.applyTableUpdate type entry = none := by simp [SwitchState.applyTableUpdate,htable]
    refine iff_of_true (fun s' status h => ?_) ?_
    · rw [hnone] at h
      cases h
    · rintro ⟨table,c,htable',-⟩
      cases htable.symm.trans htable'
  | some table =>
    cases hc : canonicalizeTableEntry s.irP4Info.toIrP4Info entry (type = .delete) with
    | error status =>
      have hfailed : s.applyTableUpdate type entry = some (s,status) := by simp [SwitchState.applyTableUpdate,htable,hc]
      refine iff_of_true (hfailed ▸ .of_unchanged s status) ?_
      rintro ⟨table',c,-,hc',-⟩
      cases hc.symm.trans hc'
    | ok c =>
      have hid : c.tableId = entry.tableId := (canonicalizeTableEntry_spec hc htable).1
      have hupdate : s.applyTableUpdate type entry = Outcome.andThen (updateResourceStatistics s c type) fun s =>
          ((s.tables entry.tableId).store type c.key c).map fun r =>
            ({ s with tables := Function.update s.tables entry.tableId r.1 },r.2) := by
        simp [SwitchState.applyTableUpdate,htable,hc]
      rw [miscountsTableEntry_iff htable hc,hupdate,← hid]
      rw [← hid] at htable
      cases type with
      | insert =>
        rw [show updateResourceStatistics s c .insert = some (insertStatistics s table c,.okStatus) by
          simp [updateResourceStatistics,htable],Outcome.andThen_okStatus,
          storeTable_kept_iff hs (insertStatistics_counted s table c) fun _ => by simp [countChange]]
        simp [EntryTable.Refuses,Option.isSome_iff_ne_none]
      | delete =>
        rw [show updateResourceStatistics s c .delete = some (deleteStatistics s table c) by
          simp [updateResourceStatistics,htable]]
        rcases deleteStatistics_cases s table c with ⟨honeshot,-,hfailed⟩ | ⟨hpresent,mid,hmid,hdelete⟩
        · rw [hfailed]
          exact iff_of_true (.of_unchanged s _) (by simp [honeshot])
        · rw [hdelete,Outcome.andThen_okStatus,storeTable_kept_iff hs hmid fun _ => by simp [countChange]]
          cases honeshot : table.usesOneshot with
          | true => simp [EntryTable.Refuses,hpresent honeshot]
          | false => simp [EntryTable.Refuses]
      | modify =>
        refine iff_of_true ?_ (by simp)
        cases hstored : (s.tables c.tableId).unordered.lookup c.key with
        | none =>
          rw [show updateResourceStatistics s c .modify = some (s,nonExistentStatistics "MODIFY" "table entry") by
            simp [updateResourceStatistics,htable,hstored]]
          exact .of_unchanged s _
        | some stored =>
          obtain ⟨mid,hmid,hmodify⟩ := modifyStatistics_counted hs htable hstored
          have htakes : ¬ (s.tables c.tableId).Refuses .modify c.key := by simp [EntryTable.Refuses,hstored]
          rw [hmodify,Outcome.andThen_okStatus]
          exact (storeTable_kept_iff hs hmid fun h => absurd h htakes).mpr htakes
      | unspecified =>
        rw [show updateResourceStatistics s c .unspecified = some (s,unspecifiedStatistics .unspecified) by
          simp [updateResourceStatistics,htable]]
        exact iff_of_true (.of_unchanged s _) (by simp)
      | unknown n =>
        rw [show updateResourceStatistics s c (.unknown n) = some (s,unspecifiedStatistics (.unknown n)) by
          simp [updateResourceStatistics,htable]]
        exact iff_of_true (.of_unchanged s _) (by simp)

private theorem applyMulticastUpdate_kept_iff (hs : s.InSync) (update : Update) :
    KeptWhenRejected s (s.applyMulticastUpdate update) ↔ ¬ s.MiscountsMulticastGroup update := by
  unfold SwitchState.applyMulticastUpdate SwitchState.MiscountsMulticastGroup
  cases canonicalizeEntity s.irP4Info.toIrP4Info update.entity (update.type = .delete) with
  | error status => exact iff_of_true (.of_unchanged s status) (by simp)
  | ok canonical =>
    simp only [Except.ok.injEq,exists_eq_left']
    generalize multicastGroupEntry canonical = c
    cases htype : update.type with
    | insert =>
      rw [show updateMulticastResourceStatistics s c .insert = (insertMulticastStatistics s c,.okStatus) from rfl,
        Outcome.andThen_okStatus,storeMulticast_kept_iff hs (insertMulticastStatistics_counted s c) fun _ => by
          simp [countChange]]
      simp [EntryTable.Refuses,Option.isSome_iff_ne_none]
    | delete =>
      refine iff_of_true ?_ (by simp)
      rcases deleteMulticastStatistics_cases s c with ⟨-,hfailed⟩ | ⟨hpresent,mid,hmid,hdelete⟩
      · rw [show updateMulticastResourceStatistics s c .delete = _ from hfailed]
        exact .of_unchanged s _
      · rw [show updateMulticastResourceStatistics s c .delete = _ from hdelete,Outcome.andThen_okStatus]
        exact (storeMulticast_kept_iff hs hmid fun _ => by simp [countChange]).mpr hpresent
    | modify =>
      refine iff_of_true ?_ (by simp)
      cases hstored : s.multicast.unordered.lookup c.multicastGroupId with
      | none =>
        simp only [updateMulticastResourceStatistics,hstored]
        exact .of_unchanged s _
      | some stored =>
        obtain ⟨mid,hmid,hmodify⟩ := modifyMulticastStatistics_counted hs hstored
        have htakes : ¬ s.multicast.Refuses .modify c.multicastGroupId := by simp [EntryTable.Refuses,hstored]
        rw [hmodify,Outcome.andThen_okStatus]
        exact (storeMulticast_kept_iff hs hmid fun h => absurd h htakes).mpr htakes
    | unspecified => exact iff_of_true (.of_unchanged s _) (by simp)
    | unknown n => exact iff_of_true (.of_unchanged s _) (by simp)

private theorem applyUpdate_kept_iff (hs : s.InSync) (update : Update) :
    KeptWhenRejected s (s.applyUpdate update) ↔ ¬ s.Miscounts update := by
  obtain ⟨type,entity⟩ := update
  cases entity with
  | packetReplicationEngineEntry r =>
    cases r with
    | multicastGroupEntry e => exact applyMulticastUpdate_kept_iff hs _
    | _ => exact applyTableUpdate_kept_iff hs type _
  | _ => exact applyTableUpdate_kept_iff hs type _

end Rejections

section Reachability
variable [InetText]

/-- The states of a switch state from its construction on, after calls that succeed or fail. -/
inductive Reached (info : AcceptedP4Info) : SwitchState → Prop
  | fresh : Reached info { irP4Info := info }
  | call {s s' : SwitchState} {c : Call} {status : Status} : Reached info s → s.call c = some (s',status) → Reached info s'

variable {s s' : SwitchState} {status : Status}

omit [InetText] in
theorem deleteStatistics_sameEntries (s : SwitchState) (table : IrTableDefinition) (c : TableEntry) :
    s.SameEntries (deleteStatistics s table c).1 := by
  rcases deleteStatistics_cases s table c with ⟨-,-,h⟩ | ⟨-,mid,hmid,h⟩
  · rw [h]
    exact .refl s
  · rw [h]
    exact hmid.sameEntries

omit [InetText] in
theorem updateResourceStatistics_sameEntries {c : TableEntry} {type : UpdateType}
    (h : updateResourceStatistics s c type = some (s',status)) : s.SameEntries s' := by
  unfold updateResourceStatistics at h
  cases htable : s.irP4Info.tablesById.lookup c.tableId with
  | none => simp [htable] at h
  | some table =>
    rw [htable] at h
    cases type with
    | insert =>
      cases h
      exact (insertStatistics_counted s table c).sameEntries
    | delete =>
      obtain rfl := congrArg Prod.fst (Option.some.inj h)
      exact deleteStatistics_sameEntries s table c
    | modify =>
      cases hstored : (s.tables c.tableId).unordered.lookup c.key with
      | none =>
        simp only [hstored] at h
        cases h
        exact .refl s
      | some stored =>
        simp only [hstored] at h
        have hdelete := deleteStatistics_sameEntries s table stored
        rcases Outcome.andThen_cases h with h | ⟨mid,first,hmid,h⟩
        · rwa [Option.some.inj h] at hdelete
        · rw [Option.some.inj hmid] at hdelete
          cases h
          exact hdelete.trans (insertStatistics_counted mid table c).sameEntries
    | unspecified =>
      cases h
      exact .refl s
    | unknown _ =>
      cases h
      exact .refl s

omit [InetText] in
theorem deleteMulticastStatistics_sameEntries (s : SwitchState) (c : MulticastGroupEntry) :
    s.SameEntries (deleteMulticastStatistics s c).1 := by
  rcases deleteMulticastStatistics_cases s c with ⟨-,h⟩ | ⟨-,mid,hmid,h⟩
  · rw [h]
    exact .refl s
  · rw [h]
    exact hmid.sameEntries

omit [InetText] in
theorem updateMulticastResourceStatistics_sameEntries (s : SwitchState) (c : MulticastGroupEntry) (type : UpdateType) :
    s.SameEntries (updateMulticastResourceStatistics s c type).1 := by
  unfold updateMulticastResourceStatistics
  cases type with
  | insert => exact (insertMulticastStatistics_counted s c).sameEntries
  | delete => exact deleteMulticastStatistics_sameEntries s c
  | modify =>
    cases s.multicast.unordered.lookup c.multicastGroupId with
    | none => exact .refl s
    | some stored =>
      have hdelete := deleteMulticastStatistics_sameEntries s stored
      simp only
      split_ifs
      · exact hdelete.trans (insertMulticastStatistics_counted _ c).sameEntries
      · exact hdelete
  | unspecified => exact .refl s
  | unknown _ => exact .refl s

private theorem applyTableUpdate_inSync (hs : s.InSync) {type : UpdateType} {entry : TableEntry}
    (h : s.applyTableUpdate type entry = some (s',status)) : s'.InSync := by
  unfold SwitchState.applyTableUpdate at h
  split at h
  · cases h
  · rename_i table htable
    split at h
    · cases h
      exact hs
    · rename_i c hc
      have hid : c.tableId = entry.tableId := (canonicalizeTableEntry_spec hc htable).1
      rcases Outcome.andThen_cases h with h | ⟨mid,first,hmid,h⟩
      · exact hs.of_sameEntries (updateResourceStatistics_sameEntries h)
      · have hmid := hs.of_sameEntries (updateResourceStatistics_sameEntries hmid)
        obtain ⟨⟨t,status'⟩,hstore,h⟩ := Option.map_eq_some_iff.mp h
        cases h
        refine ⟨fun id => ?_,fun id k e he => ?_,hmid.multicast⟩ <;> by_cases hid' : id = entry.tableId
        · subst hid'
          simpa using (hmid.tables _).store hstore
        · simpa [Function.update_of_ne hid'] using hmid.tables id
        · subst hid'
          simp only [Function.update_self] at he
          rcases EntryTable.store_entries hstore he with ⟨-,rfl⟩ | he
          · exact hid
          · exact hmid.owned _ k e he
        · exact hmid.owned id k e (by simpa [Function.update_of_ne hid'] using he)

private theorem applyMulticastUpdate_inSync (hs : s.InSync) {u : Update} (h : s.applyMulticastUpdate u = some (s',status)) :
    s'.InSync := by
  unfold SwitchState.applyMulticastUpdate at h
  split at h
  · cases h
    exact hs
  · rename_i canonical _
    have hsame := updateMulticastResourceStatistics_sameEntries s (multicastGroupEntry canonical) u.type
    rcases Outcome.andThen_cases h with h | ⟨mid,first,hmid,h⟩
    · rw [Option.some.inj h] at hsame
      exact hs.of_sameEntries hsame
    · rw [Option.some.inj hmid] at hsame
      have hmid := hs.of_sameEntries hsame
      obtain ⟨⟨t,status'⟩,hstore,h⟩ := Option.map_eq_some_iff.mp h
      cases h
      exact ⟨hmid.tables,hmid.owned,hmid.multicast.store hstore⟩

theorem applyUpdate_inSync (hs : s.InSync) {u : Update} (h : s.applyUpdate u = some (s',status)) : s'.InSync := by
  unfold SwitchState.applyUpdate at h
  split at h
  · exact applyMulticastUpdate_inSync hs h
  · exact applyTableUpdate_inSync hs h

private theorem insertAll_inSync (hs : s.InSync) {entities : List Entity} (h : s.insertAll entities = some (s',status)) :
    s'.InSync := by
  induction entities generalizing s with
  | nil =>
    cases h
    exact hs
  | cons entity entities ih =>
    rcases Outcome.andThen_cases h with h | ⟨mid,first,hmid,h⟩
    · exact applyUpdate_inSync hs h
    · exact ih (applyUpdate_inSync hs hmid) h

omit [InetText] in
theorem EntryTable.InSync.empty {κ ε : Type} [DecidableEq κ] (key : ε → κ) {t : EntryTable κ ε} (hordered : t.ordered = ∅)
    (hunordered : t.unordered = ∅) : t.InSync key := by
  constructor
  · simp [hordered,hunordered]
  · simp [hunordered]

omit [InetText] in
theorem SwitchState.InSync.empty (htables : ∀ id,(s.tables id).ordered = ∅ ∧ (s.tables id).unordered = ∅)
    (hmulticast : s.multicast.ordered = ∅ ∧ s.multicast.unordered = ∅) : s.InSync where
  tables id := .empty _ (htables id).1 (htables id).2
  owned id k e he := by simp [(htables id).2] at he
  multicast := .empty _ hmulticast.1 hmulticast.2

theorem Reached.inSync {info : AcceptedP4Info} (h : Reached info s) : s.InSync := by
  induction h with
  | fresh => exact .empty (fun _ => ⟨rfl,rfl⟩) ⟨rfl,rfl⟩
  | @call s s' c status _ hcall ih =>
    cases c with
    | applyUpdate u => exact applyUpdate_inSync ih hcall
    | setEntities entities => exact insertAll_inSync (.empty (fun _ => ⟨rfl,rfl⟩) ⟨rfl,rfl⟩) hcall
    | clearTableEntries =>
      cases hcall
      exact .empty (fun _ => ⟨rfl,rfl⟩) ⟨rfl,rfl⟩

/-- In every reachable state, the update leaves the state as it was when it is rejected,
unless it is one that is rejected only after it was counted. -/
theorem rejected_update_kept_iff {info : AcceptedP4Info} (h : Reached info s) (update : Update) :
    KeptWhenRejected s (s.applyUpdate update) ↔ ¬ s.Miscounts update := applyUpdate_kept_iff h.inSync update

end Reachability

attribute [local instance] uncompressedInet

/-- The deletion of an absent group is noticed before it is counted. -/
theorem absent_group_kept :
    let s : SwitchState := { irP4Info := samplePipeline }
    let update : Update := ⟨.delete,.tableEntry (wcmpGroup "g1" [])⟩
    (s.applyUpdate update).map (fun r => r.2.isOk) = some false ∧ KeptWhenRejected s (s.applyUpdate update) := by
  refine ⟨by decide,(rejected_update_kept_iff (@Reached.fresh _ samplePipeline) _).mpr ?_⟩
  rintro ⟨table,c,htable,-,⟨htype,-⟩ | ⟨-,honeshot,-⟩⟩
  · cases htype
  · cases htable
    cases honeshot

/-- The deletion of an absent route is counted, and leaves a negative number of entries. -/
theorem absent_route_counted : ¬ ∀ (info : AcceptedP4Info) (s : SwitchState),Reached info s →
    ∀ (update : Update) (s' : SwitchState) (status : Status),s.applyUpdate update = some (s',status) →
      status.isOk = false → s' = s := by
  intro hclaim
  let s : SwitchState := { irP4Info := samplePipeline }
  let update : Update := ⟨.delete,.tableEntry { tableId := 0x02000004,matches_ := [⟨1,.lpm [10,0,0,0] 8⟩] }⟩
  have hresult : (s.applyUpdate update).map (fun r => (r.1.currentEntries,r.2.isOk)) = some (-1,false) := by decide
  obtain ⟨⟨s',status⟩,happly,hr⟩ := Option.map_eq_some_iff.mp hresult
  obtain ⟨hcount,hfails⟩ := Prod.mk.injEq .. ▸ hr
  have hsame := hclaim samplePipeline s .fresh update s' status happly hfails
  rw [hsame] at hcount
  cases hcount

end SonicPins.P4Fuzzer
