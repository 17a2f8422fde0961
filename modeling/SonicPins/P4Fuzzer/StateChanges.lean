import SonicPins.P4Fuzzer.EntryTables
import SonicPins.Pdpi.TranslationSpecs

/-! What an update does to the switch state: one entry more, one less, or both. -/
namespace SonicPins.P4Fuzzer
open Lib Pdpi P4rtApp

variable {id : UInt32} {e c : TableEntry} {table : IrTableDefinition} {type : UpdateType} {status : Status}

section Changes

def tableMeasures : Measures TableEntryKey TableEntry := ⟨TableEntry.key,getAllActionProfileResourceForTableEntry⟩

def multicastMeasures : Measures UInt32 MulticastGroupEntry :=
  ⟨MulticastGroupEntry.multicastGroupId,fun e => ⟨e.replicas.length,0⟩⟩

namespace SwitchState

def counted (s : SwitchState) (sign : Int) : SwitchState :=
  { s with
    currentEntries := s.currentEntries + sign,peakEntriesSeen := max s.peakEntriesSeen (s.currentEntries + sign) }

def withTable (s : SwitchState) (id : UInt32) (t : EntryTable TableEntryKey TableEntry) : SwitchState :=
  { s with tables := Function.update s.tables id t }

def withMulticast (s : SwitchState) (t : EntryTable UInt32 MulticastGroupEntry) : SwitchState := { s with multicast := t }

@[simp] theorem counted_tables (s : SwitchState) (sign : Int) : (s.counted sign).tables = s.tables := rfl

@[simp] theorem withTable_self (s : SwitchState) (id : UInt32) (t : EntryTable TableEntryKey TableEntry) :
    (s.withTable id t).tables id = t := Function.update_self ..

@[simp] theorem withTable_withTable (s : SwitchState) (id : UInt32) (t t' : EntryTable TableEntryKey TableEntry) :
    (s.withTable id t).withTable id t' = s.withTable id t' := by
  simp [withTable]

@[simp] theorem withTable_counted (s : SwitchState) (id : UInt32) (t : EntryTable TableEntryKey TableEntry) (sign : Int) :
    (s.withTable id t).counted sign = (s.counted sign).withTable id t := rfl

theorem withTable_of_ne (s : SwitchState) {id' : UInt32} (t : EntryTable TableEntryKey TableEntry) (h : id' ≠ id) :
    (s.withTable id t).tables id' = s.tables id' := Function.update_of_ne h ..

/-- Entries of tables without action profiles have no action sets. -/
def Unweighted (table : IrTableDefinition) (e : TableEntry) : Prop := table.usesOneshot = false → piActionSetWeights e = []

/-- All tables are consistent, and the total counts the entries of all of them. -/
structure Consistent (s : SwitchState) : Prop where
  tables : ∀ id,(s.tables id).Consistent tableMeasures
  multicast : s.multicast.Consistent multicastMeasures
  currentEntries : s.currentEntries =
    ((s.irP4Info.tablesById.map Prod.fst).map fun id => ((s.tables id).unordered.entries.length : Int)).sum +
      s.multicast.unordered.entries.length

structure Good (s : SwitchState) : Prop where
  tables : ∀ id,(s.tables id).Good tableMeasures
  owned : ∀ id k e,(s.tables id).unordered.lookup k = some e → e.tableId = id
  unweighted : ∀ id table,s.irP4Info.tablesById.lookup id = some table →
    ∀ k e,(s.tables id).unordered.lookup k = some e → Unweighted table e
  multicast : s.multicast.Good multicastMeasures
  currentEntries : s.currentEntries =
    ((s.irP4Info.tablesById.map Prod.fst).map fun id => (s.tables id).current.entries).sum + s.multicast.current.entries
  peakEntries : s.currentEntries ≤ s.peakEntriesSeen

structure PeaksSince (b s : SwitchState) : Prop where
  tables : ∀ id,(s.tables id).PeaksSince tableMeasures (b.tables id).peak
  multicast : s.multicast.PeaksSince multicastMeasures b.multicast.peak
  entries : s.peakEntriesSeen = max b.peakEntriesSeen s.currentEntries

structure Grows (s s' : SwitchState) : Prop where
  tables : ∀ id,(s.tables id).Grows (s'.tables id)
  multicast : s.multicast.Grows s'.multicast
  entries : s.currentEntries ≤ s'.currentEntries

structure SamePeaks (s s' : SwitchState) : Prop where
  tables : ∀ id,(s'.tables id).peak = (s.tables id).peak
  multicast : s'.multicast.peak = s.multicast.peak
  entries : s'.peakEntriesSeen = s.peakEntriesSeen

variable {s s' s'' : SwitchState}

theorem Good.consistent (h : s.Good) : s.Consistent where
  tables id := (h.tables id).toConsistent
  multicast := h.multicast.toConsistent
  currentEntries := by
    rw [h.currentEntries,h.multicast.entries]
    simp only [fun id => (h.tables id).entries]

theorem Good.withTable (h : s.Good) {t : EntryTable TableEntryKey TableEntry}
    {sign : Int} (htable : s.irP4Info.tablesById.lookup id = some table) (ht : t.Good tableMeasures)
    (hstored : ∀ k e,t.unordered.lookup k = some e → e.tableId = id ∧ Unweighted table e)
    (hcount : t.current.entries = (s.tables id).current.entries + sign) : ((s.counted sign).withTable id t).Good where
  tables id' := by
    by_cases hid : id' = id
    · subst hid
      simpa using ht
    · simpa [withTable_of_ne _ _ hid] using h.tables id'
  owned id' k e he := by
    by_cases hid : id' = id
    · subst hid
      exact (hstored k e (by simpa using he)).1
    · exact h.owned id' k e (by simpa [withTable_of_ne _ _ hid] using he)
  unweighted id' table' htable' k e he := by
    by_cases hid : id' = id
    · subst hid
      cases htable.symm.trans htable'
      exact (hstored k e (by simpa using he)).2
    · exact h.unweighted id' table' htable' k e (by simpa [withTable_of_ne _ _ hid] using he)
  multicast := h.multicast
  currentEntries := by
    have hmem : id ∈ s.irP4Info.tablesById.map Prod.fst :=
      List.mem_map.mpr ⟨(id,table),mem_of_lookup_eq_some htable,rfl⟩
    have hupdate : (fun id' => (Function.update s.tables id t id').current.entries) =
        Function.update (fun id' => (s.tables id').current.entries) id t.current.entries :=
      Function.comp_update (fun t : EntryTable TableEntryKey TableEntry => t.current.entries) s.tables id t
    have hsum := sum_map_update (fun id' => (s.tables id').current.entries) (i := id) t.current.entries
      s.irP4Info.wellFormed.tables.idNodup
    have hcurrent := h.currentEntries
    simp only [SwitchState.withTable,SwitchState.counted,hupdate,hsum,if_pos hmem]
    omega
  peakEntries := le_max_right _ _

theorem Good.withMulticast (h : s.Good) {t : EntryTable UInt32 MulticastGroupEntry} {sign : Int}
    (ht : t.Good multicastMeasures) (hcount : t.current.entries = s.multicast.current.entries + sign) :
    ((s.counted sign).withMulticast t).Good where
  tables := h.tables
  owned := h.owned
  unweighted := h.unweighted
  multicast := ht
  currentEntries := by
    have hcurrent := h.currentEntries
    simp only [SwitchState.withMulticast,SwitchState.counted]
    omega
  peakEntries := le_max_right _ _

theorem Good.cleared (h : s.Good) : s.clearTableEntries.Good where
  tables id := (h.tables id).cleared
  owned _ _ _ he := by cases he
  unweighted _ _ _ _ _ he := by cases he
  multicast := h.multicast.cleared
  currentEntries := by
    simp only [clearTableEntries,EntryTable.clear,List.map_const',List.sum_replicate,nsmul_zero,add_zero]
  peakEntries := by
    have hsum : 0 ≤ ((s.irP4Info.tablesById.map Prod.fst).map fun id => (s.tables id).current.entries).sum := by
      refine List.sum_nonneg fun n hn => ?_
      obtain ⟨id,-,rfl⟩ := List.mem_map.mp hn
      rw [(h.tables id).entries]
      omega
    have hmulticast := h.multicast.entries
    have hcurrent := h.currentEntries
    have hpeak := h.peakEntries
    simp only [clearTableEntries]
    omega

theorem samePeaks_clearTableEntries (s : SwitchState) : s.SamePeaks s.clearTableEntries := ⟨fun _ => rfl,rfl,rfl⟩

theorem SamePeaks.peaksSince (h : s.SamePeaks s') (hgood : s'.Good) : s.PeaksSince s' where
  tables id := by
    rw [← h.tables id]
    exact (hgood.tables id).peaksSince
  multicast := by
    rw [← h.multicast]
    exact hgood.multicast.peaksSince
  entries := by
    rw [← h.entries]
    exact (max_eq_left hgood.peakEntries).symm

theorem SamePeaks.trans_peaksSince (h : s.SamePeaks s') (h' : s'.PeaksSince s'') : s.PeaksSince s'' where
  tables id := by
    rw [← h.tables id]
    exact h'.tables id
  multicast := by
    rw [← h.multicast]
    exact h'.multicast
  entries := by
    rw [← h.entries]
    exact h'.entries

theorem PeaksSince.trans (h : s.PeaksSince s') (h' : s'.PeaksSince s'') (hgrows : s'.Grows s'') : s.PeaksSince s'' where
  tables id := (h.tables id).trans (h'.tables id) (hgrows.tables id)
  multicast := h.multicast.trans h'.multicast hgrows.multicast
  entries := by
    rw [h'.entries,h.entries,max_assoc,max_eq_right hgrows.entries]

end SwitchState

/-- One entry more, in a table or among the multicast groups. -/
inductive Insertion (s : SwitchState) : SwitchState → Prop
  | tableEntry {table : IrTableDefinition} {e : TableEntry} :
      s.irP4Info.tablesById.lookup e.tableId = some table → SwitchState.Unweighted table e →
      (∀ w ∈ piActionSetWeights e,1 ≤ w) → (s.tables e.tableId).unordered.lookup e.key = none →
      Insertion s ((s.counted 1).withTable e.tableId ((s.tables e.tableId).inserted tableMeasures e))
  | multicast {e : MulticastGroupEntry} : s.multicast.unordered.lookup e.multicastGroupId = none →
      Insertion s ((s.counted 1).withMulticast (s.multicast.inserted multicastMeasures e))

inductive Deletion (s : SwitchState) : SwitchState → Prop
  | tableEntry {id : UInt32} {table : IrTableDefinition} {e : TableEntry} :
      s.irP4Info.tablesById.lookup id = some table → (s.tables id).unordered.lookup e.key = some e →
      Deletion s ((s.counted (-1)).withTable id ((s.tables id).erased tableMeasures e))
  | multicast {e : MulticastGroupEntry} : s.multicast.unordered.lookup e.multicastGroupId = some e →
      Deletion s ((s.counted (-1)).withMulticast (s.multicast.erased multicastMeasures e))

variable {s s' : SwitchState}

theorem weightSum_nonneg {weights : List Int32} (h : ∀ w ∈ weights,(1 : Int32) ≤ w) : 0 ≤ weightSum weights := by
  refine List.sum_nonneg fun n hn => ?_
  obtain ⟨w,hw,rfl⟩ := List.mem_map.mp hn
  have hle := Int32.le_iff_toInt_le.mp (h w hw)
  have hone : (1 : Int32).toInt = 1 := rfl
  omega

theorem Insertion.good (h : Insertion s s') (hs : s.Good) : s'.Good := by
  cases h with
  | @tableEntry table e htable hunweighted hweights hfresh =>
    refine hs.withTable htable ((hs.tables _).inserted hfresh (Int.natCast_nonneg _) (weightSum_nonneg hweights)) ?_ rfl
    intro k e' he'
    rcases lookup_insert_cases he' with ⟨-,rfl⟩ | ⟨-,he'⟩
    · exact ⟨rfl,hunweighted⟩
    · exact ⟨hs.owned _ k e' he',hs.unweighted _ table htable k e' he'⟩
  | multicast hfresh => exact hs.withMulticast (hs.multicast.inserted hfresh (Int.natCast_nonneg _) le_rfl) rfl

theorem Deletion.good (h : Deletion s s') (hs : s.Good) : s'.Good := by
  cases h with
  | @tableEntry id table e htable hstored =>
    refine hs.withTable htable ((hs.tables id).erased hstored) (fun k e' he' => ?_) rfl
    have hstored' := (lookup_erase_cases he').2
    exact ⟨hs.owned id k e' hstored',hs.unweighted id table htable k e' hstored'⟩
  | multicast hstored => exact hs.withMulticast (hs.multicast.erased hstored) rfl

theorem Insertion.peaksSince (h : Insertion s s') (hs : s.Good) : s.PeaksSince s' := by
  cases h with
  | @tableEntry table e htable hunweighted hweights hfresh =>
    refine ⟨fun id' => ?_,hs.multicast.peaksSince,rfl⟩
    by_cases hid : id' = e.tableId
    · subst hid
      simpa using (s.tables e.tableId).inserted_peaksSince tableMeasures e
    · simpa [SwitchState.withTable_of_ne _ _ hid] using (hs.tables id').peaksSince
  | multicast hfresh => exact ⟨fun id => (hs.tables id).peaksSince,s.multicast.inserted_peaksSince _ _,rfl⟩

theorem Insertion.grows (h : Insertion s s') : s.Grows s' := by
  have hcount : s.currentEntries ≤ s.currentEntries + 1 := by omega
  cases h with
  | @tableEntry table e htable hunweighted hweights hfresh =>
    refine ⟨fun id' => ?_,.refl _,hcount⟩
    by_cases hid : id' = e.tableId
    · subst hid
      simpa using
        EntryTable.inserted_grows hfresh (Int.natCast_nonneg _) (weightSum_nonneg hweights)
    · simpa [SwitchState.withTable_of_ne _ _ hid] using EntryTable.Grows.refl (s.tables id')
  | multicast hfresh =>
    exact ⟨fun id => .refl _,EntryTable.inserted_grows hfresh (Int.natCast_nonneg _) le_rfl,hcount⟩

theorem Deletion.samePeaks (h : Deletion s s') (hs : s.Good) : s.SamePeaks s' := by
  have hentries : max s.peakEntriesSeen (s.currentEntries + -1) = s.peakEntriesSeen := by
    have hpeak := hs.peakEntries
    exact max_eq_left (by omega)
  cases h with
  | @tableEntry id table e htable hstored =>
    refine ⟨fun id' => ?_,rfl,hentries⟩
    by_cases hid : id' = id
    · subst hid
      simpa using (hs.tables id').erased_peak hstored
    · simp [SwitchState.withTable_of_ne _ _ hid]
  | multicast hstored => exact ⟨fun id => rfl,hs.multicast.erased_peak hstored,hentries⟩

end Changes

/-- What a successful change of both copies needs, and what it makes. -/
def EntryTable.Stored {κ ε : Type} [DecidableEq κ] (t : EntryTable κ ε) (type : UpdateType) (k : κ) (e : ε)
    (t' : EntryTable κ ε) : Prop :=
  match type with
  | .insert => t.unordered.lookup k = none ∧
      t' = { t with ordered := t.ordered.insert k e,unordered := t.unordered.insert k e }
  | .delete => (t.unordered.lookup k).isSome ∧
      t' = { t with ordered := t.ordered.erase k,unordered := t.unordered.erase k }
  | .modify => (t.unordered.lookup k).isSome ∧
      t' = { t with ordered := t.ordered.insert k e,unordered := t.unordered.insert k e }
  | _ => False

theorem EntryTable.store_spec {κ ε : Type} [DecidableEq κ] {t t' : EntryTable κ ε} {k : κ} {e : ε}
    (h : t.store type k e = some (t',status)) (hok : status.isOk = true) : t.Stored type k e t' := by
  have hstatus : ∀ {a b fails : Bool} {message : String},
      (if a ≠ b then outOfSync a b else if fails then invalidArgument message else Status.okStatus).isOk = true →
      a = b ∧ fails = false := by
    intro a b fails message hok
    split_ifs at hok with hne hfails
    · simp [outOfSync,Status.isOk] at hok
    · simp [invalidArgument,Status.isOk] at hok
    · exact ⟨not_not.mp hne,by simpa using hfails⟩
  cases type with
  | insert =>
    obtain ⟨rfl,rfl⟩ := Prod.mk.injEq .. ▸ Option.some.inj h
    obtain ⟨hsame,hfails⟩ := hstatus hok
    rw [hfails] at hsame
    refine ⟨by simpa using hsame.symm,?_⟩
    simp [insertNew,hfails,← hsame]
  | delete =>
    obtain ⟨rfl,rfl⟩ := Prod.mk.injEq .. ▸ Option.some.inj h
    obtain ⟨hsame,hfails⟩ := hstatus hok
    exact ⟨hsame ▸ by simpa using hfails,rfl⟩
  | modify =>
    obtain ⟨rfl,rfl⟩ := Prod.mk.injEq .. ▸ Option.some.inj h
    obtain ⟨hsame,hfails⟩ := hstatus hok
    exact ⟨hsame ▸ by simpa using hfails,rfl⟩
  | _ => cases h

theorem Outcome.andThen_ok {o : Outcome} {next : SwitchState → Outcome} {s' : SwitchState}
    (h : o.andThen next = some (s',status)) (hok : status.isOk = true) :
    ∃ s first,o = some (s,first) ∧ first.isOk = true ∧ next s = some (s',status) := by
  cases o with
  | none => cases h
  | some r =>
    obtain ⟨s,first⟩ := r
    simp only [Outcome.andThen] at h
    split_ifs at h with hfirst
    · exact ⟨s,first,rfl,hfirst,h⟩
    · cases h
      exact absurd hok hfirst

theorem EntryTable.Peaked.record_groupOf {t : EntryTable TableEntryKey TableEntry} (h : t.Peaked)
    (he : SwitchState.Unweighted table e) (sign : Int) :
    t.record sign (groupOf table e) = t.record sign (some (tableMeasures.group e)) := by
  cases honeshot : table.usesOneshot with
  | true => simp [groupOf,honeshot,tableMeasures]
  | false =>
    have hgroup : tableMeasures.group e = ⟨0,0⟩ := by
      simp [tableMeasures,getAllActionProfileResourceForTableEntry,he honeshot,weightSum]
    rw [hgroup]
    simp only [groupOf,honeshot,EntryTable.record,ResourceStatistics.add,PeakResourceStatistics.observe,mul_zero,add_zero,
      max_eq_left h.peakMembers,max_eq_left h.peakWeight,max_eq_left h.coversNone.maxMembersPerGroup,
      max_eq_left h.coversNone.maxGroupWeight]
    rfl

theorem EntryTable.Peaked.recordGroup_eq {t : EntryTable UInt32 MulticastGroupEntry} (h : t.Peaked)
    (sign : Int) (e : MulticastGroupEntry) {seen : Int}
    (hseen : max t.peak.maxMembersPerGroup seen = max t.peak.maxMembersPerGroup e.replicas.length) :
    t.recordGroup sign e.replicas.length seen = t.record sign (some (multicastMeasures.group e)) := by
  simp only [multicastMeasures,EntryTable.recordGroup,EntryTable.record,ResourceStatistics.add,
    PeakResourceStatistics.observe,mul_zero,add_zero,hseen,max_eq_left h.peakWeight,max_eq_left h.coversNone.maxGroupWeight]

theorem recordEntry_eq (s : SwitchState) (id : UInt32) (sign : Int) (g : Option GroupResources) :
    s.recordEntry id sign g = (s.counted sign).withTable id ((s.tables id).record sign g) := rfl

theorem recordMulticast_eq (s : SwitchState) (sign replicas seen : Int) :
    s.recordMulticast sign replicas seen = (s.counted sign).withMulticast (s.multicast.recordGroup sign replicas seen) := rfl

variable {s s' : SwitchState}

theorem deleteStatistics_eq (hs : s.Good)
    (htable : s.irP4Info.tablesById.lookup id = some table) (hc : c.tableId = id)
    (h : (s.tables id).unordered.lookup c.key = some e) :
    deleteStatistics s table c =
      ((s.counted (-1)).withTable id ((s.tables id).record (-1) (some (tableMeasures.group e))),.okStatus) := by
  have hgroup := (hs.tables id).toPeaked.record_groupOf (hs.unweighted id table htable _ _ h) (-1)
  unfold deleteStatistics
  cases honeshot : table.usesOneshot with
  | true => simp only [if_true,hc,h,recordEntry_eq,hgroup]
  | false =>
    rw [show groupOf table e = none by simp [groupOf,honeshot]] at hgroup
    simp [hc,recordEntry_eq,hgroup]

theorem insertStatistics_eq (hs : (s.tables c.tableId).Peaked) (hc : SwitchState.Unweighted table c) :
    insertStatistics s table c =
      (s.counted 1).withTable c.tableId ((s.tables c.tableId).record 1 (some (tableMeasures.group c))) := by
  rw [insertStatistics,recordEntry_eq,hs.record_groupOf hc]

variable [InetText]

theorem canonicalizeTableEntry_spec {info : AcceptedP4Info} {keyOnly : Bool}
    (h : canonicalizeTableEntry info.toIrP4Info e keyOnly = .ok c) (htable : info.tablesById.lookup e.tableId = some table) :
    c.tableId = e.tableId ∧ SwitchState.Unweighted table c ∧ ∀ w ∈ piActionSetWeights c,1 ≤ w := by
  obtain ⟨ir,hir,h⟩ := bind_eq_ok.mp h
  obtain ⟨table',hpi⟩ := piTableEntryToIr_spec (mapError_eq_ok.mp hir)
  cases htable.symm.trans hpi.found
  obtain ⟨table',hto⟩ := irTableEntryToPi_spec (mapError_eq_ok.mp h)
  obtain ⟨hid,hname,-⟩ := info.wellFormed.table_of_id htable
  have hfound := hto.found
  rw [hpi.tableName,hname] at hfound
  cases hfound
  refine ⟨hto.tableId.trans hid,?_⟩
  cases keyOnly with
  | true =>
    have hnone : piActionSetWeights c = [] := by simp [piActionSetWeights,hto.action]
    exact ⟨fun _ => hnone,by simp [hnone]⟩
  | false =>
    have haction := irTableActionToPi_spec (hto.actionReasons rfl)
    have hc := hto.action
    simp only [Bool.false_eq_true,if_false] at hc
    rw [← hc] at haction
    unfold SwitchState.Unweighted piActionSetWeights
    generalize c.action = action at haction
    generalize ir.type = type at haction
    cases haction with
    | notSet => simp
    | action _ _ => simp
    | actionSet honeshot hrel =>
      refine ⟨fun h => by simp [honeshot] at h,fun w hw => ?_⟩
      obtain ⟨pi,hpi,rfl⟩ := List.mem_map.mp hw
      obtain ⟨a,-,ha⟩ := exists_of_forall₂_right hrel hpi
      obtain ⟨-,hweight,heq,-⟩ := irActionSetInvocationToPi_spec ha
      rw [heq]
      exact Int32.not_lt.mp hweight

private theorem canonicalizeTableEntry_notOk (info : IrP4Info) (e : TableEntry) (keyOnly : Bool) :
    FailsNotOk (canonicalizeTableEntry info e keyOnly) :=
  (annotate_notOk (piTableEntryToIr_notOk _ _ _) _).bind fun _ => annotate_notOk (irTableEntryToPi_notOk _ _ _) _

private theorem canonicalizeEntity_multicast (info : IrP4Info) (e : MulticastGroupEntry) (keyOnly : Bool) :
    FailsNotOk (canonicalizeEntity info (.packetReplicationEngineEntry (.multicastGroupEntry e)) keyOnly) ∧
      ∀ c,canonicalizeEntity info (.packetReplicationEngineEntry (.multicastGroupEntry e)) keyOnly = .ok c →
        keyOnly = true → (multicastGroupEntry c).replicas = [] := by
  constructor
  · refine (annotate_notOk (((piMulticastGroupEntryToIr_notOk _ e).map _).map _) _).bind fun ir => ?_
    exact annotate_notOk (irEntityToPi_notOk _ _ ir) _
  · intro c hc hkey
    subst hkey
    cases hc
    rfl

omit [InetText] in
/-- The statistics and then the copies of an update whose entry is canonical. -/
theorem storeTable_cases (hs : s.Good) {mid : SwitchState}
    {first : Status} {t : EntryTable TableEntryKey TableEntry} (htable : s.irP4Info.tablesById.lookup c.tableId = some table)
    (hunweighted : SwitchState.Unweighted table c) (hweights : ∀ w ∈ piActionSetWeights c,1 ≤ w)
    (hmid : updateResourceStatistics s c type = some (mid,first)) (hfirst : first.isOk = true)
    (hstored : (mid.tables c.tableId).Stored type c.key c t) :
    (type = .insert ∧ Insertion s (mid.withTable c.tableId t)) ∨ (type = .delete ∧ Deletion s (mid.withTable c.tableId t)) ∨
      (type = .modify ∧ ∃ s₁,Deletion s s₁ ∧ Insertion s₁ (mid.withTable c.tableId t)) := by
  have hpeaked := (hs.tables c.tableId).toPeaked
  unfold updateResourceStatistics at hmid
  rw [htable] at hmid
  cases type with
  | insert =>
    cases hmid
    rw [insertStatistics_eq hpeaked hunweighted] at hstored ⊢
    rw [SwitchState.withTable_self] at hstored
    obtain ⟨hfresh,rfl⟩ := hstored
    rw [SwitchState.withTable_withTable]
    exact .inl ⟨rfl,.tableEntry htable hunweighted hweights hfresh⟩
  | delete =>
    refine .inr (.inl ⟨rfl,?_⟩)
    have hmid : deleteStatistics s table c = (mid,first) := Option.some.inj hmid
    cases hlookup : (s.tables c.tableId).unordered.lookup c.key with
    | none =>
      unfold deleteStatistics at hmid
      rw [hlookup] at hmid
      cases honeshot : table.usesOneshot with
      | true =>
        simp only [honeshot,if_true] at hmid
        cases hmid
        cases hfirst
      | false =>
        simp only [honeshot] at hmid
        cases hmid
        have hsome : ((s.tables c.tableId).unordered.lookup c.key).isSome := by
          simpa [recordEntry_eq,EntryTable.record] using hstored.1
        rw [hlookup] at hsome
        cases hsome
    | some e =>
      have hkey : e.key = c.key := ((hs.tables _).keyed _ _ hlookup).symm
      rw [deleteStatistics_eq hs htable rfl hlookup] at hmid
      cases hmid
      rw [SwitchState.withTable_self] at hstored
      obtain ⟨-,rfl⟩ := hstored
      rw [SwitchState.withTable_withTable,← hkey]
      rw [← hkey] at hlookup
      exact .tableEntry htable hlookup
  | modify =>
    refine .inr (.inr ⟨rfl,?_⟩)
    cases hlookup : (s.tables c.tableId).unordered.lookup c.key with
    | none =>
      simp only [hlookup] at hmid
      cases hmid
      cases hfirst
    | some e =>
      have hkey : e.key = c.key := ((hs.tables _).keyed _ _ hlookup).symm
      have hid : e.tableId = c.tableId := hs.owned _ _ _ hlookup
      have hstored' := hlookup
      rw [← hkey] at hstored'
      simp only [hlookup,deleteStatistics_eq hs htable hid hstored',Outcome.andThen] at hmid
      cases hmid
      refine ⟨_,.tableEntry htable hstored',?_⟩
      have hrecorded := insertStatistics_eq (s := (s.counted (-1)).withTable c.tableId
        ((s.tables c.tableId).record (-1) (some (tableMeasures.group e))))
        (by simpa using hpeaked.record (-1) (tableMeasures.group e)) hunweighted
      rw [hrecorded] at hstored ⊢
      simp only [SwitchState.withTable_counted,SwitchState.withTable_withTable,SwitchState.withTable_self] at hstored ⊢
      obtain ⟨-,rfl⟩ := hstored
      have hinsert := Insertion.tableEntry (e := c) (s := (s.counted (-1)).withTable c.tableId
        ((s.tables c.tableId).erased tableMeasures e)) htable hunweighted hweights
        (by simp [EntryTable.erased,tableMeasures,hkey])
      convert hinsert using 1
      simp only [SwitchState.withTable_counted,SwitchState.withTable_withTable,SwitchState.withTable_self]
      simp only [EntryTable.inserted,EntryTable.erased,EntryTable.record,tableMeasures,hkey,insert_erase]
  | unspecified => cases hstored
  | unknown _ => cases hstored

private theorem applyTableUpdate_cases (hs : s.Good) {entry : TableEntry}
    (h : s.applyTableUpdate type entry = some (s',status)) (hok : status.isOk = true) :
    (type = .insert ∧ Insertion s s') ∨ (type = .delete ∧ Deletion s s') ∨
      (type = .modify ∧ ∃ mid,Deletion s mid ∧ Insertion mid s') := by
  unfold SwitchState.applyTableUpdate at h
  split at h
  · cases h
  · rename_i table htable
    split at h
    · rename_i failed hfailed
      cases h
      exact Bool.noConfusion (hok.symm.trans (canonicalizeTableEntry_notOk _ _ _ _ hfailed))
    · rename_i c hc
      obtain ⟨hid,hunweighted,hweights⟩ := canonicalizeTableEntry_spec hc htable
      obtain ⟨mid,first,hmid,hfirst,h⟩ := Outcome.andThen_ok h hok
      obtain ⟨⟨t',status'⟩,hstore,h⟩ := Option.map_eq_some_iff.mp h
      cases h
      rw [← hid] at htable hstore ⊢
      exact storeTable_cases hs htable hunweighted hweights hmid hfirst (EntryTable.store_spec hstore hok)

omit [InetText] in
theorem insertMulticastStatistics_eq {e : MulticastGroupEntry} (hs : s.multicast.Peaked) :
    insertMulticastStatistics s e =
      (s.counted 1).withMulticast (s.multicast.record 1 (some (multicastMeasures.group e))) := by
  rw [insertMulticastStatistics,recordMulticast_eq,hs.recordGroup_eq 1 e rfl]

omit [InetText] in
theorem deleteMulticastStatistics_eq (hs : s.Good) {c e : MulticastGroupEntry}
    (h : s.multicast.unordered.lookup c.multicastGroupId = some e)
    (hreplicas : (c.replicas.length : Int) ≤ s.multicast.peak.maxMembersPerGroup) :
    deleteMulticastStatistics s c =
      ((s.counted (-1)).withMulticast (s.multicast.record (-1) (some (multicastMeasures.group e))),.okStatus) := by
  have hseen : max s.multicast.peak.maxMembersPerGroup (c.replicas.length : Int) =
      max s.multicast.peak.maxMembersPerGroup e.replicas.length := by
    rw [max_eq_left hreplicas]
    exact (max_eq_left (hs.multicast.covers _ _ h).maxMembersPerGroup).symm
  rw [deleteMulticastStatistics,h]
  simp only [recordMulticast_eq,hs.multicast.toPeaked.recordGroup_eq (-1) e hseen]

omit [InetText] in
/-- The same for multicast groups; a deletion names no replicas. -/
theorem storeMulticast_cases (hs : s.Good) {c : MulticastGroupEntry} {mid : SwitchState}
    {first : Status} {t : EntryTable UInt32 MulticastGroupEntry} (hkey : type = .delete → c.replicas = [])
    (hmid : updateMulticastResourceStatistics s c type = (mid,first)) (hfirst : first.isOk = true)
    (hstored : mid.multicast.Stored type c.multicastGroupId c t) :
    (type = .insert ∧ Insertion s (mid.withMulticast t)) ∨ (type = .delete ∧ Deletion s (mid.withMulticast t)) ∨
      (type = .modify ∧ ∃ s₁,Deletion s s₁ ∧ Insertion s₁ (mid.withMulticast t)) := by
  have hpeaked := hs.multicast.toPeaked
  unfold updateMulticastResourceStatistics at hmid
  cases type with
  | insert =>
    simp only [insertMulticastStatistics_eq hpeaked] at hmid
    cases hmid
    obtain ⟨hfresh,rfl⟩ := hstored
    exact .inl ⟨rfl,.multicast hfresh⟩
  | delete =>
    refine .inr (.inl ⟨rfl,?_⟩)
    cases hlookup : s.multicast.unordered.lookup c.multicastGroupId with
    | none =>
      simp only [deleteMulticastStatistics,hlookup] at hmid
      cases hmid
      cases hfirst
    | some e =>
      have hid : c.multicastGroupId = e.multicastGroupId := hs.multicast.keyed _ _ hlookup
      have hnone : (c.replicas.length : Int) ≤ s.multicast.peak.maxMembersPerGroup := by
        rw [hkey rfl]
        exact hpeaked.coversNone.maxMembersPerGroup
      simp only [deleteMulticastStatistics_eq hs hlookup hnone] at hmid
      cases hmid
      obtain ⟨-,rfl⟩ := hstored
      rw [hid] at hlookup ⊢
      exact .multicast hlookup
  | modify =>
    refine .inr (.inr ⟨rfl,?_⟩)
    cases hlookup : s.multicast.unordered.lookup c.multicastGroupId with
    | none =>
      simp only [hlookup] at hmid
      cases hmid
      cases hfirst
    | some e =>
      have hid : c.multicastGroupId = e.multicastGroupId := hs.multicast.keyed _ _ hlookup
      have hstored' := hlookup
      rw [hid] at hstored'
      simp only [hlookup,deleteMulticastStatistics_eq hs hstored' (hs.multicast.covers _ _ hlookup).maxMembersPerGroup,
        Status.okStatus_isOk,if_true] at hmid
      rw [insertMulticastStatistics_eq (hpeaked.record (-1) (multicastMeasures.group e))] at hmid
      cases hmid
      obtain ⟨-,rfl⟩ := hstored
      refine ⟨_,.multicast hstored',?_⟩
      have hinsert := Insertion.multicast (e := c) (s := (s.counted (-1)).withMulticast
        (s.multicast.erased multicastMeasures e)) (by simp [SwitchState.withMulticast,EntryTable.erased,multicastMeasures,← hid])
      convert hinsert using 1
      simp only [SwitchState.withMulticast,SwitchState.counted,EntryTable.inserted,EntryTable.erased,EntryTable.record,
        multicastMeasures,← hid,insert_erase]
  | unspecified => cases hstored
  | unknown _ => cases hstored

theorem applyUpdate_cases (hs : s.Good) {u : Update} (h : s.applyUpdate u = some (s',status))
    (hok : status.isOk = true) :
    (u.type = .insert ∧ Insertion s s') ∨ (u.type = .delete ∧ Deletion s s') ∨
      (u.type = .modify ∧ ∃ mid,Deletion s mid ∧ Insertion mid s') := by
  unfold SwitchState.applyUpdate at h
  split at h
  · rename_i e he
    obtain ⟨hnotOk,hkey⟩ := canonicalizeEntity_multicast s.irP4Info.toIrP4Info e (u.type = .delete)
    unfold SwitchState.applyMulticastUpdate at h
    rw [he] at h
    split at h
    · rename_i failed hfailed
      cases h
      exact Bool.noConfusion (hok.symm.trans (hnotOk _ hfailed))
    · rename_i c hc
      obtain ⟨mid,first,hmid,hfirst,h⟩ := Outcome.andThen_ok h hok
      obtain ⟨⟨t',status'⟩,hstore,h⟩ := Option.map_eq_some_iff.mp h
      cases h
      exact storeMulticast_cases hs (fun hdelete => hkey c hc (by simp [hdelete])) (Option.some.inj hmid) hfirst
        (EntryTable.store_spec hstore hok)
  · exact applyTableUpdate_cases hs h hok

theorem applyUpdate_good (hs : s.Good) {u : Update} (h : s.applyUpdate u = some (s',status))
    (hok : status.isOk = true) : s'.Good ∧ s.PeaksSince s' := by
  rcases applyUpdate_cases hs h hok with ⟨-,hinsert⟩ | ⟨-,hdelete⟩ | ⟨-,mid,hdelete,hinsert⟩
  · exact ⟨hinsert.good hs,hinsert.peaksSince hs⟩
  · exact ⟨hdelete.good hs,(hdelete.samePeaks hs).peaksSince (hdelete.good hs)⟩
  · have hmid := hdelete.good hs
    exact ⟨hinsert.good hmid,(hdelete.samePeaks hs).trans_peaksSince (hinsert.peaksSince hmid)⟩

private theorem insertAll_good {b : SwitchState} (hs : s.Good) (hb : b.PeaksSince s) {entities : List Entity}
    (h : s.insertAll entities = some (s',status)) (hok : status.isOk = true) : s'.Good ∧ b.PeaksSince s' := by
  induction entities generalizing s with
  | nil =>
    cases h
    exact ⟨hs,hb⟩
  | cons entity entities ih =>
    obtain ⟨mid,first,hmid,hfirst,h⟩ := Outcome.andThen_ok h hok
    rcases applyUpdate_cases hs hmid hfirst with ⟨-,hinsert⟩ | ⟨htype,-⟩ | ⟨htype,-⟩
    · exact ih (hinsert.good hs) (hb.trans (hinsert.peaksSince hs) hinsert.grows) h
    · cases htype
    · cases htype

theorem setEntities_good (hs : s.Good) {entities : List Entity}
    (h : s.setEntities entities = some (s',status)) (hok : status.isOk = true) : s'.Good ∧ s.PeaksSince s' :=
  insertAll_good hs.cleared ((s.samePeaks_clearTableEntries).peaksSince hs.cleared) h hok

end SonicPins.P4Fuzzer
