import SonicPins.Lib.MapTotals
import SonicPins.P4Fuzzer.SwitchState

/-! The two copies of a table and its statistics: what they hold, and how an entry
more or less changes them. -/
namespace SonicPins.P4Fuzzer
open Lib Pdpi P4rtApp

variable {κ ε : Type} [DecidableEq κ]

/-- The key of an entry, and the group that it takes. -/
structure Measures (κ ε : Type) where
  key : ε → κ
  group : ε → GroupResources

/-- Both copies hold the same entries, each under its own key, and the current
statistics are sums over them. -/
structure EntryTable.Consistent (m : Measures κ ε) (t : EntryTable κ ε) : Prop where
  same : ∀ k,t.ordered.lookup k = t.unordered.lookup k
  keyed : ∀ k e,t.unordered.lookup k = some e → k = m.key e
  entries : t.current.entries = t.unordered.entries.length
  totalMembers : t.current.totalMembers = mapTotal (fun e => (m.group e).actions) t.unordered
  totalWeight : t.current.totalWeight = mapTotal (fun e => (m.group e).totalWeight) t.unordered

/-- A group that the peaks have seen. -/
structure PeakResourceStatistics.Covers (p : PeakResourceStatistics) (g : GroupResources) : Prop where
  actions : 0 ≤ g.actions
  totalWeight : 0 ≤ g.totalWeight
  maxMembersPerGroup : g.actions ≤ p.maxMembersPerGroup
  maxGroupWeight : g.totalWeight ≤ p.maxGroupWeight

/-- Peaks that are not below the current statistics. -/
structure EntryTable.Peaked (t : EntryTable κ ε) : Prop where
  peakEntries : t.current.entries ≤ t.peak.entries
  peakMembers : t.current.totalMembers ≤ t.peak.totalMembers
  peakWeight : t.current.totalWeight ≤ t.peak.totalWeight
  coversNone : t.peak.Covers {}

/-- A consistent table whose peaks are not below anything that it holds. -/
structure EntryTable.Good (m : Measures κ ε) (t : EntryTable κ ε) : Prop extends t.Consistent m,t.Peaked where
  covers : ∀ k e,t.unordered.lookup k = some e → t.peak.Covers (m.group e)

structure EntryTable.PeaksSince (m : Measures κ ε) (b : PeakResourceStatistics) (t : EntryTable κ ε) : Prop where
  entries : t.peak.entries = max b.entries t.current.entries
  totalMembers : t.peak.totalMembers = max b.totalMembers t.current.totalMembers
  totalWeight : t.peak.totalWeight = max b.totalWeight t.current.totalWeight
  maxMembersPerGroup : b.maxMembersPerGroup ≤ t.peak.maxMembersPerGroup
  maxGroupWeight : b.maxGroupWeight ≤ t.peak.maxGroupWeight
  membersReached : t.peak.maxMembersPerGroup = b.maxMembersPerGroup ∨
    ∃ k e,t.unordered.lookup k = some e ∧ (m.group e).actions = t.peak.maxMembersPerGroup
  weightReached : t.peak.maxGroupWeight = b.maxGroupWeight ∨
    ∃ k e,t.unordered.lookup k = some e ∧ (m.group e).totalWeight = t.peak.maxGroupWeight

structure EntryTable.Grows (t t' : EntryTable κ ε) : Prop where
  entries : t.current.entries ≤ t'.current.entries
  totalMembers : t.current.totalMembers ≤ t'.current.totalMembers
  totalWeight : t.current.totalWeight ≤ t'.current.totalWeight
  keeps : ∀ k e,t.unordered.lookup k = some e → t'.unordered.lookup k = some e

/-- A new entry in both copies, and in the statistics. -/
def EntryTable.inserted (m : Measures κ ε) (t : EntryTable κ ε) (e : ε) : EntryTable κ ε :=
  { t.record 1 (some (m.group e)) with
    ordered := t.ordered.insert (m.key e) e,unordered := t.unordered.insert (m.key e) e }

/-- An entry less in both copies, and in the statistics. -/
def EntryTable.erased (m : Measures κ ε) (t : EntryTable κ ε) (e : ε) : EntryTable κ ε :=
  { t.record (-1) (some (m.group e)) with
    ordered := t.ordered.erase (m.key e),unordered := t.unordered.erase (m.key e) }

variable {m : Measures κ ε} {t t' t'' : EntryTable κ ε} {e : ε} {b : PeakResourceStatistics}

theorem EntryTable.Consistent.entries_total (h : t.Consistent m) : t.current.entries = mapTotal (fun _ => 1) t.unordered := by
  rw [mapTotal_one]
  exact h.entries

theorem PeakResourceStatistics.Covers.mono {p p' : PeakResourceStatistics} {g : GroupResources} (h : p.Covers g)
    (hm : p.maxMembersPerGroup ≤ p'.maxMembersPerGroup) (hw : p.maxGroupWeight ≤ p'.maxGroupWeight) : p'.Covers g :=
  ⟨h.actions,h.totalWeight,h.maxMembersPerGroup.trans hm,h.maxGroupWeight.trans hw⟩

theorem EntryTable.Consistent.inserted (h : t.Consistent m) (hfresh : t.unordered.lookup (m.key e) = none) :
    (t.inserted m e).Consistent m := by
  have hnone : ∀ f : ε → Int,amountAt f t.unordered (m.key e) = 0 := fun f => by simp [amountAt,hfresh]
  constructor
  · intro k
    by_cases hk : k = m.key e
    · subst hk
      simp [EntryTable.inserted]
    · simp [EntryTable.inserted,AList.lookup_insert_ne hk,h.same]
  · intro k e' he'
    rcases lookup_insert_cases he' with ⟨rfl,rfl⟩ | ⟨-,he'⟩
    · rfl
    · exact h.keyed k e' he'
  · rw [← mapTotal_one]
    simp only [EntryTable.inserted,EntryTable.record,ResourceStatistics.add,mapTotal_insert,hnone,h.entries_total]
    omega
  · simp only [EntryTable.inserted,EntryTable.record,ResourceStatistics.add,mapTotal_insert,hnone,h.totalMembers]
    omega
  · simp only [EntryTable.inserted,EntryTable.record,ResourceStatistics.add,mapTotal_insert,hnone,h.totalWeight]
    omega

theorem EntryTable.Consistent.erased (h : t.Consistent m) (hstored : t.unordered.lookup (m.key e) = some e) :
    (t.erased m e).Consistent m := by
  have hsome : ∀ f : ε → Int,amountAt f t.unordered (m.key e) = f e := fun f => by simp [amountAt,hstored]
  constructor
  · intro k
    by_cases hk : k = m.key e
    · subst hk
      simp [EntryTable.erased]
    · simp [EntryTable.erased,AList.lookup_erase_ne hk,h.same]
  · intro k e' he'
    exact h.keyed k e' (lookup_erase_cases he').2
  · rw [← mapTotal_one]
    simp only [EntryTable.erased,EntryTable.record,ResourceStatistics.add,mapTotal_erase,hsome,h.entries_total]
    omega
  · simp only [EntryTable.erased,EntryTable.record,ResourceStatistics.add,mapTotal_erase,hsome,h.totalMembers]
    omega
  · simp only [EntryTable.erased,EntryTable.record,ResourceStatistics.add,mapTotal_erase,hsome,h.totalWeight]
    omega

omit [DecidableEq κ] in
theorem EntryTable.Peaked.record (h : t.Peaked) (sign : Int) (g : GroupResources) : (t.record sign (some g)).Peaked where
  peakEntries := le_max_right _ _
  peakMembers := le_max_right _ _
  peakWeight := le_max_right _ _
  coversNone := h.coversNone.mono (le_max_left _ _) (le_max_left _ _)

theorem EntryTable.Good.inserted (h : t.Good m) (hfresh : t.unordered.lookup (m.key e) = none)
    (hactions : 0 ≤ (m.group e).actions) (hweight : 0 ≤ (m.group e).totalWeight) : (t.inserted m e).Good m where
  toConsistent := h.toConsistent.inserted hfresh
  peakEntries := le_max_right _ _
  peakMembers := le_max_right _ _
  peakWeight := le_max_right _ _
  covers k e' he' := by
    rcases lookup_insert_cases he' with ⟨-,rfl⟩ | ⟨-,he'⟩
    · exact ⟨hactions,hweight,le_max_right _ _,le_max_right _ _⟩
    · exact (h.covers k e' he').mono (le_max_left _ _) (le_max_left _ _)
  coversNone := h.coversNone.mono (le_max_left _ _) (le_max_left _ _)

theorem EntryTable.Good.erased_peak (h : t.Good m) (hstored : t.unordered.lookup (m.key e) = some e) :
    (t.erased m e).peak = t.peak := by
  have hcovers := h.covers _ _ hstored
  have hactions := hcovers.actions
  have hweight := hcovers.totalWeight
  have hentries := h.peakEntries
  have hmembers := h.peakMembers
  have hpeak := h.peakWeight
  simp only [EntryTable.erased,EntryTable.record,PeakResourceStatistics.observe,ResourceStatistics.add]
  rw [max_eq_left (by omega),max_eq_left (by omega),max_eq_left hcovers.maxMembersPerGroup,max_eq_left (by omega),
    max_eq_left hcovers.maxGroupWeight]

theorem EntryTable.Good.erased (h : t.Good m) (hstored : t.unordered.lookup (m.key e) = some e) : (t.erased m e).Good m where
  toConsistent := h.toConsistent.erased hstored
  peakEntries := le_max_right _ _
  peakMembers := le_max_right _ _
  peakWeight := le_max_right _ _
  covers k e' he' := by
    rw [h.erased_peak hstored]
    exact h.covers k e' (lookup_erase_cases he').2
  coversNone := by
    rw [h.erased_peak hstored]
    exact h.coversNone

theorem EntryTable.Good.cleared (h : t.Good m) : t.clear.Good m where
  same _ := rfl
  keyed _ _ he := by cases he
  entries := rfl
  totalMembers := rfl
  totalWeight := rfl
  peakEntries := by
    have hentries := h.entries
    have hpeak := h.peakEntries
    simp only [EntryTable.clear]
    omega
  peakMembers := by
    have hnonneg := mapTotal_nonneg fun k e he => (h.covers k e he).actions
    have hmembers := h.totalMembers
    have hpeak := h.peakMembers
    simp only [EntryTable.clear]
    omega
  peakWeight := by
    have hnonneg := mapTotal_nonneg fun k e he => (h.covers k e he).totalWeight
    have hweight := h.totalWeight
    have hpeak := h.peakWeight
    simp only [EntryTable.clear]
    omega
  covers _ _ he := by cases he
  coversNone := h.coversNone

theorem EntryTable.Good.fresh : ({} : EntryTable κ ε).Good m where
  same _ := rfl
  keyed _ _ he := by cases he
  entries := rfl
  totalMembers := rfl
  totalWeight := rfl
  peakEntries := le_rfl
  peakMembers := le_rfl
  peakWeight := le_rfl
  covers _ _ he := by cases he
  coversNone := ⟨le_rfl,le_rfl,le_rfl,le_rfl⟩

theorem EntryTable.Good.peaksSince (h : t.Good m) : t.PeaksSince m t.peak where
  entries := (max_eq_left h.peakEntries).symm
  totalMembers := (max_eq_left h.peakMembers).symm
  totalWeight := (max_eq_left h.peakWeight).symm
  maxMembersPerGroup := le_rfl
  maxGroupWeight := le_rfl
  membersReached := .inl rfl
  weightReached := .inl rfl

private theorem max_reached (a g : Int) : max a g = a ∨ g = max a g :=
  (le_total g a).imp max_eq_left fun h => (max_eq_right h).symm

theorem EntryTable.inserted_peaksSince (m : Measures κ ε) (t : EntryTable κ ε) (e : ε) :
    (t.inserted m e).PeaksSince m t.peak where
  entries := rfl
  totalMembers := rfl
  totalWeight := rfl
  maxMembersPerGroup := le_max_left _ _
  maxGroupWeight := le_max_left _ _
  membersReached := (max_reached _ _).imp id fun h => ⟨m.key e,e,AList.lookup_insert _,h⟩
  weightReached := (max_reached _ _).imp id fun h => ⟨m.key e,e,AList.lookup_insert _,h⟩

theorem EntryTable.inserted_grows (hfresh : t.unordered.lookup (m.key e) = none) (hactions : 0 ≤ (m.group e).actions)
    (hweight : 0 ≤ (m.group e).totalWeight) : t.Grows (t.inserted m e) where
  entries := by
    simp only [EntryTable.inserted,EntryTable.record,ResourceStatistics.add]
    omega
  totalMembers := by
    simp only [EntryTable.inserted,EntryTable.record,ResourceStatistics.add]
    omega
  totalWeight := by
    simp only [EntryTable.inserted,EntryTable.record,ResourceStatistics.add]
    omega
  keeps k e' he' := by
    have hk : k ≠ m.key e := by
      rintro rfl
      rw [hfresh] at he'
      cases he'
    exact (AList.lookup_insert_ne hk).trans he'

theorem EntryTable.Grows.refl (t : EntryTable κ ε) : t.Grows t := ⟨le_rfl,le_rfl,le_rfl,fun _ _ he => he⟩

theorem EntryTable.PeaksSince.trans (h : t.PeaksSince m b) (h' : t'.PeaksSince m t.peak) (hgrows : t.Grows t') :
    t'.PeaksSince m b where
  entries := by
    rw [h'.entries,h.entries,max_assoc,max_eq_right hgrows.entries]
  totalMembers := by
    rw [h'.totalMembers,h.totalMembers,max_assoc,max_eq_right hgrows.totalMembers]
  totalWeight := by
    rw [h'.totalWeight,h.totalWeight,max_assoc,max_eq_right hgrows.totalWeight]
  maxMembersPerGroup := h.maxMembersPerGroup.trans h'.maxMembersPerGroup
  maxGroupWeight := h.maxGroupWeight.trans h'.maxGroupWeight
  membersReached := by
    rcases h'.membersReached with heq | hnew
    · rw [heq]
      exact h.membersReached.imp id fun ⟨k,e,he,hsize⟩ => ⟨k,e,hgrows.keeps k e he,hsize⟩
    · exact .inr hnew
  weightReached := by
    rcases h'.weightReached with heq | hnew
    · rw [heq]
      exact h.weightReached.imp id fun ⟨k,e,he,hsize⟩ => ⟨k,e,hgrows.keeps k e he,hsize⟩
    · exact .inr hnew

end SonicPins.P4Fuzzer
