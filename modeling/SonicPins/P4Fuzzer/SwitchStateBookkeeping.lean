import Mathlib.Order.Bounds.Basic
import SonicPins.P4Fuzzer.StateChanges
import SonicPins.P4rtApp.WriteStatuses

/-! The bookkeeping of the fuzzer's switch state over its whole life. -/
namespace SonicPins.P4Fuzzer
open Lib Pdpi P4rtApp

/-- The peaks of a table are the largest values over all visited states; group
sizes are over all groups that were stored. -/
structure EntryTable.PeaksOver {κ ε : Type} [DecidableEq κ] (m : Measures κ ε) (visited : List (EntryTable κ ε))
    (p : PeakResourceStatistics) : Prop where
  entries : IsGreatest {n | ∃ t ∈ visited,t.current.entries = n} p.entries
  totalMembers : IsGreatest {n | ∃ t ∈ visited,t.current.totalMembers = n} p.totalMembers
  totalWeight : IsGreatest {n | ∃ t ∈ visited,t.current.totalWeight = n} p.totalWeight
  maxMembersPerGroup : IsGreatest
    ({0} ∪ {n | ∃ t ∈ visited,∃ k e,t.unordered.lookup k = some e ∧ (m.group e).actions = n}) p.maxMembersPerGroup
  maxGroupWeight : IsGreatest
    ({0} ∪ {n | ∃ t ∈ visited,∃ k e,t.unordered.lookup k = some e ∧ (m.group e).totalWeight = n}) p.maxGroupWeight

structure SwitchState.PeaksOver (visited : List SwitchState) (s : SwitchState) : Prop where
  tables : ∀ id,EntryTable.PeaksOver tableMeasures (visited.map fun v => v.tables id) (s.tables id).peak
  multicast : EntryTable.PeaksOver multicastMeasures (visited.map SwitchState.multicast) s.multicast.peak
  peakEntriesSeen : IsGreatest {n | ∃ v ∈ visited,v.currentEntries = n} s.peakEntriesSeen

private theorem isGreatest_snoc {α : Type} {f : α → Int} {visited : List α} {p p' : Int} {a : α}
    (h : IsGreatest {n | ∃ t ∈ visited,f t = n} p) (hp : p' = max p (f a)) :
    IsGreatest {n | ∃ t ∈ visited ++ [a],f t = n} p' := by
  obtain ⟨⟨t,ht,rfl⟩,hupper⟩ := h
  subst hp
  constructor
  · rcases le_total (f a) (f t) with hle | hle
    · exact ⟨t,List.mem_append_left _ ht,(max_eq_left hle).symm⟩
    · exact ⟨a,by simp,(max_eq_right hle).symm⟩
  · rintro n ⟨v,hv,rfl⟩
    rcases List.mem_append.mp hv with hv | hv
    · exact le_max_of_le_left (hupper ⟨v,hv,rfl⟩)
    · rw [List.mem_singleton.mp hv]
      exact le_max_right _ _

private theorem isGreatest_groups_snoc {κ ε : Type} [DecidableEq κ] {size : ε → Int} {visited : List (EntryTable κ ε)}
    {p p' : Int} {t : EntryTable κ ε}
    (h : IsGreatest ({0} ∪ {n | ∃ t ∈ visited,∃ k e,t.unordered.lookup k = some e ∧ size e = n}) p) (hp : p ≤ p')
    (hcovers : ∀ k e,t.unordered.lookup k = some e → size e ≤ p')
    (hreached : p' = p ∨ ∃ k e,t.unordered.lookup k = some e ∧ size e = p') :
    IsGreatest ({0} ∪ {n | ∃ v ∈ visited ++ [t],∃ k e,v.unordered.lookup k = some e ∧ size e = n}) p' := by
  constructor
  · rcases hreached with rfl | hnew
    · exact h.1.imp id fun ⟨v,hv,hgroup⟩ => ⟨v,List.mem_append_left _ hv,hgroup⟩
    · exact .inr ⟨t,by simp,hnew⟩
  · rintro n (hzero | ⟨v,hv,k,e,he,rfl⟩)
    · exact (h.2 (.inl hzero)).trans hp
    · rcases List.mem_append.mp hv with hv | hv
      · exact (h.2 (.inr ⟨v,hv,k,e,he,rfl⟩)).trans hp
      · rw [List.mem_singleton.mp hv] at he
        exact hcovers k e he

theorem EntryTable.PeaksOver.snoc {κ ε : Type} [DecidableEq κ] {m : Measures κ ε} {visited : List (EntryTable κ ε)}
    {b : PeakResourceStatistics} {t : EntryTable κ ε} (h : EntryTable.PeaksOver m visited b) (ht : t.PeaksSince m b)
    (hgood : t.Good m) : EntryTable.PeaksOver m (visited ++ [t]) t.peak where
  entries := isGreatest_snoc h.entries ht.entries
  totalMembers := isGreatest_snoc h.totalMembers ht.totalMembers
  totalWeight := isGreatest_snoc h.totalWeight ht.totalWeight
  maxMembersPerGroup := isGreatest_groups_snoc h.maxMembersPerGroup ht.maxMembersPerGroup
    (fun k e he => (hgood.covers k e he).maxMembersPerGroup) ht.membersReached
  maxGroupWeight := isGreatest_groups_snoc h.maxGroupWeight ht.maxGroupWeight
    (fun k e he => (hgood.covers k e he).maxGroupWeight) ht.weightReached

theorem SwitchState.PeaksOver.snoc {visited : List SwitchState} {s s' : SwitchState} (h : s.PeaksOver visited)
    (hs : s.PeaksSince s') (hgood : s'.Good) : s'.PeaksOver (visited ++ [s']) where
  tables id := by
    rw [List.map_append]
    exact (h.tables id).snoc (hs.tables id) (hgood.tables id)
  multicast := by
    rw [List.map_append]
    exact h.multicast.snoc hs.multicast hgood.multicast
  peakEntriesSeen := isGreatest_snoc h.peakEntriesSeen hs.entries

theorem SwitchState.Good.fresh (info : AcceptedP4Info) : ({ irP4Info := info } : SwitchState).Good where
  tables _ := .fresh
  owned _ _ _ he := by cases he
  unweighted _ _ _ _ _ he := by cases he
  multicast := .fresh
  currentEntries := by
    simp only [List.map_const',List.sum_replicate,nsmul_zero,add_zero]
  peakEntries := le_rfl

private theorem peaksOver_fresh {κ ε : Type} [DecidableEq κ] (m : Measures κ ε) :
    EntryTable.PeaksOver m [({} : EntryTable κ ε)] {} := by
  constructor <;> simp

section Life
variable [InetText]

inductive Call where
  | applyUpdate (u : Update)
  | setEntities (entities : List Entity)
  | clearTableEntries

def SwitchState.call (s : SwitchState) : Call → Outcome
  | .applyUpdate u => s.applyUpdate u
  | .setEntities entities => s.setEntities entities
  | .clearTableEntries => some (s.clearTableEntries,.okStatus)

/-- The states of a switch state from its construction on, after each of its
successful calls. -/
inductive Life (info : AcceptedP4Info) : List SwitchState → SwitchState → Prop
  | fresh : Life info [{ irP4Info := info }] { irP4Info := info }
  | call {visited : List SwitchState} {s s' : SwitchState} {c : Call} {status : Status} :
      Life info visited s → s.call c = some (s',status) → status.isOk = true → Life info (visited ++ [s']) s'

theorem Call.good {s s' : SwitchState} {c : Call} {status : Status} (h : s.call c = some (s',status))
    (hok : status.isOk = true) (hs : s.Good) : s'.Good ∧ s.PeaksSince s' := by
  cases c with
  | applyUpdate u => exact applyUpdate_good hs h hok
  | setEntities entities => exact setEntities_good hs h hok
  | clearTableEntries =>
    cases h
    exact ⟨hs.cleared,s.samePeaks_clearTableEntries.peaksSince hs.cleared⟩

theorem Life.good {info : AcceptedP4Info} {visited : List SwitchState} {s : SwitchState} (h : Life info visited s) :
    s.Good ∧ s.PeaksOver visited := by
  induction h with
  | fresh =>
    refine ⟨.fresh info,fun _ => peaksOver_fresh _,peaksOver_fresh _,?_⟩
    simp [IsGreatest,upperBounds]
  | call _ hcall hok ih =>
    obtain ⟨hgood,hpeaks⟩ := Call.good hcall hok ih.1
    exact ⟨hgood,ih.2.snoc hpeaks hgood⟩

/-- In every state of its life the bookkeeping of a switch state is right: both copies
of each table, all sums and counts, and the peaks over the whole life. -/
theorem bookkept_all_life {info : AcceptedP4Info} {visited : List SwitchState} {s : SwitchState}
    (h : Life info visited s) : s.Consistent ∧ s.PeaksOver visited :=
  ⟨h.good.1.consistent,h.good.2⟩

end Life

attribute [local instance] uncompressedInet

/-- A group of total weight 3 that is no longer there keeps its peak. -/
theorem bookkept_after_clear : ∃ visited s,Life samplePipeline visited s ∧ s.Consistent ∧ s.PeaksOver visited ∧
    (s.tables 0x02000003).current.totalWeight = 0 ∧ (s.tables 0x02000003).peak.totalWeight = 3 := by
  have hset : (({ irP4Info := samplePipeline } : SwitchState).call (.setEntities [.tableEntry (wcmpGroup "g1" [1,2])])).map
      (fun r => (r.2.isOk,(r.1.tables 0x02000003).peak.totalWeight)) = some (true,3) := by decide
  obtain ⟨⟨s,status⟩,hcall,hresult⟩ := Option.map_eq_some_iff.mp hset
  obtain ⟨hok,hpeak⟩ := Prod.mk.injEq .. ▸ hresult
  have hlife := (Life.fresh.call hcall hok).call (c := .clearTableEntries) rfl rfl
  obtain ⟨hconsistent,hpeaks⟩ := bookkept_all_life hlife
  exact ⟨_,_,hlife,hconsistent,hpeaks,rfl,hpeak⟩

end SonicPins.P4Fuzzer
