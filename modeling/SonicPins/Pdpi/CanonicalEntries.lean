import SonicPins.Pdpi.EntityKeys
import SonicPins.Pdpi.NormalForm

/-! Entries that went to IR and back: they are canonical, and so are their keys. -/
namespace SonicPins.Pdpi
open Lib

private theorem arbitraryToCanonicalByteString_idem (bytes : Bytes) :
    arbitraryToCanonicalByteString (arbitraryToCanonicalByteString bytes) = arbitraryToCanonicalByteString bytes := by
  fun_induction arbitraryToCanonicalByteString bytes with
  | case1 => rfl
  | case2 b => rfl
  | case3 c rest ih => exact ih
  | case4 b c rest hb => rw [arbitraryToCanonicalByteString,if_neg hb]

private theorem canonicalFor_idem (format : Format) (bytes : Bytes) :
    canonicalFor format (canonicalFor format bytes) = canonicalFor format bytes := by
  unfold canonicalFor
  split_ifs
  · rfl
  · exact arbitraryToCanonicalByteString_idem bytes

private theorem canonicalMatchValue_idem (format : Format) (value : MatchValue) :
    canonicalMatchValue format (canonicalMatchValue format value) = canonicalMatchValue format value := by
  cases value <;> simp only [canonicalMatchValue,canonicalFor_idem]

private theorem canonicalMatch_fieldId (table : IrTableDefinition) (m : FieldMatch) : (canonicalMatch table m).fieldId = m.fieldId := by
  unfold canonicalMatch
  split <;> rfl

private theorem canonicalMatch_idem (table : IrTableDefinition) (m : FieldMatch) :
    canonicalMatch table (canonicalMatch table m) = canonicalMatch table m := by
  cases hd : table.matchFieldsById.lookup m.fieldId with
  | none => rw [show canonicalMatch table m = m by rw [canonicalMatch,hd],canonicalMatch,hd]
  | some d =>
    have hcanonical := canonicalMatch_of_lookup hd
    rw [hcanonical,canonicalMatch_of_lookup (m := ⟨m.fieldId,canonicalMatchValue d.format m.value⟩) hd,canonicalMatchValue_idem]

theorem canonicalEntry_tableId (info : IrP4Info) (e : TableEntry) : (canonicalEntry info e).tableId = e.tableId := by
  unfold canonicalEntry
  split <;> rfl

variable [InetText] {info : IrP4Info} {options : TranslationOptions}

/-- The bitwidths of match fields are 32-bit integers. -/
def IrP4Info.BitwidthsFit (info : IrP4Info) : Prop :=
  ∀ t ∈ info.tablesById,∀ m ∈ t.2.matchFieldsById,m.2.matchField.bitwidth < 2 ^ 31

theorem backAndForth_eq (hinet : InetText.Inverse) (hinfo : info.WellFormed) (hwidth : info.BitwidthsFit)
    (hoptions : options.keyOnly = false) {e c : TableEntry} {ir : IrTableEntry} (hir : piTableEntryToIr info e options = .ok ir)
    (hc : irTableEntryToPi info ir options = .ok c) : c = canonicalEntry info e := by
  have hback := entry_back hinet hinfo hoptions hir (entry_comesBack hinet hinfo hwidth hir hc)
  exact Except.ok.inj (hc.symm.trans hback)

theorem backAndForth_key (hinet : InetText.Inverse) (hinfo : info.WellFormed) (hwidth : info.BitwidthsFit) {e c : TableEntry}
    {ir : IrTableEntry} (hir : piTableEntryToIr info e options = .ok ir) (hc : irTableEntryToPi info ir options = .ok c) :
    c.key = (canonicalEntry info e).key ∧ (e.matches_.map FieldMatch.fieldId).Nodup := by
  obtain ⟨table,hto⟩ := piTableEntryToIr_spec hir
  obtain ⟨table',hfrom⟩ := irTableEntryToPi_spec hc
  obtain ⟨hid,hlookup,htable⟩ := hinfo.table_of_id hto.found
  have hfound := hfrom.found
  rw [hto.tableName,hlookup] at hfound
  cases hfound
  have htranslated := piMatchesToIr_eq.mp hto.matches_eq
  have hcomeBack := entry_comesBack hinet hinfo hwidth hir hc table hto.found
  obtain ⟨back,hreasons,hmatches,-⟩ := htranslated.back hinet htable hcomeBack
  have hcmatches : c.matches_ = e.matches_.map (canonicalMatch table) := by
    rw [hfrom.matches_,hto.matches_,hreasons,hmatches]
  refine ⟨?_,htranslated.nodup⟩
  rw [canonicalEntry_key,canonicalEntry_of_lookup hto.found,TableEntry.key,hfrom.tableId,hid,hfrom.priority,hto.priority,hcmatches]

omit [InetText] in
theorem canonicalEntry_key_congr {e e' : TableEntry} (hids : (e.matches_.map FieldMatch.fieldId).Nodup) (hkey : e.key = e'.key) :
    (canonicalEntry info e).key = (canonicalEntry info e').key := by
  obtain ⟨hid,hpriority,hsorted⟩ := TableEntryKey.mk.injEq .. ▸ hkey
  have hperm : e.matches_.Perm e'.matches_ :=
    (sortMatches_perm e.matches_).symm.trans (hsorted ▸ sortMatches_perm e'.matches_)
  cases htable : info.tablesById.lookup e.tableId with
  | none => rwa [canonicalEntry,htable,canonicalEntry,← hid,htable]
  | some table =>
    rw [canonicalEntry_key,canonicalEntry_key,canonicalEntry_of_lookup htable,canonicalEntry_of_lookup (hid ▸ htable),hid,hpriority]
    simp only
    congr 1
    have hfieldIds : ((e.matches_.map (canonicalMatch table)).map FieldMatch.fieldId).Nodup := by
      rw [List.map_map]
      have heq : FieldMatch.fieldId ∘ canonicalMatch table = FieldMatch.fieldId := funext (canonicalMatch_fieldId table)
      rwa [heq]
    have hmapped := hperm.map (canonicalMatch table)
    exact (sortMatches_unique ((sortMatches_perm _).trans hmapped.symm)
      (List.pairwise_insertionSort (fun a b : FieldMatch => a.fieldId ≤ b.fieldId) _) hfieldIds).symm

omit [InetText] in
theorem canonicalEntry_key_idem (e : TableEntry) :
    (canonicalEntry info (canonicalEntry info e)).key = (canonicalEntry info e).key := by
  cases htable : info.tablesById.lookup e.tableId with
  | none => rw [show canonicalEntry info e = e by rw [canonicalEntry,htable],canonicalEntry,htable]
  | some table =>
    have hcanonical : info.tablesById.lookup (canonicalEntry info e).tableId = some table := by rwa [canonicalEntry_tableId]
    have heq : canonicalMatch table ∘ canonicalMatch table = canonicalMatch table := funext (canonicalMatch_idem table)
    have hmatches : (canonicalEntry info (canonicalEntry info e)).matches_ = (canonicalEntry info e).matches_ := by
      rw [canonicalEntry_of_lookup hcanonical,canonicalEntry_of_lookup htable,List.map_map,heq]
    have hpriority : (canonicalEntry info e).priority = e.priority := by rw [canonicalEntry_of_lookup htable]
    rw [canonicalEntry_key,canonicalEntry_key e,hmatches,hpriority,canonicalEntry_tableId]

end SonicPins.Pdpi
