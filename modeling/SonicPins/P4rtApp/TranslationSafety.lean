import SonicPins.P4rtApp.WriteStatuses
import SonicPins.Pdpi.NormalForm

/-! When the translation of an update reads a result that failed. -/
namespace SonicPins.P4rtApp
open Lib Pdpi Sonic

private theorem irReplicasReasons_eq {pis : List Replica} {seen : List (Bytes × UInt32)} (h : (piReplicasToIr seen pis).1 = []) :
    irReplicasReasons seen (piReplicasToIr seen pis).2 = [] := by
  induction pis generalizing seen with
  | nil => rfl
  | cons pi pis ih =>
    unfold piReplicasToIr at h ⊢
    cases hpi : piReplicaToIr pi with
    | error status => simp [hpi] at h
    | ok ir =>
      have hbackups : (ir.backupReplicas.map fun b => (b.port,b.instanceId)) =
          pi.backupReplicas.map fun b => (b.port,b.instanceId) := by
        unfold piReplicaToIr at hpi
        split at hpi
        · cases hpi
          simp
        · cases hpi
      rw [hpi] at h
      simp only [List.append_eq_nil_iff] at h
      simp only [irReplicasReasons,hbackups,h.1,List.nil_append]
      exact ih h.2

private theorem replication_back {options : TranslationOptions} {pi : PacketReplicationEngineEntry}
    {ir : IrPacketReplicationEngineEntry} (h : piPacketReplicationEngineEntryToIr pi options = .ok ir) :
    ∃ back,irPacketReplicationEngineEntryToPi ir options = .ok back := by
  unfold piPacketReplicationEngineEntryToIr at h
  cases pi with
  | notSet => cases h
  | cloneSessionEntry e =>
    obtain ⟨e',-,rfl⟩ := map_eq_ok.mp h
    simp only [irPacketReplicationEngineEntryToPi,irCloneSessionEntryToPi]
    split <;> exact ⟨_,rfl⟩
  | multicastGroupEntry e =>
    obtain ⟨e',he',rfl⟩ := map_eq_ok.mp h
    unfold piMulticastGroupEntryToIr at he'
    simp only [irPacketReplicationEngineEntryToPi,irMulticastGroupEntryToPi]
    split at he'
    · rename_i hkey
      rw [if_pos hkey]
      exact ⟨_,rfl⟩
    · rename_i hkey
      obtain ⟨hreasons,rfl⟩ := unlessInvalid_eq_ok.mp he'
      rw [if_neg hkey]
      exact ⟨_,map_eq_ok.mpr ⟨_,unlessInvalid_eq_ok.mpr ⟨irReplicasReasons_eq hreasons,rfl⟩,rfl⟩⟩

section Entities
variable [InetText] {info : IrP4Info} {options : TranslationOptions}

private theorem entry_key_back (hinet : InetText.Inverse) (hinfo : info.WellFormed) (hoptions : options.keyOnly = true) {pi : TableEntry}
    {ir : IrTableEntry} (h : piTableEntryToIr info pi options = .ok ir) (hback : pi.ComesBack info) :
    ∃ back,irTableEntryToPi info ir options = .ok back := by
  obtain ⟨table,hspec⟩ := piTableEntryToIr_spec h
  obtain ⟨hid,hlookup,htable⟩ := hinfo.table_of_id hspec.found
  obtain ⟨back,hreasons,hmatches,hdefinitions⟩ :=
    (piMatchesToIr_eq.mp hspec.matches_eq).back hinet htable (hback table hspec.found)
  have hmandatory := hspec.mandatory
  rw [← mandatoryNames_congr hdefinitions] at hmandatory
  unfold irTableEntryToPi
  simp only [hspec.tableName,hlookup,hspec.matches_,hreasons,hmandatory,hspec.priority,hoptions,if_true]
  refine ⟨_,unlessInvalid_eq_ok.mpr ⟨?_,rfl⟩⟩
  simp [hspec.supported,priorityReasons_text hspec.priorityReasons]

/-- What an entity needs to come back. -/
def EntityComesBack (info : IrP4Info) (e : Entity) : Prop := ∀ pi,e = .tableEntry pi → pi.ComesBack info

private theorem entity_back_iff (hinet : InetText.Inverse) (hinfo : info.WellFormed)
    (hwidth : ∀ t ∈ info.tablesById,∀ m ∈ t.2.matchFieldsById,m.2.matchField.bitwidth < 2 ^ 31) {e : Entity} {ir : IrEntity}
    (h : piEntityToIr info e options = .ok ir) : (∃ back,irEntityToPi info ir options = .ok back) ↔ EntityComesBack info e := by
  cases e with
  | tableEntry pi =>
    obtain ⟨entry,hentry,rfl⟩ := map_eq_ok.mp h
    constructor
    · rintro ⟨back,hback⟩ pi' hpi
      cases hpi
      obtain ⟨back,hback,-⟩ := map_eq_ok.mp hback
      exact entry_comesBack hinet hinfo hwidth hentry hback
    · intro hcomes
      have hback : ∃ back,irTableEntryToPi info entry options = .ok back := by
        cases hoptions : options.keyOnly with
        | false => exact ⟨_,entry_back hinet hinfo hoptions hentry (hcomes pi rfl)⟩
        | true => exact entry_key_back hinet hinfo hoptions hentry (hcomes pi rfl)
      obtain ⟨back,hback⟩ := hback
      exact ⟨_,map_eq_ok.mpr ⟨back,hback,rfl⟩⟩
  | packetReplicationEngineEntry pi =>
    obtain ⟨entry,hentry,rfl⟩ := map_eq_ok.mp h
    obtain ⟨back,hback⟩ := replication_back hentry
    refine iff_of_true ⟨_,map_eq_ok.mpr ⟨back,hback,rfl⟩⟩ ?_
    rintro pi' ⟨⟩
  | notSet => cases h
  | other field => cases h

private theorem makeEntityKey_back {ir : IrEntity} {back : Entity} (h : irEntityToPi info ir options = .ok back) :
    ∃ key,makeEntityKey back = .ok key := by
  cases ir with
  | tableEntry e =>
    obtain ⟨entry,-,rfl⟩ := map_eq_ok.mp h
    exact ⟨_,rfl⟩
  | packetReplicationEngineEntry e =>
    obtain ⟨entry,-,rfl⟩ := map_eq_ok.mp h
    exact ⟨_,rfl⟩

end Entities

section Updates
variable [InetText] (info : IrP4Info) (constraints : ConstraintInfo) (translation : SwitchTranslation) (role : String)

/-- The translation of an update returns, and what it returns has been translated back. -/
structure TranslatesSafely (u : Update) : Prop where
  returns : ¬ Throws info constraints translation role u
  normalized : ∀ e,piUpdateToEntityUpdate info constraints translation role u = .ok e → ∃ ir,updateIr info u = .ok ir ∧
    irEntityToPi info ir (pdpiOptions u.type) = .ok e.piEntity ∧ makeEntityKey e.piEntity = .ok e.entityKey

/-- The translation of an update is safe exactly if it is refused before it reads the translation back, or if its LPM matches
come back and its ports are text. -/
theorem translatesSafely_iff (hinet : InetText.Inverse) (hinfo : info.WellFormed)
    (hwidth : ∀ t ∈ info.tablesById,∀ m ∈ t.2.matchFieldsById,m.2.matchField.bitwidth < 2 ^ 31) (u : Update) :
    TranslatesSafely info constraints translation role u ↔
      ∀ ir entry,updateIr info u = .ok ir → verifyTableEntry info constraints role u ir = .ok () →
        updateIrEntityForOrchAgent (translation.options .forOrchAgent info) ir = .ok entry →
        EntityComesBack info u.entity ∧ ¬ HasPortNotText u.type entry info := by
  have hnormalized : ∀ e,piUpdateToEntityUpdate info constraints translation role u = .ok e →
      ∃ ir,updateIr info u = .ok ir ∧ irEntityToPi info ir (pdpiOptions u.type) = .ok e.piEntity ∧
        makeEntityKey e.piEntity = .ok e.entityKey := by
    intro e he
    obtain ⟨-,ir,hir,-,-,hback,-⟩ := piUpdateToEntityUpdate_spec he
    exact ⟨ir,hir,hback,e.keyed⟩
  have hback : ∀ ir,updateIr info u = .ok ir →
      ((∃ back,irEntityToPi info ir (pdpiOptions u.type) = .ok back) ↔ EntityComesBack info u.entity) :=
    fun ir hir => entity_back_iff hinet hinfo hwidth (mapError_eq_ok.mp hir)
  constructor
  · rintro ⟨hreturns,-⟩ ir entry hir hverify hentry
    have hends := mt (throws_iff info constraints translation role u).mpr hreturns
    have hcomes : ∃ back,irEntityToPi info ir (pdpiOptions u.type) = .ok back := by
      cases htranslated : irEntityToPi info ir (pdpiOptions u.type) with
      | ok back => exact ⟨back,rfl⟩
      | error status => exact absurd ⟨ir,hir,hverify,entry,hentry,.inl ⟨status,htranslated⟩⟩ hends
    refine ⟨(hback ir hir).mp hcomes,fun hport => hends ⟨ir,hir,hverify,entry,hentry,.inr ⟨?_,hport⟩⟩⟩
    obtain ⟨back,htranslated⟩ := hcomes
    obtain ⟨key,hkey⟩ := makeEntityKey_back htranslated
    exact ⟨back,key,htranslated,hkey⟩
  · intro h
    refine ⟨fun hthrows => ?_,hnormalized⟩
    obtain ⟨ir,hir,hverify,entry,hentry,hcases⟩ := (throws_iff info constraints translation role u).mp hthrows
    obtain ⟨hcomes,hports⟩ := h ir entry hir hverify hentry
    rcases hcases with ⟨status,hfailed⟩ | ⟨-,hport⟩
    · obtain ⟨back,hback⟩ := (hback ir hir).mpr hcomes
      cases hfailed.symm.trans hback
    · exact hports hport

end Updates

attribute [local instance] uncompressedInet

/-- A group whose member watches a port that is not text. -/
def unreadablePortGroup : Update :=
  ⟨.insert,.tableEntry { wcmpGroup "g1" [] with action := some (.actionProfileActionSet [⟨nexthop "n1",1,[255]⟩]) }⟩

/-- A negative prefix length is read back without a check, and a port that is not text cannot be written. -/
theorem negative_prefix_unsafe :
    ¬ TranslatesSafely samplePipeline.toIrP4Info noConstraints noTranslation "" negativePrefixRoute ∧
    ¬ TranslatesSafely samplePipeline.toIrP4Info noConstraints noTranslation "" unreadablePortGroup := by
  have hthrows : ∀ u,(match piUpdateToEntityUpdate samplePipeline.toIrP4Info noConstraints noTranslation "" u with
      | .error (.thrown _) => true
      | _ => false) = true → ¬ TranslatesSafely samplePipeline.toIrP4Info noConstraints noTranslation "" u := by
    intro u hu hsafe
    split at hu
    · rename_i what h
      exact hsafe.returns ⟨what,h⟩
    · cases hu
  exact ⟨hthrows _ (by decide),hthrows _ (by decide)⟩

theorem deletion_safe : TranslatesSafely samplePipeline.toIrP4Info noConstraints noTranslation ""
    ⟨.delete,.tableEntry (wcmpGroup "g1" [])⟩ := by
  refine (translatesSafely_iff _ _ _ _ uncompressedInet_inverse samplePipeline.wellFormed (by decide) _).mpr ?_
  intro ir entry _ _ _
  refine ⟨fun pi hpi table htable m hm d hd v p hvalue => ?_,fun ⟨htype,_⟩ => by simp at htype⟩
  cases hpi
  obtain rfl := List.mem_singleton.mp hm
  cases hvalue

end SonicPins.P4rtApp
