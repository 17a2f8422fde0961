import SonicPins.Pdpi.PdToIr
import SonicPins.Pdpi.TranslationSpecs

/-! Multicast groups in PI, IR and PD: which of them the translations accept, and which
come back. -/
namespace SonicPins.Pdpi
open Lib Packetlib

variable {bs seen : List (Bytes × UInt32)} {r : IrReplica}

def IrReplica.pairs (r : IrReplica) : List (Bytes × UInt32) :=
  (r.port,r.instanceId) :: r.backupReplicas.map fun b => (b.port,b.instanceId)

def IrReplica.ports (r : IrReplica) : List Bytes := r.pairs.map Prod.fst

/-- No pair is used twice in the group, and no port twice by a replica and its backups. -/
structure DistinctReplicas (rs : List IrReplica) : Prop where
  pairs : (rs.flatMap IrReplica.pairs).Nodup
  ports : ∀ r ∈ rs,r.ports.Nodup

theorem fresh_cons {α : Type} {a : α} {l s : List α} : ((a :: l).Nodup ∧ ∀ p ∈ a :: l,p ∉ s) ↔
    a ∉ s ∧ l.Nodup ∧ ∀ p ∈ l,p ∉ a :: s := by
  rw [List.nodup_cons,List.forall_mem_cons]
  constructor
  · rintro ⟨⟨hnew,hnodup⟩,ha,hfresh⟩
    refine ⟨ha,hnodup,fun p hp hmem => ?_⟩
    rcases List.mem_cons.mp hmem with rfl | hmem
    · exact hnew hp
    · exact hfresh p hp hmem
  · rintro ⟨ha,hnodup,hfresh⟩
    exact ⟨⟨fun hmem => hfresh a hmem List.mem_cons_self,hnodup⟩,ha,fun p hp hmem => hfresh p hp (List.mem_cons_of_mem _ hmem)⟩

private theorem backupPortReasons_eq_nil {seen : List Bytes} : backupPortReasons seen bs = [] ↔
    (bs.map Prod.fst).Nodup ∧ ∀ p ∈ bs.map Prod.fst,p ∉ seen := by
  induction bs generalizing seen with
  | nil => simp [backupPortReasons]
  | cons b bs ih =>
    unfold backupPortReasons
    rw [List.map_cons,fresh_cons]
    by_cases hb : b.1 ∈ seen
    · simp [hb]
    · rw [if_neg hb,ih]
      exact ⟨fun h => ⟨hb,h⟩,And.right⟩

private theorem mem_backupPairReasons {p : Bytes × UInt32} : p ∈ (backupPairReasons seen bs).2 ↔ p ∈ seen ∨ p ∈ bs := by
  induction bs generalizing seen with
  | nil => simp [backupPairReasons]
  | cons b bs ih =>
    unfold backupPairReasons
    by_cases hb : b ∈ seen
    · simp only [hb,if_true,ih,List.mem_cons]
      constructor
      · exact fun h => h.imp id .inr
      · rintro (h | rfl | h)
        · exact .inl h
        · exact .inl hb
        · exact .inr h
    · simp only [hb,if_false,ih,List.mem_cons]
      tauto

private theorem backupPairReasons_eq_nil : (backupPairReasons seen bs).1 = [] ↔ bs.Nodup ∧ ∀ p ∈ bs,p ∉ seen := by
  induction bs generalizing seen with
  | nil => simp [backupPairReasons]
  | cons b bs ih =>
    unfold backupPairReasons
    rw [fresh_cons]
    by_cases hb : b ∈ seen
    · simp [hb]
    · rw [if_neg hb,ih]
      exact ⟨fun h => ⟨hb,h⟩,And.right⟩

private theorem mem_replicaReasons {p : Bytes × UInt32} :
    p ∈ (replicaReasons seen (r.port,r.instanceId) (r.backupReplicas.map fun b => (b.port,b.instanceId))).2 ↔
      p ∈ seen ∨ p ∈ r.pairs := by
  unfold replicaReasons IrReplica.pairs
  simp only [mem_backupPairReasons,List.mem_cons]
  tauto

private theorem replicaReasons_eq_nil :
    (replicaReasons seen (r.port,r.instanceId) (r.backupReplicas.map fun b => (b.port,b.instanceId))).1 = [] ↔
      (r.pairs.Nodup ∧ ∀ p ∈ r.pairs,p ∉ seen) ∧ r.ports.Nodup := by
  have hports : r.ports.Nodup ↔ backupPortReasons [r.port] (r.backupReplicas.map fun b => (b.port,b.instanceId)) = [] := by
    have hfresh := fresh_cons (a := r.port) (l := (r.backupReplicas.map fun b => (b.port,b.instanceId)).map Prod.fst) (s := [])
    rw [backupPortReasons_eq_nil]
    simpa [IrReplica.ports,IrReplica.pairs] using hfresh
  have hprimary : (if (r.port,r.instanceId) ∈ seen then [duplicatePair "replica" r.port r.instanceId] else []) = [] ↔
      (r.port,r.instanceId) ∉ seen := by simp
  unfold replicaReasons IrReplica.pairs
  rw [hports,fresh_cons]
  simp only [List.append_eq_nil_iff,hprimary,backupPairReasons_eq_nil]
  tauto

private theorem irReplicasReasons_eq_nil {rs : List IrReplica} : irReplicasReasons seen rs = [] ↔
    DistinctReplicas rs ∧ ∀ p ∈ rs.flatMap IrReplica.pairs,p ∉ seen := by
  induction rs generalizing seen with
  | nil => exact ⟨fun _ => ⟨⟨List.nodup_nil,by simp⟩,by simp⟩,fun _ => rfl⟩
  | cons r rs ih =>
    unfold irReplicasReasons
    simp only [List.append_eq_nil_iff,replicaReasons_eq_nil,ih,mem_replicaReasons,not_or,List.flatMap_cons,List.mem_append]
    constructor
    · rintro ⟨⟨⟨hself,hnew⟩,hport⟩,⟨hpairs,hports⟩,hfresh⟩
      refine ⟨⟨?_,?_⟩,?_⟩
      · rw [List.flatMap_cons,List.nodup_append]
        exact ⟨hself,hpairs,fun p hp q hq heq => (hfresh q hq).2 (heq ▸ hp)⟩
      · exact List.forall_mem_cons.mpr ⟨hport,hports⟩
      · rintro p (hp | hp)
        · exact hnew p hp
        · exact (hfresh p hp).1
    · rintro ⟨⟨hpairs,hports⟩,hfresh⟩
      rw [List.flatMap_cons,List.nodup_append] at hpairs
      obtain ⟨hself,hrest,hapart⟩ := hpairs
      obtain ⟨hport,hports⟩ := List.forall_mem_cons.mp hports
      exact ⟨⟨⟨hself,fun p hp => hfresh p (.inl hp)⟩,hport⟩,⟨hrest,hports⟩,
        fun p hp => ⟨hfresh p (.inr hp),fun hq => hapart p hq p hp rfl⟩⟩

theorem distinct_iff {rs : List IrReplica} : irReplicasReasons [] rs = [] ↔ DistinctReplicas rs := by
  simp [irReplicasReasons_eq_nil]

def piMulticastGroup (ir : IrMulticastGroupEntry) : MulticastGroupEntry :=
  ⟨ir.multicastGroupId,ir.replicas.map irReplicaToPi,ir.metadata⟩

/-- The 16 bits of a number that its PD text has. -/
def sixteenBits (n : UInt32) : UInt32 := UInt32.ofNat (n.toNat % 2 ^ 16)

/-- What the PD message of a replica says: no backups, and 16 bits of the instance. -/
def pdReplicaContent (r : IrReplica) : IrReplica := { port := r.port,instanceId := sixteenBits r.instanceId }

theorem hexStringToUint32_bitsetToHexString (n : UInt32) :
    hexStringToUint32 (bitsetToHexString 16 n.toNat) = .ok (sixteenBits n) := by
  have hmod : ((n.toNat : Int) % 2 ^ 16).toNat = n.toNat % 2 ^ 16 := by omega
  have hlt : n.toNat % 2 ^ 16 < 2 ^ 16 := Nat.mod_lt _ (by decide)
  have hany : hexStringToAnyLargeEnoughBitset 32 (bitsetToHexString 16 n.toNat) = .ok (n.toNat % 2 ^ 16) := by
    refine hexStringToAnyLargeEnoughBitset_eq_ok.mpr ⟨natToHexDigits 4 (n.toNat % 2 ^ 16),⟨?_,areHexDigits_natToHexDigits _ _⟩,
      hexDigitsToNat_natToHexDigits (lt_pow_numHexDigits hlt),by omega⟩
    rw [bitsetToHexString,hmod]
    exact String.toList_ofList
  rw [hexStringToUint32,hany]
  rfl

theorem sixteenBits_eq_iff {n : UInt32} : sixteenBits n = n ↔ n.toNat < 2 ^ 16 := by
  unfold sixteenBits
  rw [← UInt32.toNat_inj,UInt32.toNat_ofNat']
  omega

private theorem piReplicasToIr_map (seen : List (Bytes × UInt32)) (rs : List IrReplica) :
    piReplicasToIr seen (rs.map irReplicaToPi) = (irReplicasReasons seen rs,rs) := by
  induction rs generalizing seen with
  | nil => rfl
  | cons r rs ih =>
    have hreplica : piReplicaToIr (irReplicaToPi r) = .ok r := by
      simp [piReplicaToIr,irReplicaToPi,Function.comp_def]
    have hbackups : (irReplicaToPi r).backupReplicas.map (fun b => (b.port,b.instanceId)) =
        r.backupReplicas.map fun b => (b.port,b.instanceId) := by simp [irReplicaToPi,Function.comp_def]
    rw [List.map_cons,piReplicasToIr,hreplica]
    simp only [hbackups,ih,irReplicasReasons]

private theorem pdReplicasToIr_map (seen : List (Bytes × UInt32)) (rs : List IrReplica) :
    pdReplicasToIr seen (rs.map irReplicaToPd) =
      (irReplicasReasons seen (rs.map pdReplicaContent),rs.map pdReplicaContent) := by
  induction rs generalizing seen with
  | nil => rfl
  | cons r rs ih =>
    have hreplica : pdReplicaToIr (irReplicaToPd r) = .ok (pdReplicaContent r) := by
      rw [pdReplicaToIr,irReplicaToPd,hexStringToUint32_bitsetToHexString]
      rfl
    rw [List.map_cons,List.map_cons,pdReplicasToIr,hreplica]
    simp only [ih,irReplicasReasons]

variable {options : TranslationOptions} {ir : IrMulticastGroupEntry}

def full (options : TranslationOptions) : TranslationOptions := { options with keyOnly := false }

theorem piMulticastGroup_eq_ok {r : IrMulticastGroupEntry} :
    piMulticastGroupEntryToIr (piMulticastGroup ir) (full options) = .ok r ↔ DistinctReplicas ir.replicas ∧ ir = r := by
  unfold piMulticastGroupEntryToIr piMulticastGroup full
  simp only [Bool.false_eq_true,if_false,piReplicasToIr_map,unlessInvalid_eq_ok,distinct_iff]

theorem irMulticastGroupEntryToPi_eq_ok {pi : MulticastGroupEntry} :
    irMulticastGroupEntryToPi ir (full options) = .ok pi ↔ DistinctReplicas ir.replicas ∧ piMulticastGroup ir = pi := by
  unfold irMulticastGroupEntryToPi full
  simp only [Bool.false_eq_true,if_false,unlessInvalid_eq_ok,distinct_iff]
  rfl

theorem irMulticastGroupEntryToPd_eq_ok {pd : PdMulticastGroupTableEntry} :
    irMulticastGroupEntryToPd ir (full options) = .ok pd ↔
      DistinctReplicas ir.replicas ∧ pdMulticastGroupMessage ir = pd := by
  unfold irMulticastGroupEntryToPd full
  simp only [Bool.false_eq_true,if_false,unlessInvalid_eq_ok,distinct_iff]

theorem pdMulticastGroup_eq_ok {r : IrMulticastGroupEntry} :
    pdMulticastGroupEntryToIr (pdMulticastGroupMessage ir) (full options) = .ok r ↔
      DistinctReplicas (ir.replicas.map pdReplicaContent) ∧
        ⟨sixteenBits ir.multicastGroupId,ir.replicas.map pdReplicaContent,ir.metadata⟩ = r := by
  have htext : (bitsetToHexString 16 ir.multicastGroupId.toNat).isEmpty = false := by
    rw [Bool.eq_false_iff]
    simp [bitsetToHexString]
  unfold pdMulticastGroupEntryToIr pdMulticastGroupMessage full
  simp only [htext,Bool.false_eq_true,if_false,hexStringToUint32_bitsetToHexString,pdReplicasToIr_map,unlessInvalid_eq_ok,
    distinct_iff]

/-- The four translations accept the same entries, namely those with distinct replicas, and these come back. -/
structure OneMeaning (options : TranslationOptions) (ir : IrMulticastGroupEntry) : Prop where
  piToIr : (∃ r,piMulticastGroupEntryToIr (piMulticastGroup ir) (full options) = .ok r) ↔ DistinctReplicas ir.replicas
  irToPi : (∃ pi,irMulticastGroupEntryToPi ir (full options) = .ok pi) ↔ DistinctReplicas ir.replicas
  irToPd : (∃ pd,irMulticastGroupEntryToPd ir (full options) = .ok pd) ↔ DistinctReplicas ir.replicas
  pdToIr : (∃ r,pdMulticastGroupEntryToIr (pdMulticastGroupMessage ir) (full options) = .ok r) ↔
    DistinctReplicas ir.replicas
  piBack : DistinctReplicas ir.replicas → ∃ r,piMulticastGroupEntryToIr (piMulticastGroup ir) (full options) = .ok r ∧
    irMulticastGroupEntryToPi r (full options) = .ok (piMulticastGroup ir)
  pdBack : DistinctReplicas ir.replicas → ∃ pd,irMulticastGroupEntryToPd ir (full options) = .ok pd ∧
    pdMulticastGroupEntryToIr pd (full options) = .ok ir

/-- A PD message says all that the entry says. -/
def FitsPd (ir : IrMulticastGroupEntry) : Prop :=
  ir.multicastGroupId.toNat < 2 ^ 16 ∧ ∀ r ∈ ir.replicas,r.instanceId.toNat < 2 ^ 16 ∧ r.backupReplicas = []

instance (ir : IrMulticastGroupEntry) : Decidable (FitsPd ir) := inferInstanceAs (Decidable (_ ∧ _))

private theorem pdReplicaContent_eq_iff : pdReplicaContent r = r ↔ r.instanceId.toNat < 2 ^ 16 ∧ r.backupReplicas = [] := by
  obtain ⟨port,instanceId,backups⟩ := r
  simp only [pdReplicaContent,IrReplica.mk.injEq,true_and,sixteenBits_eq_iff,eq_comm (a := ([] : List IrBackupReplica))]

theorem pdContent_eq_iff : (⟨sixteenBits ir.multicastGroupId,ir.replicas.map pdReplicaContent,ir.metadata⟩ :
    IrMulticastGroupEntry) = ir ↔ FitsPd ir := by
  obtain ⟨groupId,replicas,metadata⟩ := ir
  have hreplicas : replicas.map pdReplicaContent = replicas ↔ ∀ r ∈ replicas,pdReplicaContent r = r := by
    conv_lhs => rw [← List.map_id replicas,List.map_map]
    exact List.map_inj_left
  simp only [IrMulticastGroupEntry.mk.injEq,and_true,sixteenBits_eq_iff,hreplicas,pdReplicaContent_eq_iff,FitsPd]

/-- The pairs of the primary replicas, with 16 bits of the instances. -/
def primaryPairs (ir : IrMulticastGroupEntry) : List (Bytes × UInt32) :=
  ir.replicas.map fun r => (r.port,sixteenBits r.instanceId)

theorem distinct_pdReplicaContent : DistinctReplicas (ir.replicas.map pdReplicaContent) ↔ (primaryPairs ir).Nodup := by
  have hpairs : (ir.replicas.map pdReplicaContent).flatMap IrReplica.pairs = primaryPairs ir := by
    rw [List.flatMap_map]
    exact List.flatMap_pure_eq_map _ _
  constructor
  · intro h
    rw [← hpairs]
    exact h.pairs
  · intro h
    refine ⟨hpairs ▸ h,fun r hr => ?_⟩
    obtain ⟨r,-,rfl⟩ := List.mem_map.mp hr
    exact List.nodup_singleton _

/-- A group has one meaning exactly when it is accepted and fits its PD message, or is rejected and its primary
replicas alone are rejected too. -/
theorem multicast_meaning_iff (options : TranslationOptions) (ir : IrMulticastGroupEntry) : OneMeaning options ir ↔
    (DistinctReplicas ir.replicas ∧ FitsPd ir) ∨ (¬ DistinctReplicas ir.replicas ∧ ¬ (primaryPairs ir).Nodup) := by
  have hpd : (∃ r,pdMulticastGroupEntryToIr (pdMulticastGroupMessage ir) (full options) = .ok r) ↔ (primaryPairs ir).Nodup := by
    simp [pdMulticastGroup_eq_ok,distinct_pdReplicaContent]
  constructor
  · intro h
    by_cases hdistinct : DistinctReplicas ir.replicas
    · left
      obtain ⟨pd,hpd,hback⟩ := h.pdBack hdistinct
      obtain ⟨-,rfl⟩ := irMulticastGroupEntryToPd_eq_ok.mp hpd
      exact ⟨hdistinct,pdContent_eq_iff.mp (pdMulticastGroup_eq_ok.mp hback).2⟩
    · exact .inr ⟨hdistinct,fun hprimary => hdistinct (h.pdToIr.mp (hpd.mpr hprimary))⟩
  · intro h
    have hagree : (primaryPairs ir).Nodup ↔ DistinctReplicas ir.replicas := by
      rcases h with ⟨hdistinct,hfits⟩ | ⟨hdistinct,hprimary⟩
      · have hsame : ir.replicas.map pdReplicaContent = ir.replicas :=
          congrArg IrMulticastGroupEntry.replicas (pdContent_eq_iff.mpr hfits)
        rw [← distinct_pdReplicaContent,hsame]
      · exact ⟨fun h => absurd h hprimary,fun h => absurd h hdistinct⟩
    refine ⟨by simp [piMulticastGroup_eq_ok],by simp [irMulticastGroupEntryToPi_eq_ok],
      by simp [irMulticastGroupEntryToPd_eq_ok],hpd.trans hagree,fun hdistinct => ?_,fun hdistinct => ?_⟩
    · exact ⟨ir,piMulticastGroup_eq_ok.mpr ⟨hdistinct,rfl⟩,irMulticastGroupEntryToPi_eq_ok.mpr ⟨hdistinct,rfl⟩⟩
    · rcases h with ⟨-,hfits⟩ | ⟨hno,-⟩
      · refine ⟨_,irMulticastGroupEntryToPd_eq_ok.mpr ⟨hdistinct,rfl⟩,pdMulticastGroup_eq_ok.mpr ⟨?_,pdContent_eq_iff.mpr hfits⟩⟩
        exact distinct_pdReplicaContent.mpr (hagree.mpr hdistinct)
      · exact absurd hdistinct hno

def backedUpGroup : IrMulticastGroupEntry := ⟨1,[⟨[65],1,[⟨[66],1⟩]⟩],[]⟩

/-- The backup does not come back. -/
theorem backup_is_lost : ¬ OneMeaning {} backedUpGroup := by
  intro h
  have hdistinct : DistinctReplicas backedUpGroup.replicas := distinct_iff.mp rfl
  obtain ⟨pd,hpd,hback⟩ := h.pdBack hdistinct
  obtain ⟨-,rfl⟩ := irMulticastGroupEntryToPd_eq_ok.mp hpd
  obtain ⟨-,hsame⟩ := pdMulticastGroup_eq_ok.mp hback
  exact absurd hsame (by decide)

end SonicPins.Pdpi
