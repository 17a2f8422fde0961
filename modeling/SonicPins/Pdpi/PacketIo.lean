import Mathlib.Data.List.ReduceOption
import SonicPins.Pdpi.NormalForm

/-! Translation of packet-in and packet-out messages. The declared metadata are all
there, once each; padding is in the PI only. -/
namespace SonicPins.Pdpi
open Lib

variable {m : PacketMetadata}

section Translation

/-- The two messages of packet I/O. -/
inductive PacketIoKind where
  | packetIn | packetOut
  deriving DecidableEq

def PacketIoKind.name : PacketIoKind → String
  | .packetIn => "packet-in"
  | .packetOut => "packet-out"

def IrP4Info.packetMetadataById (info : IrP4Info) : PacketIoKind → List (UInt32 × IrPacketIoMetadataDefinition)
  | .packetIn => info.packetInMetadataById
  | .packetOut => info.packetOutMetadataById

def IrP4Info.packetMetadataByName (info : IrP4Info) : PacketIoKind → List (String × IrPacketIoMetadataDefinition)
  | .packetIn => info.packetInMetadataByName
  | .packetOut => info.packetOutMetadataByName

/-- What `ProcessPacketIoMetadataDefinition` guarantees: unique ids and names, and formats that fit their widths. -/
structure PacketMetadataWellFormed (byId : List (UInt32 × IrPacketIoMetadataDefinition))
    (byName : List (String × IrPacketIoMetadataDefinition)) : Prop where
  index : DoubleIndex byId byName (fun d => d.metadata.id) (fun d => d.metadata.name)
  bounded : ∀ x ∈ byId,x.2.format.Bounded x.2.metadata.bitwidth

def IrP4Info.PacketIoWellFormed (info : IrP4Info) : Prop :=
  ∀ kind,PacketMetadataWellFormed (info.packetMetadataById kind) (info.packetMetadataByName kind)

def metadataName (name : String) : String := "Metadata '" ++ name ++ "'"

def packetDescription (kind : PacketIoKind) : String := "'" ++ kind.name ++ "' message"

def missingMetadata (d : IrPacketIoMetadataDefinition) : String :=
  bullet ("Metadata '" ++ d.metadata.name ++ "' with id " ++ natText d.metadata.id.toNat ++ " is missing.")

variable [InetText]

/-- Padding has no IR form. -/
def piMetadataToIr (byId : List (UInt32 × IrPacketIoMetadataDefinition)) (m : PacketMetadata) :
    Except String (Option IrPacketMetadata) :=
  match byId.lookup m.metadataId with
  | none => .error (bullet (" Metadata with ID " ++ natText m.metadataId.toNat ++ " not defined."))
  | some d =>
    if d.isPadding then
      if isAllZeros m.value then .ok none
      else .error (bullet (" Metadata with ID " ++ natText m.metadataId.toNat ++
        " has @padding annotation, so bytestring must be all zeros."))
    else match arbitraryByteStringToIrValue d.format d.metadata.bitwidth m.value with
      | .error status => .error (bullet (metadataName d.metadata.name ++ ": " ++ status.message))
      | .ok value => .ok (some ⟨d.metadata.name,value⟩)

/-- The translation takes options but reads none of them. -/
def piPacketIoToIr (info : IrP4Info) (kind : PacketIoKind) (packet : PacketIo) (_ : TranslationOptions) :
    StatusOr IrPacketIo :=
  let byId := info.packetMetadataById kind
  let (reasons,metadata) := partitionDistinct PacketMetadata.metadataId
    (fun id => bullet ("Duplicate metadata found with ID " ++ natText id.toNat ++ ".")) (piMetadataToIr byId) [] packet.metadata
  let missing := (byId.filter fun x => x.1 ∉ packet.metadata.map PacketMetadata.metadataId).map fun x => missingMetadata x.2
  unlessInvalid (packetDescription kind) (reasons ++ missing) ⟨packet.payload,metadata.reduceOption⟩

def piPacketInToIr (info : IrP4Info) := piPacketIoToIr info .packetIn

def piPacketOutToIr (info : IrP4Info) := piPacketIoToIr info .packetOut

def createPaddingMetadata (metadataId : UInt32) : PacketMetadata := ⟨metadataId,[0]⟩

def irMetadataToPi (options : TranslationOptions) (byName : List (String × IrPacketIoMetadataDefinition))
    (m : IrPacketMetadata) : Except String PacketMetadata :=
  match byName.lookup m.name with
  | none => .error (bullet ("Metadata with name " ++ m.name ++ " not defined."))
  | some d =>
    if d.isPadding then
      .error (bullet ("Metadata '" ++ d.metadata.name ++ "' with id " ++ natText d.metadata.id.toNat ++
        " has @padding annotation so it must be omitted in IR representation."))
    else match irValueToBytes options d.format d.metadata.bitwidth m.value with
      | .error status => .error (bullet (metadataName m.name ++ ": " ++ status.message))
      | .ok bytes => .ok ⟨d.metadata.id,canonicalFor d.format bytes⟩

/-- The padding that a PI message carries. -/
def paddingMetadata (byName : List (String × IrPacketIoMetadataDefinition)) : List PacketMetadata :=
  (byName.filter fun x => x.2.isPadding).map fun x => createPaddingMetadata x.2.metadata.id

def irPacketIoToPi (info : IrP4Info) (kind : PacketIoKind) (packet : IrPacketIo) (options : TranslationOptions) :
    StatusOr PacketIo :=
  let byName := info.packetMetadataByName kind
  let (reasons,metadata) := partitionDistinct IrPacketMetadata.name
    (fun name => bullet ("Duplicate metadata found with name '" ++ name ++ "'.")) (irMetadataToPi options byName) [] packet.metadata
  let missing := (byName.filter fun x => !x.2.isPadding && x.1 ∉ packet.metadata.map IrPacketMetadata.name).map
    fun x => missingMetadata x.2
  unlessInvalid (packetDescription kind) (reasons ++ missing) ⟨packet.payload,metadata ++ paddingMetadata byName⟩

def irPacketInToPi (info : IrP4Info) := irPacketIoToPi info .packetIn

def irPacketOutToPi (info : IrP4Info) := irPacketIoToPi info .packetOut

end Translation

section Spec
variable [InetText] {info : IrP4Info} {kind : PacketIoKind} {options : TranslationOptions}
  {byId : List (UInt32 × IrPacketIoMetadataDefinition)} {byName : List (String × IrPacketIoMetadataDefinition)}

theorem piMetadataToIr_eq_ok {r : Option IrPacketMetadata} : piMetadataToIr byId m = .ok r ↔
    ∃ d,byId.lookup m.metadataId = some d ∧
      ((d.isPadding = true ∧ isAllZeros m.value = true ∧ r = none) ∨
        (d.isPadding = false ∧ ∃ v,arbitraryByteStringToIrValue d.format d.metadata.bitwidth m.value = .ok v ∧
          r = some ⟨d.metadata.name,v⟩)) := by
  unfold piMetadataToIr
  cases hd : byId.lookup m.metadataId with
  | none => simp
  | some d =>
    cases hpadding : d.isPadding with
    | true => cases isAllZeros m.value <;> simp [hpadding,eq_comm (a := r)]
    | false =>
      cases hv : arbitraryByteStringToIrValue d.format d.metadata.bitwidth m.value <;>
        simp [hpadding,hv,eq_comm (a := r)]

theorem irMetadataToPi_eq_ok {m : IrPacketMetadata} {r : PacketMetadata} : irMetadataToPi options byName m = .ok r ↔
    ∃ d,byName.lookup m.name = some d ∧ d.isPadding = false ∧
      ∃ bytes,irValueToBytes options d.format d.metadata.bitwidth m.value = .ok bytes ∧
        r = ⟨d.metadata.id,canonicalFor d.format bytes⟩ := by
  unfold irMetadataToPi
  cases hd : byName.lookup m.name with
  | none => simp
  | some d =>
    cases hpadding : d.isPadding with
    | true => simp [hpadding]
    | false => cases hv : irValueToBytes options d.format d.metadata.bitwidth m.value <;> simp [hpadding,hv,eq_comm (a := r)]

/-- The metadata of an accepted PI message, each with its IR form. -/
structure TranslatedMetadata (byId : List (UInt32 × IrPacketIoMetadataDefinition)) (ms : List PacketMetadata)
    (translated : List (Option IrPacketMetadata)) : Prop where
  each : List.Forall₂ (fun m r => piMetadataToIr byId m = .ok r) ms translated
  nodup : (ms.map PacketMetadata.metadataId).Nodup
  complete : ∀ x ∈ byId,x.1 ∈ ms.map PacketMetadata.metadataId

theorem piPacketIoToIr_eq_ok {pi : PacketIo} {ir : IrPacketIo} : piPacketIoToIr info kind pi options = .ok ir ↔
    ∃ translated,TranslatedMetadata (info.packetMetadataById kind) pi.metadata translated ∧
      ir = ⟨pi.payload,translated.reduceOption⟩ := by
  unfold piPacketIoToIr
  simp only [unlessInvalid_eq_ok,List.append_eq_nil_iff,List.map_eq_nil_iff,List.filter_eq_nil_iff,decide_eq_true_eq,
    not_not]
  constructor
  · rintro ⟨⟨hreasons,hcomplete⟩,rfl⟩
    obtain ⟨heach,hnodup,-⟩ := partitionDistinct_nil [] hreasons
    exact ⟨_,⟨heach,hnodup,hcomplete⟩,rfl⟩
  · rintro ⟨translated,h,rfl⟩
    rw [partitionDistinct_eq h.each h.nodup (by simp)]
    exact ⟨⟨rfl,h.complete⟩,rfl⟩

/-- The metadata of an accepted IR message, each with its PI form. -/
structure EncodedMetadata (options : TranslationOptions) (byName : List (String × IrPacketIoMetadataDefinition))
    (ms : List IrPacketMetadata) (encoded : List PacketMetadata) : Prop where
  each : List.Forall₂ (fun m r => irMetadataToPi options byName m = .ok r) ms encoded
  nodup : (ms.map IrPacketMetadata.name).Nodup
  complete : ∀ x ∈ byName,x.2.isPadding = false → x.1 ∈ ms.map IrPacketMetadata.name

theorem irPacketIoToPi_eq_ok {ir : IrPacketIo} {pi : PacketIo} : irPacketIoToPi info kind ir options = .ok pi ↔
    ∃ encoded,EncodedMetadata options (info.packetMetadataByName kind) ir.metadata encoded ∧
      pi = ⟨ir.payload,encoded ++ paddingMetadata (info.packetMetadataByName kind)⟩ := by
  unfold irPacketIoToPi
  simp only [unlessInvalid_eq_ok,List.append_eq_nil_iff,List.map_eq_nil_iff,List.filter_eq_nil_iff,Bool.and_eq_true,
    decide_eq_true_eq,Bool.not_eq_true',not_and,not_not]
  constructor
  · rintro ⟨⟨hreasons,hcomplete⟩,rfl⟩
    obtain ⟨heach,hnodup,-⟩ := partitionDistinct_nil [] hreasons
    exact ⟨_,⟨heach,hnodup,hcomplete⟩,rfl⟩
  · rintro ⟨encoded,h,rfl⟩
    rw [partitionDistinct_eq h.each h.nodup (by simp)]
    exact ⟨⟨rfl,h.complete⟩,rfl⟩

end Spec

section RoundTrip
variable {byId : List (UInt32 × IrPacketIoMetadataDefinition)} {byName : List (String × IrPacketIoMetadataDefinition)}

/-- The form in which metadata come back: padding as one zero byte, numbers without leading zeros. -/
def canonicalMetadata (byId : List (UInt32 × IrPacketIoMetadataDefinition)) (m : PacketMetadata) : PacketMetadata :=
  match byId.lookup m.metadataId with
  | some d => if d.isPadding then createPaddingMetadata m.metadataId else ⟨m.metadataId,canonicalFor d.format m.value⟩
  | none => m

theorem canonicalMetadata_of_lookup {d : IrPacketIoMetadataDefinition}
    (hd : byId.lookup m.metadataId = some d) : canonicalMetadata byId m =
      if d.isPadding then createPaddingMetadata m.metadataId else ⟨m.metadataId,canonicalFor d.format m.value⟩ := by
  unfold canonicalMetadata
  rw [hd]

def isPaddingField (byId : List (UInt32 × IrPacketIoMetadataDefinition)) (m : PacketMetadata) : Bool :=
  match byId.lookup m.metadataId with
  | some d => d.isPadding
  | none => false

variable [InetText] {options : TranslationOptions} {ms : List PacketMetadata} {translated : List (Option IrPacketMetadata)}

omit [InetText] in
theorem isPaddingField_of_lookup {d : IrPacketIoMetadataDefinition}
    (hd : byId.lookup m.metadataId = some d) : isPaddingField byId m = d.isPadding := by
  unfold isPaddingField
  rw [hd]

private theorem metadata_back (hinet : InetText.Inverse) (hwf : PacketMetadataWellFormed byId byName) (options : TranslationOptions)
    {ir : IrPacketMetadata} (h : piMetadataToIr byId m = .ok (some ir)) :
    isPaddingField byId m = false ∧ irMetadataToPi options byName ir = .ok (canonicalMetadata byId m) ∧
      piMetadataToIr byId (canonicalMetadata byId m) = .ok (some ir) := by
  obtain ⟨d,hd,⟨-,-,hnone⟩ | ⟨hpadding,v,hv,heq⟩⟩ := piMetadataToIr_eq_ok.mp h
  · cases hnone
  · obtain rfl := Option.some.inj heq
    obtain ⟨hid,hname⟩ := hwf.index.lookup_name hd
    have hbounded := hwf.bounded _ (mem_of_lookup_eq_some hd)
    have hcanonical : canonicalMetadata byId m = ⟨m.metadataId,canonicalFor d.format m.value⟩ := by
      rw [canonicalMetadata_of_lookup hd,if_neg (by simp [hpadding])]
    rw [isPaddingField_of_lookup hd,hcanonical]
    refine ⟨hpadding,?_,?_⟩
    · rw [irMetadataToPi_eq_ok]
      refine ⟨d,hname,hpadding,_,accepted_bytes hinet hbounded hv,?_⟩
      rw [canonicalFor_accepted_bytes hbounded hv,hid]
    · rw [piMetadataToIr_eq_ok]
      exact ⟨d,hd,.inr ⟨hpadding,v,accepted_canonical hbounded hv,rfl⟩⟩

theorem kept_metadata (hinet : InetText.Inverse) (hwf : PacketMetadataWellFormed byId byName) (options : TranslationOptions)
    (h : List.Forall₂ (fun m r => piMetadataToIr byId m = .ok r) ms translated) :
    ∃ kept,kept = (ms.filter fun m => !isPaddingField byId m).map (canonicalMetadata byId) ∧
      List.Forall₂ (fun ir m => irMetadataToPi options byName ir = .ok m) translated.reduceOption kept ∧
      List.Forall₂ (fun m r => piMetadataToIr byId m = .ok r) kept (translated.reduceOption.map some) := by
  refine ⟨_,rfl,?_⟩
  induction h with
  | nil => exact ⟨.nil,.nil⟩
  | @cons m r ms translated hr _ ih =>
    cases r with
    | none =>
      obtain ⟨d,hd,⟨hpadding,-,-⟩ | ⟨-,v,-,hsome⟩⟩ := piMetadataToIr_eq_ok.mp hr
      · have hdrop : isPaddingField byId m = true := (isPaddingField_of_lookup hd).trans hpadding
        rw [List.reduceOption_cons_of_none,List.filter_cons_of_neg (by simp [hdrop])]
        exact ih
      · cases hsome
    | some ir =>
      obtain ⟨hkeep,hback,hagain⟩ := metadata_back hinet hwf options hr
      rw [List.reduceOption_cons_of_some,List.filter_cons_of_pos (by simp [hkeep])]
      exact ⟨.cons hback ih.1,.cons hagain ih.2⟩

omit [InetText] in
@[simp] theorem canonicalMetadata_id (m : PacketMetadata) : (canonicalMetadata byId m).metadataId = m.metadataId := by
  unfold canonicalMetadata
  split
  · split_ifs <;> rfl
  · rfl

omit [InetText] in
@[simp] theorem mem_paddingMetadata : m ∈ paddingMetadata byName ↔
    ∃ x ∈ byName,x.2.isPadding = true ∧ createPaddingMetadata x.2.metadata.id = m := by
  simp [paddingMetadata,and_assoc]

omit [InetText] in
private theorem paddingMetadata_nodup (hwf : PacketMetadataWellFormed byId byName) :
    ((paddingMetadata byName).map PacketMetadata.metadataId).Nodup := by
  unfold paddingMetadata
  rw [List.map_map]
  exact hwf.index.symm.nodup_names.sublist (List.filter_sublist.map _)

private theorem paddingMetadata_to_ir (hwf : PacketMetadataWellFormed byId byName) :
    List.Forall₂ (fun m r => piMetadataToIr byId m = .ok r) (paddingMetadata byName)
      ((paddingMetadata byName).map fun _ => none) := by
  rw [List.forall₂_map_right_iff,List.forall₂_same]
  intro m hm
  obtain ⟨x,hx,hpadding,rfl⟩ := mem_paddingMetadata.mp hm
  obtain ⟨-,hid⟩ := hwf.index.ofName x hx
  rw [piMetadataToIr_eq_ok]
  exact ⟨x.2,lookup_eq_some_of_mem hwf.index.idNodup hid,.inl ⟨hpadding,rfl,rfl⟩⟩

def backMetadata (byId : List (UInt32 × IrPacketIoMetadataDefinition)) (byName : List (String × IrPacketIoMetadataDefinition))
    (ms : List PacketMetadata) : List PacketMetadata :=
  (ms.filter fun m => !isPaddingField byId m).map (canonicalMetadata byId) ++ paddingMetadata byName

omit [InetText] in
private theorem isPaddingField_padding (hwf : PacketMetadataWellFormed byId byName)
    (hm : m ∈ paddingMetadata byName) {m' : PacketMetadata} (hid : m'.metadataId = m.metadataId) :
    isPaddingField byId m' = true := by
  obtain ⟨x,hx,hpadding,rfl⟩ := mem_paddingMetadata.mp hm
  have hlookup := lookup_eq_some_of_mem hwf.index.idNodup (hwf.index.ofName x hx).2
  rw [isPaddingField_of_lookup (d := x.2) (by rw [hid]; exact hlookup),hpadding]

namespace TranslatedMetadata

theorem declared (h : TranslatedMetadata byId ms translated) (hm : m ∈ ms) : ∃ d,byId.lookup m.metadataId = some d := by
  obtain ⟨r,-,hr⟩ := exists_of_forall₂_left h.each hm
  obtain ⟨d,hd,-⟩ := piMetadataToIr_eq_ok.mp hr
  exact ⟨d,hd⟩

theorem ids_perm (hwf : PacketMetadataWellFormed byId byName) (h : TranslatedMetadata byId ms translated) :
    (ms.map PacketMetadata.metadataId).Perm (byId.map Prod.fst) := by
  rw [List.perm_ext_iff_of_nodup h.nodup hwf.index.idNodup]
  intro id
  constructor
  · intro hid
    obtain ⟨m,hm,rfl⟩ := List.mem_map.mp hid
    obtain ⟨d,hd⟩ := h.declared hm
    exact List.mem_map.mpr ⟨_,mem_of_lookup_eq_some hd,rfl⟩
  · intro hid
    obtain ⟨x,hx,rfl⟩ := List.mem_map.mp hid
    exact h.complete x hx

theorem kept_ids_nodup (h : TranslatedMetadata byId ms translated) :
    (((ms.filter fun m => !isPaddingField byId m).map (canonicalMetadata byId)).map PacketMetadata.metadataId).Nodup := by
  have hids : ((ms.filter fun m => !isPaddingField byId m).map (canonicalMetadata byId)).map PacketMetadata.metadataId =
      (ms.filter fun m => !isPaddingField byId m).map PacketMetadata.metadataId := by
    rw [List.map_map]
    exact List.map_congr_left fun m _ => canonicalMetadata_id m
  rw [hids]
  exact h.nodup.sublist (List.filter_sublist.map _)

theorem back (hinet : InetText.Inverse) (hwf : PacketMetadataWellFormed byId byName)
    (h : TranslatedMetadata byId ms translated) :
    TranslatedMetadata byId (backMetadata byId byName ms)
      (translated.reduceOption.map some ++ (paddingMetadata byName).map fun _ => none) := by
  obtain ⟨kept,hkept,-,hagain⟩ := kept_metadata hinet hwf {} h.each
  subst hkept
  refine ⟨List.rel_append hagain (paddingMetadata_to_ir hwf),?_,?_⟩
  · unfold backMetadata
    rw [List.map_append,List.nodup_append]
    refine ⟨h.kept_ids_nodup,paddingMetadata_nodup hwf,?_⟩
    rintro id hkept id' hpadding rfl
    obtain ⟨m,hm,hid⟩ := List.mem_map.mp hkept
    obtain ⟨m₀,hm₀,rfl⟩ := List.mem_map.mp hm
    obtain ⟨p,hp,hpid⟩ := List.mem_map.mp hpadding
    have hsame : m₀.metadataId = p.metadataId := by rw [hpid,← hid,canonicalMetadata_id]
    have hyes := isPaddingField_padding hwf hp hsame
    have hno := (List.mem_filter.mp hm₀).2
    simp [hyes] at hno
  · intro x hx
    have hlookup := lookup_eq_some_of_mem hwf.index.idNodup hx
    unfold backMetadata
    rw [List.map_append,List.mem_append]
    cases hpadding : x.2.isPadding with
    | true =>
      obtain ⟨hid,hname⟩ := hwf.index.ofId x hx
      exact .inr (List.mem_map.mpr ⟨_,mem_paddingMetadata.mpr ⟨_,hname,hpadding,rfl⟩,hid⟩)
    | false =>
      obtain ⟨m,hm,hid⟩ := List.mem_map.mp (h.complete x hx)
      have hkeep := isPaddingField_of_lookup (m := m) (d := x.2) (by rw [hid]; exact hlookup)
      refine .inl (List.mem_map.mpr ⟨canonicalMetadata byId m,List.mem_map.mpr ⟨m,?_,rfl⟩,by rw [canonicalMetadata_id,hid]⟩)
      exact List.mem_filter.mpr ⟨hm,by simp [hkeep,hpadding]⟩

theorem encoded (hinet : InetText.Inverse) (hwf : PacketMetadataWellFormed byId byName)
    (h : TranslatedMetadata byId ms translated) :
    EncodedMetadata options byName translated.reduceOption
      ((ms.filter fun m => !isPaddingField byId m).map (canonicalMetadata byId)) := by
  obtain ⟨kept,hkept,hback,hagain⟩ := kept_metadata hinet hwf options h.each
  subst hkept
  refine ⟨hback,?_,?_⟩
  · rw [List.forall₂_map_right_iff] at hagain
    refine nodup_of_forall₂ hagain h.kept_ids_nodup fun m r m' r' hr hr' heq => ?_
    obtain ⟨d,hd,⟨-,-,hnone⟩ | ⟨-,v,-,hsome⟩⟩ := piMetadataToIr_eq_ok.mp hr
    · cases hnone
    obtain ⟨d',hd',⟨-,-,hnone⟩ | ⟨-,v',-,hsome'⟩⟩ := piMetadataToIr_eq_ok.mp hr'
    · cases hnone
    cases hsome
    cases hsome'
    obtain ⟨hid,hname⟩ := hwf.index.lookup_name hd
    obtain ⟨hid',hname'⟩ := hwf.index.lookup_name hd'
    have heq : d.metadata.name = d'.metadata.name := heq
    rw [heq] at hname
    rw [← hid,← hid',Option.some.inj (hname.symm.trans hname')]
  · intro x hx hpadding
    obtain ⟨hxname,hid⟩ := hwf.index.ofName x hx
    obtain ⟨m,hm,hmid⟩ := List.mem_map.mp (h.complete _ hid)
    obtain ⟨r,hr,hmr⟩ := exists_of_forall₂_left h.each hm
    obtain ⟨d,hd,hcases⟩ := piMetadataToIr_eq_ok.mp hmr
    have hmid : m.metadataId = x.2.metadata.id := hmid
    rw [hmid,lookup_eq_some_of_mem hwf.index.idNodup hid] at hd
    obtain rfl := Option.some.inj hd
    obtain ⟨hyes,-,-⟩ | ⟨-,v,-,rfl⟩ := hcases
    · rw [hpadding] at hyes
      cases hyes
    · exact List.mem_map.mpr ⟨_,List.reduceOption_mem_iff.mpr hr,hxname⟩

end TranslatedMetadata
end RoundTrip

section Results

/-- The PI metadata that are accepted: each declared field once, nothing else, and padding is zero. -/
structure PiMetadataComplete (byId : List (UInt32 × IrPacketIoMetadataDefinition)) (ms : List PacketMetadata) : Prop where
  distinct : (ms.map PacketMetadata.metadataId).Nodup
  defined : ∀ m ∈ ms,(byId.lookup m.metadataId).isSome = true
  present : ∀ x ∈ byId,x.1 ∈ ms.map PacketMetadata.metadataId
  paddingZero : ∀ m ∈ ms,isPaddingField byId m = true → isAllZeros m.value = true

/-- In the IR each declared field is there once, and padding is not. -/
structure IrMetadataComplete (byName : List (String × IrPacketIoMetadataDefinition)) (ms : List IrPacketMetadata) : Prop where
  distinct : (ms.map IrPacketMetadata.name).Nodup
  defined : ∀ m ∈ ms,∃ d,byName.lookup m.name = some d ∧ d.isPadding = false
  present : ∀ x ∈ byName,x.2.isPadding = false → x.1 ∈ ms.map IrPacketMetadata.name

/-- Two PI messages with the same payload and the same metadata, of which the second has zero padding. -/
structure SamePacket (byId : List (UInt32 × IrPacketIoMetadataDefinition)) (pi back : PacketIo) : Prop where
  payload : back.payload = pi.payload
  sent : (pi.metadata.map PacketMetadata.metadataId).Perm (byId.map Prod.fst)
  declared : (back.metadata.map PacketMetadata.metadataId).Perm (byId.map Prod.fst)
  values : ∀ m ∈ pi.metadata,∃ m' ∈ back.metadata,m'.metadataId = m.metadataId ∧ bytesToNat m'.value = bytesToNat m.value
  strings : ∀ m ∈ pi.metadata,∀ d,byId.lookup m.metadataId = some d → d.format = .string → d.isPadding = false →
    m ∈ back.metadata
  padding : ∀ m ∈ back.metadata,isPaddingField byId m = true → m.value = [0]

variable [InetText] {info : IrP4Info} {kind : PacketIoKind} {options : TranslationOptions}
  {byId : List (UInt32 × IrPacketIoMetadataDefinition)} {byName : List (String × IrPacketIoMetadataDefinition)}

theorem TranslatedMetadata.complete_of {ms : List PacketMetadata} {translated : List (Option IrPacketMetadata)}
    (h : TranslatedMetadata byId ms translated) : PiMetadataComplete byId ms := by
  refine ⟨h.nodup,fun m hm => ?_,h.complete,fun m hm hpadding => ?_⟩
  · obtain ⟨d,hd⟩ := h.declared hm
    simp [hd]
  · obtain ⟨r,-,hr⟩ := exists_of_forall₂_left h.each hm
    obtain ⟨d,hd,⟨-,hzero,-⟩ | ⟨hno,-⟩⟩ := piMetadataToIr_eq_ok.mp hr
    · exact hzero
    · rw [isPaddingField_of_lookup hd,hno] at hpadding
      cases hpadding

theorem EncodedMetadata.complete_of {ms : List IrPacketMetadata} {encoded : List PacketMetadata}
    (h : EncodedMetadata options byName ms encoded) : IrMetadataComplete byName ms := by
  refine ⟨h.nodup,fun m hm => ?_,h.complete⟩
  obtain ⟨r,-,hr⟩ := exists_of_forall₂_left h.each hm
  obtain ⟨d,hd,hpadding,-⟩ := irMetadataToPi_eq_ok.mp hr
  exact ⟨d,hd,hpadding⟩

omit [InetText] in
private theorem canonicalFor_value (format : Format) (bytes : Bytes) : bytesToNat (canonicalFor format bytes) = bytesToNat bytes := by
  unfold canonicalFor
  split_ifs
  · rfl
  · exact canonical_value bytes

theorem TranslatedMetadata.samePacket (hinet : InetText.Inverse) (hwf : PacketMetadataWellFormed byId byName)
    {pi : PacketIo} {translated : List (Option IrPacketMetadata)} (h : TranslatedMetadata byId pi.metadata translated) :
    SamePacket byId pi ⟨pi.payload,backMetadata byId byName pi.metadata⟩ := by
  have hback := h.back hinet hwf
  have hcomplete := h.complete_of
  refine ⟨rfl,h.ids_perm hwf,hback.ids_perm hwf,fun m hm => ?_,fun m hm d hd hstring hpadding => ?_,fun m hm hpadding => ?_⟩
  · obtain ⟨d,hd⟩ := h.declared hm
    cases hpadding : d.isPadding with
    | true =>
      have hzero := isAllZeros_iff.mp (hcomplete.paddingZero m hm ((isPaddingField_of_lookup hd).trans hpadding))
      obtain ⟨hid,hname⟩ := hwf.index.ofId _ (mem_of_lookup_eq_some hd)
      have hmem := mem_paddingMetadata.mpr ⟨_,hname,hpadding,rfl⟩
      exact ⟨_,List.mem_append_right _ hmem,hid,hzero.symm⟩
    | false =>
      have hkeep : m ∈ pi.metadata.filter fun m => !isPaddingField byId m :=
        List.mem_filter.mpr ⟨hm,by simp [isPaddingField_of_lookup hd,hpadding]⟩
      refine ⟨canonicalMetadata byId m,List.mem_append_left _ (List.mem_map_of_mem hkeep),canonicalMetadata_id m,?_⟩
      rw [canonicalMetadata_of_lookup hd,if_neg (by simp [hpadding])]
      exact canonicalFor_value d.format m.value
  · have hkeep : m ∈ pi.metadata.filter fun m => !isPaddingField byId m :=
      List.mem_filter.mpr ⟨hm,by simp [isPaddingField_of_lookup hd,hpadding]⟩
    have hsame : canonicalMetadata byId m = m := by
      rw [canonicalMetadata_of_lookup hd,if_neg (by simp [hpadding]),hstring]
      rfl
    rw [← hsame]
    exact List.mem_append_left _ (List.mem_map_of_mem hkeep)
  · rcases List.mem_append.mp hm with hkept | hadded
    · obtain ⟨m₀,hm₀,rfl⟩ := List.mem_map.mp hkept
      have hno := (List.mem_filter.mp hm₀).2
      unfold isPaddingField at hpadding hno
      rw [canonicalMetadata_id] at hpadding
      simp [hpadding] at hno
    · obtain ⟨x,-,-,rfl⟩ := mem_paddingMetadata.mp hadded
      rfl

/-- Accepted packets come back with the same payload and metadata, and give the same IR again; a packet whose
metadata are not the declared ones is rejected on either side. -/
theorem packet_io_round_trip (hinet : InetText.Inverse) (hinfo : info.PacketIoWellFormed) (kind : PacketIoKind)
    (options options' : TranslationOptions) :
    (∀ pi ir,piPacketIoToIr info kind pi options = .ok ir → ∃ back,irPacketIoToPi info kind ir options' = .ok back ∧
      SamePacket (info.packetMetadataById kind) pi back ∧ piPacketIoToIr info kind back options = .ok ir) ∧
    (∀ pi,¬ PiMetadataComplete (info.packetMetadataById kind) pi.metadata → ∀ ir,
      piPacketIoToIr info kind pi options ≠ .ok ir) ∧
    (∀ ir,¬ IrMetadataComplete (info.packetMetadataByName kind) ir.metadata → ∀ pi,
      irPacketIoToPi info kind ir options' ≠ .ok pi) := by
  have hwf := hinfo kind
  refine ⟨fun pi ir h => ?_,fun pi hbad ir h => ?_,fun ir hbad pi h => ?_⟩
  · obtain ⟨translated,htranslated,rfl⟩ := piPacketIoToIr_eq_ok.mp h
    refine ⟨⟨pi.payload,backMetadata _ (info.packetMetadataByName kind) pi.metadata⟩,?_,htranslated.samePacket hinet hwf,?_⟩
    · exact irPacketIoToPi_eq_ok.mpr ⟨_,htranslated.encoded hinet hwf,rfl⟩
    · refine piPacketIoToIr_eq_ok.mpr ⟨_,htranslated.back hinet hwf,?_⟩
      have hkept : (translated.reduceOption.map some).reduceOption = translated.reduceOption := by simp [List.reduceOption]
      have hpadding : ((paddingMetadata (info.packetMetadataByName kind)).map fun _ =>
          (none : Option IrPacketMetadata)).reduceOption = [] := by simp [List.reduceOption]
      rw [List.reduceOption_append,hkept,hpadding,List.append_nil]
  · obtain ⟨translated,htranslated,-⟩ := piPacketIoToIr_eq_ok.mp h
    exact hbad htranslated.complete_of
  · obtain ⟨encoded,hencoded,-⟩ := irPacketIoToPi_eq_ok.mp h
    exact hbad hencoded.complete_of

end Results

attribute [local instance] uncompressedInet

/-- A packet-in with an ingress port, a number of 9 bits, and 7 bits of padding. -/
def ingressInfo : IrP4Info :=
  let port : IrPacketIoMetadataDefinition := ⟨{ id := 1,name := "ingress_port",bitwidth := 0 },.string,false⟩
  let number : IrPacketIoMetadataDefinition := ⟨{ id := 2,name := "queue",bitwidth := 9 },.hexString,false⟩
  let padding : IrPacketIoMetadataDefinition := ⟨{ id := 3,name := "unused",bitwidth := 7 },.hexString,true⟩
  { packetInMetadataById := [(1,port),(2,number),(3,padding)]
    packetInMetadataByName := [("ingress_port",port),("queue",number),("unused",padding)] }

private theorem ingressInfo_wellFormed : ingressInfo.PacketIoWellFormed := by
  have hbounded : ∀ x ∈ ingressInfo.packetInMetadataById,x.2.format ≠ .mac ∧ x.2.format ≠ .ipv4 ∧ x.2.format ≠ .ipv6 := by
    decide
  intro kind
  cases kind with
  | packetIn =>
    refine ⟨by decide,fun x hx => ?_⟩
    obtain ⟨hmac,hipv4,hipv6⟩ := hbounded x hx
    exact ⟨fun h => absurd h hmac,fun h => absurd h hipv4,fun h => absurd h hipv6⟩
  | packetOut => exact ⟨by decide,fun x hx => absurd hx (by simp [IrP4Info.packetMetadataById,ingressInfo])⟩

/-- A packet-in sent with leading zeros. -/
def ingressPacket : PacketIo := ⟨[1,2,3],[⟨3,[0,0]⟩,⟨2,[0,1,2]⟩,⟨1,[65]⟩]⟩

theorem ingress_packet_round_trip : ∃ ir back,piPacketIoToIr ingressInfo .packetIn ingressPacket {} = .ok ir ∧
    irPacketIoToPi ingressInfo .packetIn ir {} = .ok back ∧ SamePacket ingressInfo.packetInMetadataById ingressPacket back ∧
    piPacketIoToIr ingressInfo .packetIn back {} = .ok ir := by
  have hir : ∃ ir,piPacketIoToIr ingressInfo .packetIn ingressPacket {} = .ok ir :=
    ⟨⟨[1,2,3],[⟨"queue",.hexStr "0x102"⟩,⟨"ingress_port",.str "A"⟩]⟩,toOption_eq_some.mp (by decide)⟩
  obtain ⟨ir,hir⟩ := hir
  obtain ⟨back,hback,hsame,hagain⟩ :=
    (packet_io_round_trip uncompressedInet_inverse ingressInfo_wellFormed .packetIn {} {}).1 ingressPacket ir hir
  exact ⟨ir,back,hir,hback,hsame,hagain⟩

end SonicPins.Pdpi
