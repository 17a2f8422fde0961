import SonicPins.Packetlib.SameValues

/-! A valid packet stays valid in the canonical texts that parsing makes. -/
namespace SonicPins.Packetlib
open Lib Pdpi

variable {numBits : Nat} {text text' options : String} {bits : BitString}

section Texts

theorem toNat_emod_lt (numBits : Nat) (v : Int) : (v % 2 ^ numBits).toNat < 2 ^ numBits := by
  have hpos : (0 : Int) < 2 ^ numBits := by positivity
  have hbound := Int.emod_lt_of_pos v hpos
  zify
  rw [Int.toNat_of_nonneg (Int.emod_nonneg _ hpos.ne')]
  exact hbound

theorem bitsetToHexString_eq (numBits : Nat) (v : Int) :
    bitsetToHexString numBits v = BitString.toHexString (natToBits numBits (v % 2 ^ numBits).toNat) := by
  rw [bitsetToHexString,BitString.toHexString,length_natToBits,bitsToNat_natToBits (toNat_emod_lt numBits v)]

theorem hexStringToBitset_bitsetToHexString (numBits : Nat) (v : Int) :
    hexStringToBitset numBits (bitsetToHexString numBits v) = .ok (v % 2 ^ numBits).toNat := by
  rw [bitsetToHexString_eq,hexStringToBitset_toHexString (length_natToBits _ _),bitsToNat_natToBits (toNat_emod_lt numBits v)]

variable [InetText]

theorem ReprintedField.computed (h : ReprintedField (.bits numBits) text text') {v : Int}
    (hv : text = bitsetToHexString numBits v) : text' = text := by
  rw [h.canonical (v := (v % 2 ^ numBits).toNat) (by rw [hv,hexStringToBitset_bitsetToHexString]),hv,bitsetToHexString_eq]

theorem ReprintedField.toInt (hbits : numBits ≤ 31)
    (h : ReprintedField (.bits numBits) text text') : hexStringToInt text' = hexStringToInt text := by
  obtain ⟨bits,hbits',-⟩ := id h
  obtain ⟨v,hv,-⟩ := map_eq_ok.mp hbits'
  rw [hexStringToInt_of_bitset hbits hv,hexStringToInt_of_bitset hbits (h.bitset hv)]

theorem ReprintedField.byteString (h8 : numBits % 8 = 0)
    (h : ReprintedField (.bits numBits) text text') : hexStringToByteString text' = hexStringToByteString text := by
  obtain ⟨bits,hbits,-⟩ := id h
  obtain ⟨v,hv,-⟩ := map_eq_ok.mp hbits
  obtain ⟨bytes,hbytes,heq⟩ := hexStringToByteString_of_bitset h8 hv
  obtain ⟨bytes',hbytes',heq'⟩ := hexStringToByteString_of_bitset h8 (h.bitset hv)
  rw [hbytes,hbytes',bytesToBits_injective (heq.trans heq'.symm)]

theorem ReprintedField.written (hinet : InetText.Inverse) {format : FieldFormat}
    (h : ReprintedField format text text') : FieldWritten format text' := by
  obtain ⟨bits,-,hbits⟩ := h.same hinet
  exact ⟨bits,hbits⟩

theorem FieldsRelated.written (hinet : InetText.Inverse) {fields : List FieldSpec} {texts texts' : List String}
    (h : FieldsRelated ReprintedField fields texts texts') : FieldsWritten fields texts' := by
  induction fields generalizing texts texts' with
  | nil =>
    match texts,texts',h with
    | [],[],_ => exact .nil
  | cons field fields ih =>
    match texts,texts',h with
    | text :: texts,text' :: texts',h => exact .cons (h.1.written hinet) (ih h.2)

end Texts

theorem expectedHeaderLength_eq (h : serializeOptions options = .ok bits) :
    expectedHeaderLength options = bitsetToHexString 4 (5 + (int32 bits.length).tdiv 32) := by
  unfold serializeOptions at h
  unfold expectedHeaderLength
  dsimp only
  split at h
  · rename_i hempty
    cases h
    rw [if_pos hempty]
    have hzero : int32 (([] : BitString).length : Nat) = 0 := int32_of_lt (by decide)
    rw [hzero]
  · rename_i hempty
    obtain ⟨bytes,hbytes,rfl⟩ := map_eq_ok.mp h
    obtain ⟨digits,hdigits,heven,rfl⟩ := hexStringToByteString_eq_ok.mp hbytes
    have hlength := length_hexCharsToBytes heven
    rw [if_neg hempty,hdigits.length,length_bytesToBits]
    congr 4
    omega

theorem bytes_of_options (hempty : options ≠ "") (h : serializeOptions options = .ok bits) :
    ∃ bytes,hexStringToByteString options = .ok bytes ∧ numBitsOf bytes = int32 bits.length := by
  unfold serializeOptions serializeHexString at h
  rw [if_neg (by simpa using hempty)] at h
  obtain ⟨bytes,hbytes,rfl⟩ := map_eq_ok.mp h
  exact ⟨bytes,hbytes,by rw [numBitsOf,length_bytesToBits,Nat.mul_comm]⟩

theorem optionsShort_iff (h : serializeOptions options = .ok bits) :
    OptionsShort options ↔ int32 bits.length % 32 = 0 ∧ (int32 bits.length).tdiv 32 ≤ 10 := by
  unfold OptionsShort
  by_cases hempty : options = ""
  · subst hempty
    cases h
    have hzero : int32 (([] : BitString).length : Nat) = 0 := int32_of_lt (by decide)
    rw [hzero]
    simp
  · obtain ⟨bytes,hbytes,hbits⟩ := bytes_of_options hempty h
    simp [hempty,hbytes,hbits]

theorem optionsWhole_iff (h : serializeOptions options = .ok bits) : OptionsWhole options ↔ int32 bits.length % 32 = 0 := by
  unfold OptionsWhole
  by_cases hempty : options = ""
  · subst hempty
    cases h
    have hzero : int32 (([] : BitString).length : Nat) = 0 := int32_of_lt (by decide)
    rw [hzero]
    simp
  · obtain ⟨bytes,hbytes,hbits⟩ := bytes_of_options hempty h
    simp [hempty,hbytes,hbits]

theorem SameOptions.checks {options' : String} (h : SameOptions options options') :
    expectedHeaderLength options' = expectedHeaderLength options ∧ (OptionsWhole options' ↔ OptionsWhole options) ∧
      (OptionsShort options' ↔ OptionsShort options) := by
  obtain ⟨bits,hbits,hbits'⟩ := h
  rw [expectedHeaderLength_eq hbits,expectedHeaderLength_eq hbits',optionsWhole_iff hbits,optionsWhole_iff hbits',
    optionsShort_iff hbits,optionsShort_iff hbits']
  exact ⟨rfl,Iff.rfl,Iff.rfl⟩

section Headers
variable [InetText]

omit [InetText] in
private theorem simpleHexAtoi32_upper : ∀ d < 16,10 ≤ d →
    simpleHexAtoi32 (String.ofList ['0','x',(Nat.digitChar d).toUpper]) = some (d : Int) := by
  decide

omit [InetText] in
private theorem messageType_canonical {v : Nat} {value : Int} (hv : hexStringToBitset 4 text = .ok v)
    (hvalue : simpleHexAtoi32 text = some value) (hle : value ≤ 3) : text = BitString.toHexString (natToBits 4 v) := by
  obtain ⟨digits,htext,hlen,hdigits,hlt⟩ := hexStringToBitset_eq_ok.mp hv
  obtain ⟨c,rfl⟩ := List.length_eq_one_iff.mp (show digits.length = 1 from hlen)
  obtain ⟨d,hd⟩ := Option.isSome_iff_exists.mp (List.all_eq_true.mp htext.2 c (by simp))
  refine toHexString_of_digits htext hlen hdigits hlt ?_
  simp only [List.mem_singleton,forall_eq,hd,Option.getD_some]
  rcases digitChar_of_digitValue hd with hc | ⟨hten,hc⟩
  · exact hc
  · exfalso
    have hd16 := digitValue_lt hd
    rw [htext.eq_ofList,hc,simpleHexAtoi32_upper d hd16 hten] at hvalue
    cases hvalue
    omega

theorem LayoutRelated.written (hinet : InetText.Inverse) {H : Type} {layout : HeaderLayout H} {header header' : H}
    (h : LayoutRelated ReprintedField layout header header') : LayoutWritten layout header' := FieldsRelated.written hinet h

theorem computedField_kept {α : Type} {computed computed' : StatusOr α} {toInt : α → Int}
    (h : ReprintedField (.bits numBits) text text') (hsame : computed' = computed) (hfits : ComputedField numBits computed toInt text) :
    ComputedField numBits computed' toInt text' := by
  obtain ⟨a,ha,htext⟩ := hfits
  exact ⟨a,hsame.trans ha,(h.computed htext).trans htext⟩

theorem constant_kept {expected : String} (h : ReprintedField (.bits numBits) text text') {v : Int}
    (hv : expected = bitsetToHexString numBits v) (htext : text = expected) : text' = expected :=
  (h.computed (htext.trans hv)).trans htext

theorem optionalField_kept (h : OptionalRelated ReprintedField (.bits 16) text text') {v : Int}
    (hv : text = bitsetToHexString 16 v) : text' = text := by
  rcases h with ⟨rfl,rfl⟩ | h
  · rfl
  · exact h.computed hv

theorem optionalField_empty (h : OptionalRelated ReprintedField (.bits 16) "" text') : text' = "" := by
  rcases h with ⟨-,h⟩ | ⟨bits,hbits,-⟩
  · exact h
  · rw [serializeField] at hbits
    obtain ⟨v,hv,-⟩ := map_eq_ok.mp hbits
    obtain ⟨digits,hdigits,-⟩ := hexStringToBitset_eq_ok.mp hv
    exact absurd rfl hdigits.ne_empty

private theorem greFields_kept {packet packet' : Packet} (hpackets : SamePackets packet packet') {i : Int} {header header' : GreHeader}
    (hfields : LayoutRelated ReprintedField GreHeader.layout header header')
    (hchecksum : OptionalRelated ReprintedField (.bits 16) header.checksum header'.checksum)
    (hreserved1 : OptionalRelated ReprintedField (.bits 16) header.reserved1 header'.reserved1)
    (h : GreFieldsFit packet i header) : GreFieldsFit packet' i header' := by
  have hpresent : header'.checksumPresent = header.checksumPresent := ReprintedField.bit hfields.1
  unfold GreFieldsFit at *
  rw [hpresent]
  split
  · rename_i hone
    rw [if_pos hone] at h
    obtain ⟨hvalid,⟨checksum,hcomputed,htext⟩,hzero⟩ := h
    have hkept := optionalField_kept hchecksum htext
    have hkept1 := optionalField_kept hreserved1 (v := 0) (by rw [hzero]; decide)
    rw [hkept,hkept1]
    exact ⟨hvalid,⟨checksum,(hpackets.greHeaderChecksum i).trans hcomputed,htext⟩,hzero⟩
  · rename_i hone
    rw [if_neg hone] at h
    rw [h.1] at hchecksum
    rw [h.2] at hreserved1
    exact ⟨optionalField_empty hchecksum,optionalField_empty hreserved1⟩

end Headers

private theorem forall₂_eraseIdx {α β : Type} {R : α → β → Prop} {l : List α} {l' : List β} (h : List.Forall₂ R l l') (n : Nat) :
    List.Forall₂ R (l.eraseIdx n) (l'.eraseIdx n) := by
  induction h generalizing n with
  | nil => exact .nil
  | cons hfirst hrest ih =>
    cases n with
    | zero => exact hrest
    | succ n => exact .cons hfirst (ih n)

variable [InetText]

theorem HeaderValid.kept (hinet : InetText.Inverse) {packet packet' : Packet} (hpackets : SamePackets packet packet') {i : Int}
    {header header' : Header} (hheader : Reprinted header header') (h : HeaderValid packet i header) :
    HeaderValid packet' i header' := by
  cases hheader with
  | ethernetHeader fields =>
    obtain ⟨-,size,ethertype,hsize,hethertype,hfits⟩ := h
    have hvalue := ReprintedField.toInt (by decide) fields.2.2.1
    exact ⟨LayoutRelated.written hinet fields,size,ethertype,(hpackets.packetSizeInBytes _).trans hsize,hvalue.trans hethertype,
      hfits⟩
  | ipv4Header fields uninterpreted =>
    obtain ⟨-,hwhole,hihl,hversion,hlength,hchecksum⟩ := h
    obtain ⟨hexpected,hwhole',-⟩ := uninterpreted.same.checks
    refine ⟨LayoutRelated.written hinet fields,hwhole'.mpr hwhole,?_,constant_kept fields.1 (v := 4) (by decide) hversion,
      computedField_kept fields.2.2.2.2.1 (hpackets.packetSizeInBytes i) hlength,
      computedField_kept fields.2.2.2.2.2.2.2.2.2.2.1 (SameValues.ipv4Checksum
        (Reprinted.same hinet (.ipv4Header fields uninterpreted))) hchecksum⟩
    exact (ReprintedField.computed fields.2.1 hihl).trans (hihl.trans hexpected.symm)
  | ipv6Header fields =>
    obtain ⟨-,hversion,hlength⟩ := h
    exact ⟨LayoutRelated.written hinet fields,constant_kept fields.1 (v := 6) (by decide) hversion,
      computedField_kept fields.2.2.2.2.1 (hpackets.packetSizeInBytes _) hlength⟩
  | hopByHopOptionsHeader fields =>
    obtain ⟨-,hpadding⟩ := h
    refine ⟨LayoutRelated.written hinet fields,?_⟩
    unfold hopByHopOptionsInvalidOptionsAndPadding at *
    rw [ReprintedField.byteString (by decide) fields.2.2.1]
    exact hpadding
  | udpHeader fields =>
    obtain ⟨-,hlength,computed,hcomputed,hchecksum⟩ := h
    refine ⟨LayoutRelated.written hinet fields,computedField_kept fields.2.2.1 (hpackets.packetSizeInBytes i) hlength,computed,
      (hpackets.udpHeaderChecksum i).trans hcomputed,fun expected hexpected => ?_⟩
    rcases hchecksum expected hexpected with hzero | hvalue
    · exact .inl ((ReprintedField.computed fields.2.2.2.1 hzero).trans hzero)
    · exact .inr ((ReprintedField.computed fields.2.2.2.1 hvalue).trans hvalue)
  | tcpHeader fields uninterpreted =>
    obtain ⟨-,hshort,hoffset⟩ := h
    obtain ⟨hexpected,-,hshort'⟩ := uninterpreted.same.checks
    exact ⟨LayoutRelated.written hinet fields,hshort'.mpr hshort,
      (ReprintedField.computed fields.2.2.2.2.1 hoffset).trans (hoffset.trans hexpected.symm)⟩
  | arpHeader fields =>
    obtain ⟨-,hhardware,hprotocol,hhardwareLength,hprotocolLength⟩ := h
    exact ⟨LayoutRelated.written hinet fields,constant_kept fields.1 (v := 1) (by decide) hhardware,
      constant_kept fields.2.1 (v := 0x0800) (by decide) hprotocol,
      constant_kept fields.2.2.1 (v := 6) (by decide) hhardwareLength,
      constant_kept fields.2.2.2.1 (v := 4) (by decide) hprotocolLength⟩
  | icmpHeader fields =>
    obtain ⟨-,hpos,⟨j,preceding,hj,hpreceding,hcase⟩,checksum,hchecksum,htext⟩ := h
    refine ⟨LayoutRelated.written hinet fields,hpos,?_,checksum,(hpackets.icmpHeaderChecksum i).trans hchecksum,
      (ReprintedField.computed fields.2.2.1 htext).trans htext⟩
    rcases hpackets.headerAt j with ⟨header,header',hheader,hheader',hsame⟩ | ⟨failure,hfailure,-⟩
    · cases hheader.symm.trans hpreceding
      exact ⟨j,header',(hpackets.findPrecedingIpHeader i).trans hj,hheader',by rw [HeaderRelated.headerCase hsame]; exact hcase⟩
    · cases hfailure.symm.trans hpreceding
  | vlanHeader fields => exact LayoutRelated.written hinet fields
  | csigHeader fields => exact LayoutRelated.written hinet fields
  | greHeader fields checksum reserved1 =>
    obtain ⟨-,hreserved0,hversion,hfit⟩ := h
    exact ⟨ReprintedField.written hinet fields.1,constant_kept fields.2.1 (v := 0) (by decide) hreserved0,
      constant_kept fields.2.2.1 (v := 0) (by decide) hversion,greFields_kept hpackets fields checksum reserved1 hfit⟩
  | saiP4Bmv2PacketInHeader fields =>
    obtain ⟨-,hpad⟩ := h
    exact ⟨LayoutRelated.written hinet fields,(ReprintedField.toInt (by decide) fields.2.2.1).trans hpad⟩
  | ipfixHeader fields =>
    obtain ⟨-,hlength⟩ := h
    exact ⟨LayoutRelated.written hinet fields,computedField_kept fields.2.1 (hpackets.packetSizeInBytes i) hlength⟩
  | psampHeader fields =>
    obtain ⟨-,hvariable,hlength,hsampled⟩ := h
    exact ⟨LayoutRelated.written hinet fields,
      (ReprintedField.toInt (by decide) fields.2.2.2.2.2.2.2.2.2.2.1).trans hvariable,
      computedField_kept fields.2.1 (hpackets.packetSizeInBytes i) hlength,
      computedField_kept fields.2.2.2.2.2.2.2.2.2.2.2.1 (hpackets.packetSizeInBytes _) hsampled⟩
  | @ptpHeader ptp ptp' fields =>
    obtain ⟨-,⟨value,hvalue,hmin,hmax⟩,hreserved0,hreserved1,hreserved2,hlength⟩ := h
    have htype : ptp'.messageType = ptp.messageType := by
      have hfield : ReprintedField (.bits 4) ptp.messageType ptp'.messageType := fields.2.1
      obtain ⟨bits,hbits,-⟩ := id hfield
      obtain ⟨v,hv,-⟩ := map_eq_ok.mp hbits
      rw [hfield.canonical hv,← messageType_canonical hv hvalue hmax]
    exact ⟨LayoutRelated.written hinet fields,⟨value,by rw [htype]; exact hvalue,hmin,hmax⟩,
      constant_kept fields.2.2.1 (v := 0) (by decide) hreserved0,
      constant_kept fields.2.2.2.2.2.2.1 (v := 0) (by decide) hreserved1,
      constant_kept fields.2.2.2.2.2.2.2.2.2.1 (v := 0) (by decide) hreserved2,
      computedField_kept fields.2.2.2.2.1 (hpackets.packetSizeInBytes i) hlength⟩
  | pspHeader fields =>
    obtain ⟨-,hreserved⟩ := h
    exact ⟨forall₂_eraseIdx (LayoutRelated.written hinet fields) 8,
      constant_kept fields.2.2.1 (v := 0) (by decide) hreserved⟩

end SonicPins.Packetlib
