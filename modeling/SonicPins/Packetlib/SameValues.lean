import SonicPins.Packetlib.ValidHeaders

/-! Packets with numerically equal fields are written alike and have the same sizes and checksums. -/
namespace SonicPins.Packetlib
open Lib Pdpi

variable {header header' : Header} {text text' options : String} {packet packet' : Packet}

section Headers
variable [InetText]

theorem SameField.serialize {format : FieldFormat} (h : SameField format text text') :
    serializeField format text' = serializeField format text := by
  obtain ⟨bits,hbits,hbits'⟩ := h
  rw [hbits,hbits']

theorem SameField.refl {format : FieldFormat} (h : FieldWritten format text) : SameField format text text := by
  obtain ⟨bits,hbits⟩ := h
  exact ⟨bits,hbits,hbits⟩

omit [InetText] in
theorem SameOptions.serialize {options' : String} (h : SameOptions options options') :
    serializeOptions options' = serializeOptions options := by
  obtain ⟨bits,hbits,hbits'⟩ := h
  rw [hbits,hbits']

omit [InetText] in
theorem optionsSize_of_serialized {bits : BitString} (h : serializeOptions options = .ok bits)
    (headerName : String) : optionsSize headerName options = .ok bits.length := by
  unfold serializeOptions at h
  unfold optionsSize
  split at h
  · rename_i hempty
    cases h
    rw [if_pos hempty]
    rfl
  · rename_i hempty
    obtain ⟨bytes,hbytes,rfl⟩ := map_eq_ok.mp h
    rw [if_neg hempty,hbytes,length_bytesToBits]
    rfl

omit [InetText] in
theorem SameOptions.size {options' : String} (h : SameOptions options options') (headerName : String) :
    optionsSize headerName options' = optionsSize headerName options := by
  obtain ⟨bits,hbits,hbits'⟩ := h
  rw [optionsSize_of_serialized hbits,optionsSize_of_serialized hbits']

theorem FieldsRelated.serialize {fields : List FieldSpec} {texts texts' : List String}
    (h : FieldsRelated SameField fields texts texts') : serializeFields fields texts' = serializeFields fields texts := by
  induction fields generalizing texts texts' with
  | nil =>
    match texts,texts',h with
    | [],[],_ => rfl
  | cons field fields ih =>
    match texts,texts',h with
    | text :: texts,text' :: texts',h => rw [serializeFields,serializeFields,h.1.serialize,ih h.2]

theorem LayoutRelated.serialize {H : Type} {layout : HeaderLayout H} {header header' : H}
    (h : LayoutRelated SameField layout header header') : serializeLayout layout header' = serializeLayout layout header :=
  FieldsRelated.serialize h

theorem SameField.bit (h : SameField (.bits 1) text text') : text' = text := by
  obtain ⟨bits,hbits,hbits'⟩ := h
  obtain ⟨v,hv,rfl⟩ := map_eq_ok.mp hbits
  obtain ⟨w,hw,heq⟩ := map_eq_ok.mp hbits'
  rw [bit_text hv,bit_text hw,heq]

theorem SameField.hexString (h : OptionalRelated SameField (.bits 16) text text') :
    serializeHexString text' = serializeHexString text := by
  rcases h with ⟨rfl,rfl⟩ | ⟨bits,hbits,hbits'⟩
  · rfl
  · obtain ⟨v,hv,rfl⟩ := map_eq_ok.mp hbits
    obtain ⟨w,hw,heq⟩ := map_eq_ok.mp hbits'
    rw [serializeHexString_of_bitset (by decide) hv,serializeHexString_of_bitset (by decide) hw,heq]

private theorem serializeGreHeader_same {header header' : GreHeader} (hfields : LayoutRelated SameField GreHeader.layout header header')
    (hchecksum : OptionalRelated SameField (.bits 16) header.checksum header'.checksum)
    (hreserved1 : OptionalRelated SameField (.bits 16) header.reserved1 header'.reserved1) :
    serializeGreHeader header' = serializeGreHeader header := by
  have hpresent : SameField (.bits 1) header.checksumPresent header'.checksumPresent := hfields.1
  unfold serializeGreHeader
  rw [LayoutRelated.serialize hfields,hpresent.bit,SameField.hexString hchecksum,SameField.hexString hreserved1]

theorem SameValues.serialize (h : SameValues header header') : serializeHeader header' = serializeHeader header := by
  cases h with
  | ipv4Header fields uninterpreted =>
    rw [serializeHeader,serializeHeader,serializeIpv4Header,serializeIpv4Header,LayoutRelated.serialize fields,
      uninterpreted.serialize]
  | tcpHeader fields uninterpreted =>
    rw [serializeHeader,serializeHeader,serializeTcpHeader,serializeTcpHeader,LayoutRelated.serialize fields,
      uninterpreted.serialize]
  | greHeader fields checksum reserved1 => exact serializeGreHeader_same fields checksum reserved1
  | ethernetHeader fields => exact LayoutRelated.serialize fields
  | ipv6Header fields => exact LayoutRelated.serialize fields
  | hopByHopOptionsHeader fields => exact LayoutRelated.serialize fields
  | udpHeader fields => exact LayoutRelated.serialize fields
  | arpHeader fields => exact LayoutRelated.serialize fields
  | icmpHeader fields => exact LayoutRelated.serialize fields
  | vlanHeader fields => exact LayoutRelated.serialize fields
  | csigHeader fields => exact LayoutRelated.serialize fields
  | saiP4Bmv2PacketInHeader fields => exact LayoutRelated.serialize fields
  | ipfixHeader fields => exact LayoutRelated.serialize fields
  | psampHeader fields => exact LayoutRelated.serialize fields
  | ptpHeader fields => exact LayoutRelated.serialize fields
  | pspHeader fields => exact LayoutRelated.serialize fields

theorem SameValues.size (h : SameValues header header') : headerSizeInBits header' = headerSizeInBits header := by
  cases h with
  | ipv4Header fields uninterpreted => exact congrArg (Except.map _) (uninterpreted.size _)
  | tcpHeader fields uninterpreted => exact congrArg (Except.map _) (uninterpreted.size _)
  | @greHeader h h' fields checksum reserved1 =>
    have hpresent : SameField (.bits 1) h.checksumPresent h'.checksumPresent := fields.1
    rw [headerSizeInBits,headerSizeInBits,hpresent.bit]
  | _ => rfl

end Headers

section Packets
variable [InetText]

/-- Packets with numerically equal headers and the same payload. -/
structure SamePackets (packet packet' : Packet) : Prop where
  headers : List.Forall₂ SameValues packet.headers packet'.headers
  payload : packet'.payload = packet.payload

theorem SamePackets.length (h : SamePackets packet packet') : packet'.headers.length = packet.headers.length := h.headers.length_eq.symm

private theorem serializeHeaders_same {headers headers' : List Header} (h : List.Forall₂ SameValues headers headers') (i : Nat) :
    serializeHeaders i headers' = serializeHeaders i headers := by
  induction h generalizing i with
  | nil => rfl
  | cons hfirst hrest ih => rw [serializeHeaders,serializeHeaders,hfirst.serialize,ih]

theorem sizes_same {headers headers' : List Header} (h : List.Forall₂ SameValues headers headers') :
    headers'.mapM headerSizeInBits = headers.mapM headerSizeInBits := by
  induction h with
  | nil => rfl
  | cons hfirst hrest ih => rw [List.mapM_cons,List.mapM_cons,hfirst.size,ih]

theorem SamePackets.rawSerializeFrom (h : SamePackets packet packet') (i : Int) :
    rawSerializeFrom packet' i = Packetlib.rawSerializeFrom packet i := by
  unfold Packetlib.rawSerializeFrom invalidHeaderIndex
  rw [h.length,h.payload,serializeHeaders_same (List.forall₂_drop _ h.headers)]

theorem SamePackets.bitsFrom (h : SamePackets packet packet') (i : Nat) :
    bitsFrom (packet'.headers.drop i) packet'.payload = Packetlib.bitsFrom (packet.headers.drop i) packet.payload := by
  unfold Packetlib.bitsFrom
  rw [sizes_same (List.forall₂_drop _ h.headers),h.payload]

theorem SamePackets.packetSizeInBits (h : SamePackets packet packet') (i : Int) :
    packetSizeInBits packet' i = Packetlib.packetSizeInBits packet i := by
  unfold Packetlib.packetSizeInBits invalidHeaderIndex
  rw [h.length,h.bitsFrom]

theorem SamePackets.packetSizeInBytes (h : SamePackets packet packet') (i : Int) :
    packetSizeInBytes packet' i = Packetlib.packetSizeInBytes packet i := by
  unfold Packetlib.packetSizeInBytes
  rw [h.packetSizeInBits]

omit [InetText] in
private theorem forall₂_set {α β : Type} {R : α → β → Prop} {l : List α} {l' : List β} (h : List.Forall₂ R l l') {a : α} {b : β}
    (hab : R a b) (n : Nat) : List.Forall₂ R (l.set n a) (l'.set n b) := by
  induction h generalizing n with
  | nil => exact .nil
  | cons hfirst hrest ih =>
    cases n with
    | zero => exact .cons hab hrest
    | succ n => exact .cons hfirst (ih n)

theorem SamePackets.setHeader (h : SamePackets packet packet')
    (hheader : SameValues header header') (i : Int) : SamePackets (setHeader packet i header) (setHeader packet' i header') :=
  ⟨forall₂_set h.headers hheader _,h.payload⟩

omit [InetText] in
theorem forall₂_getElem? {α β : Type} {R : α → β → Prop} {l : List α} {l' : List β} (h : List.Forall₂ R l l') (n : Nat) :
    (∃ a b,l[n]? = some a ∧ l'[n]? = some b ∧ R a b) ∨ l[n]? = none ∧ l'[n]? = none := by
  induction h generalizing n with
  | nil => exact .inr ⟨rfl,rfl⟩
  | cons hfirst hrest ih =>
    cases n with
    | zero => exact .inl ⟨_,_,rfl,rfl,hfirst⟩
    | succ n => exact ih n

theorem SamePackets.headerAt (h : SamePackets packet packet') (i : Int) :
    (∃ header header',headerAt packet i = .ok header ∧ Packetlib.headerAt packet' i = .ok header' ∧ SameValues header header') ∨
      ∃ failure,Packetlib.headerAt packet i = .error failure ∧ Packetlib.headerAt packet' i = .error failure := by
  unfold Packetlib.headerAt
  split
  · exact .inr ⟨_,rfl,rfl⟩
  · rcases forall₂_getElem? h.headers i.toNat with ⟨header,header',hheader,hheader',hsame⟩ | ⟨hnone,hnone'⟩
    · rw [hheader,hheader']
      exact .inl ⟨header,header',rfl,rfl,hsame⟩
    · rw [hnone,hnone']
      exact .inr ⟨_,rfl,rfl⟩

theorem SamePackets.findPrecedingIpHeader (h : SamePackets packet packet') (i : Int) :
    findPrecedingIpHeader packet' i = Packetlib.findPrecedingIpHeader packet i := by
  unfold Packetlib.findPrecedingIpHeader
  dsimp only
  split
  · rcases h.headerAt (i - 1) with ⟨header,header',hheader,hheader',hsame⟩ | ⟨failure,hfailure,hfailure'⟩
    · simp only [hheader,hheader',bind,Except.bind,HeaderRelated.headerCase hsame]
    · simp only [hfailure,hfailure',bind,Except.bind]
  · rfl

end Packets

variable [InetText]

theorem zeroChecksum_written : FieldWritten (.bits 16) "0x0000" := @fieldWritten_of_bitset _ 16 0 _ (by decide)

theorem SameValues.ipv4Checksum {header header' : Ipv4Header} (h : SameValues (.ipv4Header header) (.ipv4Header header')) :
    ipv4HeaderChecksum header' = ipv4HeaderChecksum header := by
  cases h with
  | ipv4Header fields uninterpreted =>
    obtain ⟨h0,h1,h2,h3,h4,h5,h6,h7,h8,h9,-,h11⟩ := fields
    have hwithout : SameValues (.ipv4Header { header with checksum := "0x0000" })
        (.ipv4Header { header' with checksum := "0x0000" }) :=
      .ipv4Header ⟨h0,h1,h2,h3,h4,h5,h6,h7,h8,h9,.refl zeroChecksum_written,h11⟩ uninterpreted
    exact congrArg (· >>= onesComplementChecksum) hwithout.serialize

theorem SamePackets.udpChecksumAfter (h : SamePackets packet packet') {udp udp' : UdpHeader}
    (hudp : SameValues (.udpHeader udp) (.udpHeader udp')) {preceding preceding' : Header}
    (hpreceding : SameValues preceding preceding') (i : Int) :
    udpChecksumAfter packet' i udp' preceding' = Packetlib.udpChecksumAfter packet i udp preceding := by
  cases hudp with
  | udpHeader fields =>
    obtain ⟨h0,h1,hlength,-,h4⟩ := fields
    have hwithout : SameValues (.udpHeader { udp with checksum := "0x0000" }) (.udpHeader { udp' with checksum := "0x0000" }) :=
      .udpHeader ⟨h0,h1,hlength,.refl zeroChecksum_written,h4⟩
    have hbits := (h.setHeader hwithout i).rawSerializeFrom i
    cases hpreceding with
    | ipv4Header ip _ =>
      obtain ⟨-,-,-,-,-,-,-,-,-,hprotocol,-,hsource,hdestination,-⟩ := ip
      unfold Packetlib.udpChecksumAfter
      dsimp only
      rw [hbits,hlength.serialize,hprotocol.serialize,hsource.serialize,hdestination.serialize]
    | ipv6Header ip =>
      obtain ⟨-,-,-,-,-,-,-,hsource,hdestination,-⟩ := ip
      unfold Packetlib.udpChecksumAfter
      dsimp only
      rw [hbits,hlength.serialize,hsource.serialize,hdestination.serialize]
    | _ => rfl

theorem SamePackets.udpHeaderChecksum (h : SamePackets packet packet') (i : Int) :
    udpHeaderChecksum packet' i = Packetlib.udpHeaderChecksum packet i := by
  unfold Packetlib.udpHeaderChecksum
  rw [h.length,h.findPrecedingIpHeader]
  split
  · rfl
  split
  · rfl
  cases Packetlib.findPrecedingIpHeader packet i with
  | error failure => rfl
  | ok j =>
    simp only [bind,Except.bind]
    rcases h.headerAt j with ⟨preceding,preceding',hpreceding,hpreceding',hsame⟩ | ⟨failure,hfailure,hfailure'⟩
    · rw [hpreceding,hpreceding']
      dsimp only
      rcases h.headerAt i with ⟨header,header',hheader,hheader',hrelated⟩ | ⟨failure,hfailure,hfailure'⟩
      · rw [hheader,hheader']
        dsimp only
        cases hrelated with
        | udpHeader fields => exact congrArg orFail (h.udpChecksumAfter (.udpHeader fields) hsame i)
        | _ => rfl
      · rw [hfailure,hfailure']
    · rw [hfailure,hfailure']

theorem SamePackets.icmpChecksumAfter (h : SamePackets packet packet') {preceding preceding' : Header}
    (hpreceding : SameValues preceding preceding') (i : Int) :
    icmpChecksumAfter packet' i preceding' = Packetlib.icmpChecksumAfter packet i preceding := by
  have hbits := h.rawSerializeFrom i
  cases hpreceding with
  | ipv6Header ip =>
    obtain ⟨-,-,-,-,-,-,-,hsource,hdestination,-⟩ := ip
    unfold Packetlib.icmpChecksumAfter
    dsimp only
    rw [hbits,hsource.serialize,hdestination.serialize,h.packetSizeInBytes]
  | ipv4Header _ _ =>
    unfold Packetlib.icmpChecksumAfter
    dsimp only
    rw [hbits]
  | _ => rfl

theorem SamePackets.icmpHeaderChecksum (h : SamePackets packet packet') (i : Int) :
    icmpHeaderChecksum packet' i = Packetlib.icmpHeaderChecksum packet i := by
  unfold Packetlib.icmpHeaderChecksum
  rw [h.length]
  split
  · rfl
  simp only [bind,Except.bind]
  rcases h.headerAt i with ⟨header,header',hheader,hheader',hrelated⟩ | ⟨failure,hfailure,hfailure'⟩
  · rw [hheader,hheader']
    dsimp only
    cases hrelated with
    | @icmpHeader icmp icmp' fields =>
      obtain ⟨h0,h1,-,h3⟩ := fields
      have hwithout : SameValues (.icmpHeader { icmp with checksum := "0x0000" }) (.icmpHeader { icmp' with checksum := "0x0000" }) :=
        .icmpHeader ⟨h0,h1,.refl zeroChecksum_written,h3⟩
      have hset := h.setHeader hwithout i
      dsimp only
      rw [hset.findPrecedingIpHeader]
      cases Packetlib.findPrecedingIpHeader (Packetlib.setHeader packet i (.icmpHeader { icmp with checksum := "0x0000" })) i with
      | error failure => rfl
      | ok j =>
        dsimp only
        rcases hset.headerAt j with ⟨preceding,preceding',hpreceding,hpreceding',hsame⟩ | ⟨failure,hfailure,hfailure'⟩
        · rw [hpreceding,hpreceding']
          exact congrArg orFail (hset.icmpChecksumAfter hsame i)
        · rw [hfailure,hfailure']
    | _ => rfl
  · rw [hfailure,hfailure']

theorem SamePackets.greHeaderChecksum (h : SamePackets packet packet') (i : Int) :
    greHeaderChecksum packet' i = Packetlib.greHeaderChecksum packet i := by
  unfold Packetlib.greHeaderChecksum
  rw [h.length]
  split
  · rfl
  simp only [bind,Except.bind]
  rcases h.headerAt i with ⟨header,header',hheader,hheader',hrelated⟩ | ⟨failure,hfailure,hfailure'⟩
  · rw [hheader,hheader']
    dsimp only
    cases hrelated with
    | @greHeader gre gre' fields checksum reserved1 =>
      have hwithout : SameValues (.greHeader { gre with checksum := "0x0000" }) (.greHeader { gre' with checksum := "0x0000" }) :=
        .greHeader fields (.inr (.refl zeroChecksum_written)) reserved1
      dsimp only
      rw [(h.setHeader hwithout i).rawSerializeFrom i]
    | _ => rfl
  · rw [hfailure,hfailure']

end SonicPins.Packetlib
