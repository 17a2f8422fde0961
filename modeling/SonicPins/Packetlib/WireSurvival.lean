import Mathlib.Algebra.Order.BigOperators.Group.List
import Mathlib.Algebra.Order.Group.Nat
import SonicPins.Packetlib.ValidityKept

/-! Valid packets on the wire: which of them come back as they were. -/
namespace SonicPins.Packetlib
open Lib Pdpi

variable {options text text' : String} {bits rest : BitString} {i : Nat} {header' header : Header}
  {expected : HeaderCase} {payload : Bytes} {packet : Packet} {headers : List Header}

/-- The number of bytes from a header on. -/
def bytesFrom (packet : Packet) (i : Nat) : StatusOr Nat :=
  (bitsFrom (packet.headers.drop i) packet.payload).map (· / 8)

def headerWords (options : String) : StatusOr Nat := (optionsSize "" options).map fun bits => 5 + bits / 32

/-- The fields of a header that hold a length: their width, their text and the true length. -/
def lengthFields (packet : Packet) (i : Nat) : Header → List (Nat × String × StatusOr Nat)
  | .ipv4Header h => [(4,h.ihl,headerWords h.uninterpretedOptions),(16,h.totalLength,bytesFrom packet i)]
  | .ipv6Header h => [(16,h.payloadLength,bytesFrom packet (i + 1))]
  | .udpHeader h => [(16,h.length,bytesFrom packet i)]
  | .tcpHeader h => [(4,h.dataOffset,headerWords h.uninterpretedOptions)]
  | .ipfixHeader h => [(16,h.length,bytesFrom packet i)]
  | .psampHeader h => [(16,h.length,bytesFrom packet i),(16,h.packetSampledLength,bytesFrom packet (i + 1))]
  | .ptpHeader h => [(16,h.messageLength,bytesFrom packet i)]
  | _ => []

def TrueLengths (packet : Packet) : Prop :=
  ∀ (i : Nat) header,packet.headers[i]? = some header → ∀ field ∈ lengthFields packet i header,
    ∃ length,field.2.2 = .ok length ∧ hexStringToBitset field.1 field.2.1 = .ok length

/-- Every true length fits the field that should hold it. -/
def LengthsFit (packet : Packet) : Prop :=
  ∀ (i : Nat) header,packet.headers[i]? = some header → ∀ field ∈ lengthFields packet i header,
    ∀ length,field.2.2 = .ok length → length < 2 ^ field.1

theorem TrueLengths.fit (h : TrueLengths packet) : LengthsFit packet := by
  intro i header hheader field hfield length hlength
  obtain ⟨length',hlength',htext⟩ := h i header hheader field hfield
  cases hlength.symm.trans hlength'
  obtain ⟨-,-,-,-,hlt⟩ := hexStringToBitset_eq_ok.mp htext
  exact hlt

/-- The next header is named in upper case, which validation takes for an unsupported one
and parsing for one that follows. -/
def HidesNextHeader : Header → Prop
  | .ipv4Header h => h.protocol = "0x2F"
  | .ipv6Header h => h.nextHeader = "0x2F" ∨ h.nextHeader = "0x3A"
  | .hopByHopOptionsHeader h => h.headerExtensionLength = "0x00" ∧ (h.nextHeader = "0x2F" ∨ h.nextHeader = "0x3A")
  | _ => False

/-- The fields that validation does not look at can be written. -/
def UncheckedWritten : Header → Prop
  | .greHeader h => ∃ v,hexStringToBitset 16 h.protocolType = .ok v
  | .pspHeader h => ∃ v,hexStringToBitset 1 h.reserved1 = .ok v
  | _ => True

/-- The size of the packet and its lengths fit their types, and validation saw what parsing
will see. -/
structure FitForWire (packet : Packet) : Prop where
  small : ∀ bits,bitsFrom packet.headers packet.payload = .ok bits → bits < 2 ^ 31
  lengths : LengthsFit packet
  visible : ∀ header ∈ packet.headers,¬ HidesNextHeader header
  written : ∀ header ∈ packet.headers,UncheckedWritten header

section Writing

theorem serializeOptions_of_whole (h : OptionsWhole options) : ∃ bits,serializeOptions options = .ok bits := by
  unfold serializeOptions serializeHexString
  rcases h with rfl | ⟨bytes,hbytes,-⟩
  · exact ⟨[],rfl⟩
  · rw [hbytes]
    split
    · exact ⟨_,rfl⟩
    · exact ⟨_,rfl⟩

theorem OptionsShort.whole (h : OptionsShort options) : OptionsWhole options :=
  h.imp_right fun ⟨bytes,hbytes,hwhole,_⟩ => ⟨bytes,hbytes,hwhole⟩

variable [InetText]

theorem GreFieldsFit.announced {i : Int} {header : GreHeader} (h : GreFieldsFit packet i header) :
    GreFieldsAnnounced header := by
  unfold GreFieldsFit at h
  unfold GreFieldsAnnounced
  split at h
  · rename_i hone
    obtain ⟨-,⟨checksum,-,htext⟩,hzero⟩ := h
    rw [if_pos hone,htext,hzero]
    exact ⟨⟨_,hexStringToBitset_bitsetToHexString 16 _⟩,0,by decide⟩
  · rename_i hone
    rw [if_neg hone]
    exact h

private theorem serializeGre_of_announced {header : GreHeader} (hfixed : serializeLayout GreHeader.layout header = .ok bits)
    (h : GreFieldsAnnounced header) : ∃ written,serializeGreHeader header = .ok written := by
  unfold serializeGreHeader
  unfold GreFieldsAnnounced at h
  rw [hfixed]
  simp only [bind,Except.bind]
  split at h
  · rename_i hone
    obtain ⟨⟨c,hc⟩,r,hr⟩ := h
    rw [if_pos hone,serializeHexString_of_bitset (by decide) hc,serializeHexString_of_bitset (by decide) hr]
    exact ⟨_,rfl⟩
  · rename_i hone
    rw [if_neg hone]
    exact ⟨_,rfl⟩

theorem HeaderValid.serialize {i : Int} (h : HeaderValid packet i header)
    (hunchecked : UncheckedWritten header) : ∃ bits,serializeHeader header = .ok bits := by
  cases header with
  | headerNotSet => exact h.elim
  | ipv4Header header =>
    obtain ⟨hfields,hwhole,-⟩ := h
    obtain ⟨bits,hbits⟩ := layoutWritten_iff.mp hfields
    obtain ⟨options,hoptions⟩ := serializeOptions_of_whole hwhole
    exact ⟨bits ++ options,bind_eq_ok.mpr ⟨bits,hbits,bind_eq_ok.mpr ⟨options,hoptions,rfl⟩⟩⟩
  | tcpHeader header =>
    obtain ⟨hfields,hshort,-⟩ := h
    obtain ⟨bits,hbits⟩ := layoutWritten_iff.mp hfields
    obtain ⟨options,hoptions⟩ := serializeOptions_of_whole hshort.whole
    exact ⟨bits ++ options,bind_eq_ok.mpr ⟨bits,hbits,bind_eq_ok.mpr ⟨options,hoptions,rfl⟩⟩⟩
  | greHeader header =>
    obtain ⟨hpresent,hreserved0,hversion,hfit⟩ := h
    obtain ⟨v,hv⟩ := hunchecked
    have hzero12 : FieldWritten (.bits 12) header.reserved0 := hreserved0 ▸ @fieldWritten_of_bitset _ 12 0 _ (by decide)
    have hzero3 : FieldWritten (.bits 3) header.version := hversion ▸ @fieldWritten_of_bitset _ 3 0 _ (by decide)
    have hfields : LayoutWritten GreHeader.layout header :=
      .cons hpresent (.cons hzero12 (.cons hzero3 (.cons (fieldWritten_of_bitset hv) .nil)))
    obtain ⟨bits,hbits⟩ := layoutWritten_iff.mp hfields
    exact serializeGre_of_announced hbits hfit.announced
  | pspHeader header =>
    obtain ⟨v,hv⟩ := hunchecked
    obtain ⟨hfields,-⟩ := h
    match hfields with
    | .cons h0 (.cons h1 (.cons h2 (.cons h3 (.cons h4 (.cons h5 (.cons h6 (.cons h7 (.cons h9 (.cons h10 .nil))))))))) =>
      exact layoutWritten_iff.mp (.cons h0 (.cons h1 (.cons h2 (.cons h3 (.cons h4 (.cons h5 (.cons h6 (.cons h7
        (.cons (fieldWritten_of_bitset hv) (.cons h9 (.cons h10 .nil)))))))))))
  | vlanHeader header => exact layoutWritten_iff.mp h
  | csigHeader header => exact layoutWritten_iff.mp h
  | _ => exact layoutWritten_iff.mp h.1

omit [InetText] in
theorem optionsAnnounced_of_fit {headerLength : String} (hoptions : serializeOptions options = .ok bits)
    (hlt : bits.length < 2 ^ 31) (hwhole : OptionsWhole options) (htext : headerLength = expectedHeaderLength options)
    (hfit : 5 + bits.length / 32 < 2 ^ 4) : OptionsAnnounced options headerLength := by
  have hint : int32 bits.length = bits.length := int32_of_lt hlt
  rw [optionsWhole_iff hoptions,hint] at hwhole
  refine ⟨bits.length / 32,bits,hoptions,by omega,?_⟩
  have hwords : (5 + (bits.length : Int).tdiv 32) % 2 ^ 4 = (5 + bits.length / 32 : Nat) := by
    rw [Int.tdiv_eq_ediv_of_nonneg (by omega)]
    omega
  rw [htext,expectedHeaderLength_eq hoptions,hint,hexStringToBitset_bitsetToHexString,hwords,Int.toNat_natCast]

theorem HeaderValid.announced (h : HeaderValid packet i header)
    (hsmall : ∀ n,headerSizeInBits header = .ok n → n < 2 ^ 31) (hfit : ∀ field ∈ lengthFields packet i header,
      ∀ length,field.2.2 = .ok length → length < 2 ^ field.1) : Announced header := by
  cases header with
  | ipv4Header header =>
    obtain ⟨-,hwhole,hihl,-⟩ := h
    obtain ⟨bits,hbits⟩ := serializeOptions_of_whole hwhole
    have hsize := hsmall (160 + bits.length) (by rw [headerSizeInBits,optionsSize_of_serialized hbits]; rfl)
    refine optionsAnnounced_of_fit hbits (by omega) hwhole hihl
      (hfit (4,header.ihl,headerWords header.uninterpretedOptions) List.mem_cons_self _ ?_)
    rw [headerWords,optionsSize_of_serialized hbits]
    rfl
  | tcpHeader header =>
    obtain ⟨-,hshort,hoffset⟩ := h
    obtain ⟨bits,hbits⟩ := serializeOptions_of_whole hshort.whole
    have hsize := hsmall (160 + bits.length) (by rw [headerSizeInBits,optionsSize_of_serialized hbits]; rfl)
    refine optionsAnnounced_of_fit hbits (by omega) hshort.whole hoffset
      (hfit (4,header.dataOffset,headerWords header.uninterpretedOptions) List.mem_cons_self _ ?_)
    rw [headerWords,optionsSize_of_serialized hbits]
    rfl
  | greHeader header => exact h.2.2.2.announced
  | _ => trivial

end Writing

section NextHeaders
variable [InetText]

theorem letterText_iff (h : ReprintedField (.bits 8) text text') (lower upper : String) (v : Nat)
    (hlower : lower = BitString.toHexString (natToBits 8 v)) (hv : v < 2 ^ 8) (hhigh : v / 16 < 10)
    (hupper : upper = String.ofList ['0','x',Nat.digitChar (v / 16),(Nat.digitChar (v % 16)).toUpper])
    (hvalue : hexStringToBitset 8 upper = .ok v) : text' = lower ↔ text = lower ∨ text = upper := by
  obtain ⟨bits,hbits,-⟩ := id h
  obtain ⟨w,hw,-⟩ := map_eq_ok.mp hbits
  obtain ⟨-,-,-,-,hlt⟩ := hexStringToBitset_eq_ok.mp hw
  have hlowerValue : hexStringToBitset 8 lower = .ok v := by
    rw [hlower,hexStringToBitset_toHexString (length_natToBits _ _),bitsToNat_natToBits hv]
  rw [h.canonical hw,hlower,toHexString_natToBits hlt hv]
  constructor
  · rintro rfl
    rw [hupper]
    exact letter_byte hw hhigh
  · rintro (rfl | rfl)
    · rw [← hlower] at hw
      exact Except.ok.inj (hw.symm.trans hlowerValue)
    · exact Except.ok.inj (hw.symm.trans hvalue)

theorem decimalText_iff (h : ReprintedField (.bits 8) text text') (expected : String) (v : Nat)
    (hexpected : expected = BitString.toHexString (natToBits 8 v)) (hv : v < 2 ^ 8) (hhigh : v / 16 < 10) (hlow : v % 16 < 10) :
    text' = expected ↔ text = expected := by
  obtain ⟨bits,hbits,-⟩ := id h
  obtain ⟨w,hw,-⟩ := map_eq_ok.mp hbits
  obtain ⟨-,-,-,-,hlt⟩ := hexStringToBitset_eq_ok.mp hw
  rw [h.canonical hw,hexpected,toHexString_natToBits hlt hv]
  constructor
  · rintro rfl
    exact decimal_byte hw hhigh hlow
  · rintro rfl
    rw [hexStringToBitset_toHexString (length_natToBits _ _),bitsToNat_natToBits hv] at hw
    exact (Except.ok.inj hw).symm

def NextHeader.case : NextHeader → HeaderCase
  | .supported next => next
  | .unsupported _ => .headerNotSet

omit [InetText] in
theorem expectedAfter_of_ok {next : NextHeader} (h : getNextHeader header = .ok next) :
    expectedAfter header = next.case := by
  rw [expectedAfter,h]
  cases next <;> rfl

omit [InetText] in
theorem expectedAfter_ipv4 (header : Ipv4Header) : expectedAfter (.ipv4Header header) =
    if header.protocol = "0x04" then .ipv4Header else if header.protocol = "0x06" then .tcpHeader
    else if header.protocol = "0x11" then .udpHeader else if header.protocol = "0x01" then .icmpHeader
    else if header.protocol = "0x29" then .ipv6Header else if header.protocol = "0x2f" then .greHeader else .headerNotSet := by
  rw [expectedAfter_of_ok rfl,Ipv4Header.getNextHeader]
  split_ifs <;> rfl

/-- The header that IPv6 and its options demand. -/
def caseOfIpv6 (nextHeader : String) : HeaderCase :=
  if nextHeader = "0x04" then .ipv4Header else if nextHeader = "0x06" then .tcpHeader else if nextHeader = "0x11" then .udpHeader
  else if nextHeader = "0x3a" then .icmpHeader else if nextHeader = "0x29" then .ipv6Header
  else if nextHeader = "0x2f" then .greHeader else .headerNotSet

omit [InetText] in
theorem nextHeaderOfIpv6_case (fieldName nextHeader : String) :
    (nextHeaderOfIpv6 fieldName nextHeader).case = caseOfIpv6 nextHeader := by
  unfold nextHeaderOfIpv6 caseOfIpv6
  split_ifs <;> rfl

omit [InetText] in
theorem expectedAfter_ipv6 (header : Ipv6Header) : expectedAfter (.ipv6Header header) =
    if header.nextHeader = "0x00" then .hopByHopOptionsHeader else caseOfIpv6 header.nextHeader := by
  rw [expectedAfter_of_ok rfl,Ipv6Header.getNextHeader]
  split
  · rfl
  · exact nextHeaderOfIpv6_case _ _

omit [InetText] in
theorem expectedAfter_hopByHop (header : HopByHopOptionsHeader) : expectedAfter (.hopByHopOptionsHeader header) =
    if header.headerExtensionLength ≠ "0x00" then .headerNotSet else caseOfIpv6 header.nextHeader := by
  rw [expectedAfter_of_ok rfl,HopByHopOptionsHeader.getNextHeader]
  split
  · rfl
  · exact nextHeaderOfIpv6_case _ _

theorem caseOfIpv6_kept {nextHeader nextHeader' : String} (h : ReprintedField (.bits 8) nextHeader nextHeader')
    (hvisible : ¬ (nextHeader = "0x2F" ∨ nextHeader = "0x3A")) : caseOfIpv6 nextHeader' = caseOfIpv6 nextHeader := by
  obtain ⟨hgre,hicmp⟩ := not_or.mp hvisible
  unfold caseOfIpv6
  simp only [decimalText_iff h "0x04" 0x04 (by decide) (by decide) (by decide) (by decide),
    decimalText_iff h "0x06" 0x06 (by decide) (by decide) (by decide) (by decide),
    decimalText_iff h "0x11" 0x11 (by decide) (by decide) (by decide) (by decide),
    decimalText_iff h "0x29" 0x29 (by decide) (by decide) (by decide) (by decide),
    letterText_iff h "0x3a" "0x3A" 0x3a (by decide) (by decide) (by decide) (by decide) (by decide),
    letterText_iff h "0x2f" "0x2F" 0x2f (by decide) (by decide) (by decide) (by decide) (by decide),
    hgre,hicmp,or_false]

private theorem ipv4_kept {header header' : Ipv4Header} (h : ReprintedField (.bits 8) header.protocol header'.protocol)
    (hvisible : header.protocol ≠ "0x2F") : expectedAfter (.ipv4Header header') = expectedAfter (.ipv4Header header) := by
  rw [expectedAfter_ipv4,expectedAfter_ipv4]
  simp only [decimalText_iff h "0x04" 0x04 (by decide) (by decide) (by decide) (by decide),
    decimalText_iff h "0x06" 0x06 (by decide) (by decide) (by decide) (by decide),
    decimalText_iff h "0x11" 0x11 (by decide) (by decide) (by decide) (by decide),
    decimalText_iff h "0x01" 0x01 (by decide) (by decide) (by decide) (by decide),
    decimalText_iff h "0x29" 0x29 (by decide) (by decide) (by decide) (by decide),
    letterText_iff h "0x2f" "0x2F" 0x2f (by decide) (by decide) (by decide) (by decide) (by decide),
    hvisible,or_false]

omit [InetText] in
theorem etherType_kept {headerName ethertype ethertype' : String} (h : hexStringToInt ethertype' = hexStringToInt ethertype) :
    (getNextHeaderForEtherType headerName ethertype').map NextHeader.case =
      (getNextHeaderForEtherType headerName ethertype).map NextHeader.case := by
  unfold getNextHeaderForEtherType
  rw [h]
  cases hexStringToInt ethertype with
  | error s => rfl
  | ok v =>
    simp only [Except.mapError,bind,Except.bind]
    split_ifs <;> rfl

omit [InetText] in
theorem expectedAfter_of_map
    (h : (getNextHeader header').map NextHeader.case = (getNextHeader header).map NextHeader.case) :
    expectedAfter header' = expectedAfter header := by
  unfold expectedAfter
  cases hnext : getNextHeader header with
  | error s =>
    rw [hnext] at h
    cases hnext' : getNextHeader header' with
    | error s' => rfl
    | ok next' =>
      rw [hnext'] at h
      cases h
  | ok next =>
    rw [hnext] at h
    cases hnext' : getNextHeader header' with
    | error s' =>
      rw [hnext'] at h
      cases h
    | ok next' =>
      rw [hnext'] at h
      have hcase := Except.ok.inj h
      cases next <;> cases next' <;> exact hcase

theorem Reprinted.expectedAfter (h : Reprinted header header') (hvisible : ¬ HidesNextHeader header) :
    expectedAfter header' = Packetlib.expectedAfter header := by
  cases h with
  | ethernetHeader fields => exact expectedAfter_of_map (etherType_kept (ReprintedField.toInt (by decide) fields.2.2.1))
  | vlanHeader fields => exact expectedAfter_of_map (etherType_kept (ReprintedField.toInt (by decide) fields.2.2.2.1))
  | csigHeader fields => exact expectedAfter_of_map (etherType_kept (ReprintedField.toInt (by decide) fields.2.2.2.2.1))
  | greHeader fields _ _ => exact expectedAfter_of_map (etherType_kept (ReprintedField.toInt (by decide) fields.2.2.2.1))
  | ipv4Header fields _ => exact ipv4_kept fields.2.2.2.2.2.2.2.2.2.1 hvisible
  | ipv6Header fields =>
    rw [expectedAfter_ipv6,expectedAfter_ipv6,caseOfIpv6_kept fields.2.2.2.2.2.1 hvisible]
    simp only [decimalText_iff fields.2.2.2.2.2.1 "0x00" 0 (by decide) (by decide) (by decide) (by decide)]
  | @hopByHopOptionsHeader hop hop' fields =>
    rw [expectedAfter_hopByHop,expectedAfter_hopByHop]
    simp only [ne_eq,decimalText_iff fields.2.1 "0x00" 0 (by decide) (by decide) (by decide) (by decide)]
    by_cases hlength : hop.headerExtensionLength = "0x00"
    · rw [if_neg (not_not_intro hlength),if_neg (not_not_intro hlength),
        caseOfIpv6_kept fields.1 fun h => hvisible ⟨hlength,h⟩]
    · rw [if_pos hlength,if_pos hlength]
  | udpHeader fields =>
    refine expectedAfter_of_map ?_
    rw [getNextHeader,getNextHeader,UdpHeader.getNextHeader,UdpHeader.getNextHeader,
      ReprintedField.toInt (by decide) fields.2.1]
  | pspHeader fields =>
    refine expectedAfter_of_map ?_
    rw [getNextHeader,getNextHeader,PspHeader.getNextHeader,PspHeader.getNextHeader,
      ReprintedField.toInt (by decide) fields.2.2.2.1,ReprintedField.bit fields.2.2.2.2.2.2.2.1]
    simp only [decimalText_iff fields.1 "0x11" 0x11 (by decide) (by decide) (by decide) (by decide)]
  | _ => rfl

theorem caseOfIpv6_hidden {nextHeader nextHeader' : String} (h : ReprintedField (.bits 8) nextHeader nextHeader')
    (hhidden : nextHeader = "0x2F" ∨ nextHeader = "0x3A") :
    caseOfIpv6 nextHeader = .headerNotSet ∧ caseOfIpv6 nextHeader' ≠ .headerNotSet := by
  rcases hhidden with rfl | rfl
  · rw [(letterText_iff h "0x2f" "0x2F" 0x2f (by decide) (by decide) (by decide) (by decide)
      (by decide)).mpr (.inr rfl)]
    decide
  · rw [(letterText_iff h "0x3a" "0x3A" 0x3a (by decide) (by decide) (by decide) (by decide)
      (by decide)).mpr (.inr rfl)]
    decide

theorem Reprinted.hidden (h : Reprinted header header') (hhidden : HidesNextHeader header) :
    Packetlib.expectedAfter header = .headerNotSet ∧ Packetlib.expectedAfter header' ≠ .headerNotSet := by
  cases h with
  | @ipv4Header ip ip' fields _ =>
    have hprotocol : ip.protocol = "0x2F" := hhidden
    have hprotocol' : ip'.protocol = "0x2f" :=
      (letterText_iff fields.2.2.2.2.2.2.2.2.2.1 "0x2f" "0x2F" 0x2f (by decide) (by decide) (by decide)
        (by decide) (by decide)).mpr (.inr hprotocol)
    rw [expectedAfter_ipv4,expectedAfter_ipv4,hprotocol,hprotocol']
    decide
  | @ipv6Header ip ip' fields =>
    have hnext : ip.nextHeader = "0x2F" ∨ ip.nextHeader = "0x3A" := hhidden
    have hzero : ip.nextHeader ≠ "0x00" := by rcases hnext with h | h <;> rw [h] <;> decide
    have hzero' : ip'.nextHeader ≠ "0x00" :=
      (decimalText_iff fields.2.2.2.2.2.1 "0x00" 0 (by decide) (by decide) (by decide) (by decide)).not.mpr hzero
    rw [expectedAfter_ipv6,expectedAfter_ipv6,if_neg hzero,if_neg hzero']
    exact caseOfIpv6_hidden fields.2.2.2.2.2.1 hnext
  | @hopByHopOptionsHeader hop hop' fields =>
    obtain ⟨hlength,hnext⟩ := hhidden
    have hlength' : hop'.headerExtensionLength = "0x00" :=
      (decimalText_iff fields.2.1 "0x00" 0 (by decide) (by decide) (by decide) (by decide)).mpr hlength
    rw [expectedAfter_hopByHop,expectedAfter_hopByHop,if_neg (not_not_intro hlength),if_neg (not_not_intro hlength')]
    exact caseOfIpv6_hidden fields.1 hnext
  | _ => exact hhidden.elim

end NextHeaders

section Loop
variable [InetText]

/-- Every header can be written and announces its optional parts. -/
structure Writable (header : Header) : Prop where
  written : ∃ bits,serializeHeader header = .ok bits
  announced : Announced header

theorem parseHeaders_of_written (hinet : InetText.Inverse) (hwritable : Writable header)
    (hbits : serializeHeader header = .ok bits) (hlt : (bits ++ rest).length < 2 ^ 31) (rounds : Nat) (packet : Packet) :
    ∃ header',Reprinted header header' ∧
      ((∃ reason,Packetlib.expectedAfter header' = .headerNotSet ∧
        parseHeaders (rounds + 1) header.headerCase (bits ++ rest) packet =
          some ({ packet with headers := packet.headers ++ [header'],reasonNotFullyParsed := reason },rest)) ∨
      parseHeaders (rounds + 1) header.headerCase (bits ++ rest) packet =
        parseHeaders rounds (Packetlib.expectedAfter header') rest { packet with headers := packet.headers ++ [header'] }) := by
  obtain ⟨header',hparse,hreprinted⟩ := parseHeader_of_written hwritable.announced hbits hlt
  have hwritten : serializeHeader header' = .ok bits := (hreprinted.same hinet).serialize.trans hbits
  obtain ⟨next,hnext⟩ := getNextHeader_of_serialized hwritten
  refine ⟨header',hreprinted,?_⟩
  cases next with
  | unsupported reason =>
    exact .inl ⟨reason,expectedAfter_of_ok hnext,parseHeaders_of_unsupported packet hparse hnext⟩
  | supported next =>
    refine .inr ?_
    rw [parseHeaders_of_supported packet hparse hnext,expectedAfter_of_ok hnext]
    rfl

theorem Chained.eq_nil (h : Chained .headerNotSet headers) (hwritable : ∀ header ∈ headers,Writable header) :
    headers = [] := by
  cases headers with
  | nil => rfl
  | cons header headers =>
    obtain ⟨bits,hbits⟩ := (hwritable header List.mem_cons_self).written
    have hcase : header.headerCase = .headerNotSet := h.1
    cases header with
    | headerNotSet => cases hbits
    | _ => cases hcase

/-- The loop reads back what was written, if it sees the headers that validation saw. -/
theorem parseHeaders_of_visible (hinet : InetText.Inverse)
    (hchained : Chained expected headers) (hwritable : ∀ header ∈ headers,Writable header)
    (hvisible : ∀ header ∈ headers,¬ HidesNextHeader header) (hbits : serializeHeaders i headers = .ok bits)
    (hlt : (bits ++ rest).length < 2 ^ 31) {rounds : Nat} (hrounds : headers.length < rounds) (packet : Packet) :
    ∃ parsed headers',parseHeaders rounds expected (bits ++ rest) packet = some (parsed,rest) ∧
      List.Forall₂ Reprinted headers headers' ∧ parsed.headers = packet.headers ++ headers' ∧
      parsed.reasonsInvalid = packet.reasonsInvalid := by
  induction headers generalizing expected i bits rounds packet with
  | nil =>
    cases hbits
    obtain rfl : expected = .headerNotSet := hchained
    exact ⟨packet,[],by rw [parseHeaders]; rfl,.nil,by simp,rfl⟩
  | cons header headers ih =>
    obtain ⟨rfl,hchained⟩ := hchained
    obtain ⟨first,hfirst,hbits⟩ := bind_eq_ok.mp hbits
    obtain ⟨others,hothers,hbits⟩ := bind_eq_ok.mp hbits
    cases hbits
    rw [mapError_eq_ok] at hfirst
    rw [List.append_assoc] at hlt ⊢
    obtain ⟨rounds,rfl⟩ : ∃ r,rounds = r + 1 := ⟨rounds - 1,by simp only [List.length_cons] at hrounds; omega⟩
    obtain ⟨hwritableFirst,hwritableRest⟩ := List.forall_mem_cons.mp hwritable
    obtain ⟨hvisibleFirst,hvisibleRest⟩ := List.forall_mem_cons.mp hvisible
    obtain ⟨header',hreprinted,hround⟩ := parseHeaders_of_written hinet hwritableFirst hfirst hlt rounds packet
    have hsame := hreprinted.expectedAfter hvisibleFirst
    rcases hround with ⟨reason,hlast,hround⟩ | hround
    · rw [← hsame,hlast] at hchained
      obtain rfl := hchained.eq_nil hwritableRest
      cases hothers
      exact ⟨_,[header'],hround,.cons hreprinted .nil,rfl,rfl⟩
    · rw [hround,hsame]
      have hlt' : (others ++ rest).length < 2 ^ 31 := by
        rw [List.length_append] at hlt
        omega
      obtain ⟨parsed,headers',hrest,hrelated,hheaders,hreasons⟩ := ih hchained hwritableRest hvisibleRest hothers hlt'
        (by simpa using hrounds) { packet with headers := packet.headers ++ [header'] }
      exact ⟨parsed,header' :: headers',hrest,.cons hreprinted hrelated,by rw [hheaders]; simp,hreasons⟩

/-- Where validation missed a header, the loop goes on and either fails or reads more headers. -/
theorem parseHeaders_of_hidden (hinet : InetText.Inverse)
    (hchained : Chained expected headers) (hwritable : ∀ header ∈ headers,Writable header)
    (hhidden : ∃ header ∈ headers,HidesNextHeader header) (hbits : serializeHeaders i headers = .ok bits)
    (hlt : (bits ++ rest).length < 2 ^ 31) (h8 : rest.length % 8 = 0) {rounds : Nat}
    (hrounds : headers.length + rest.length < rounds) (packet : Packet) :
    ∃ parsed remaining,parseHeaders rounds expected (bits ++ rest) packet = some (parsed,remaining) ∧
      (parsed.reasonsInvalid ≠ [] ∨ packet.headers.length + headers.length < parsed.headers.length) := by
  induction headers generalizing expected i bits rounds packet with
  | nil => simp at hhidden
  | cons header headers ih =>
    obtain ⟨rfl,hchained⟩ := hchained
    obtain ⟨first,hfirst,hbits⟩ := bind_eq_ok.mp hbits
    obtain ⟨others,hothers,hbits⟩ := bind_eq_ok.mp hbits
    cases hbits
    rw [mapError_eq_ok] at hfirst
    rw [List.append_assoc] at hlt ⊢
    rw [List.length_cons] at hrounds
    obtain ⟨rounds,rfl⟩ : ∃ r,rounds = r + 1 := ⟨rounds - 1,by omega⟩
    obtain ⟨hwritableFirst,hwritableRest⟩ := List.forall_mem_cons.mp hwritable
    obtain ⟨header',hreprinted,hround⟩ := parseHeaders_of_written hinet hwritableFirst hfirst hlt rounds packet
    by_cases hhiddenFirst : HidesNextHeader header
    · obtain ⟨hexpected,hexpected'⟩ := hreprinted.hidden hhiddenFirst
      rw [hexpected] at hchained
      obtain rfl := hchained.eq_nil hwritableRest
      cases hothers
      rcases hround with ⟨reason,hlast,-⟩ | hround
      · exact absurd hlast hexpected'
      · rw [hround,List.nil_append]
        obtain ⟨parsed,remaining,more,n,hloop,hheaders,-,hread,-⟩ := @parseHeaders_spec _ hinet rounds
          (Packetlib.expectedAfter header') rest { packet with headers := packet.headers ++ [header'] } h8
          (by simp only [List.length_nil] at hrounds; omega)
        refine ⟨parsed,remaining,hloop,?_⟩
        cases hparse : parseHeader (Packetlib.expectedAfter header') rest with
        | error s =>
          obtain ⟨rounds,rfl⟩ : ∃ r,rounds = r + 1 := ⟨rounds - 1,by simp only [List.length_nil] at hrounds; omega⟩
          rw [parseHeaders_of_error hexpected' hparse] at hloop
          cases hloop
          exact .inl (by simp)
        | ok result =>
          have hmore := hread.ne_nil.mpr ⟨result,hparse⟩
          have hpos := List.length_pos_of_ne_nil hmore
          refine .inr ?_
          rw [hheaders,List.length_append,List.length_append]
          simp only [List.length_cons,List.length_nil]
          omega
    · have hhiddenRest : ∃ header ∈ headers,HidesNextHeader header := by
        obtain ⟨hidden,hmem,hhides⟩ := hhidden
        rcases List.mem_cons.mp hmem with rfl | hmem
        · exact absurd hhides hhiddenFirst
        · exact ⟨hidden,hmem,hhides⟩
      have hsame := hreprinted.expectedAfter hhiddenFirst
      rcases hround with ⟨reason,hlast,-⟩ | hround
      · rw [← hsame,hlast] at hchained
        rw [hchained.eq_nil hwritableRest] at hhiddenRest
        simp at hhiddenRest
      · rw [hround,hsame]
        have hlt' : (others ++ rest).length < 2 ^ 31 := by
          rw [List.length_append] at hlt
          omega
        obtain ⟨parsed,remaining,hloop,houtcome⟩ := ih hchained hwritableRest hhiddenRest hothers hlt'
          (show headers.length + rest.length < rounds by omega) { packet with headers := packet.headers ++ [header'] }
        refine ⟨parsed,remaining,hloop,houtcome.imp_right fun h => ?_⟩
        rw [List.length_append,List.length_singleton] at h
        rw [List.length_cons]
        omega

end Loop

section Survival
variable [InetText]

/-- The packet is written, with the size that is computed for it, and parsed from what was
written without a reason: the same kinds of headers with the same values, and the same payload. -/
def SurvivesWire (packet : Packet) : Prop :=
  ∃ bytes,rawSerializePacket packet = .ok bytes ∧ packetSizeInBytes packet 0 = .ok (bytes.length : Int) ∧
    ∃ parsed,parsePacket bytes (firstHeaderCase packet.headers) = .ok parsed ∧ parsed.reasonsInvalid = [] ∧
      List.Forall₂ SameValues packet.headers parsed.headers ∧ parsed.payload = packet.payload ∧ TrueLengths packet

theorem HeadersValid.get (h : HeadersValid packet i headers) {k : Nat}
    (hk : headers[k]? = some header) : HeaderValid packet (i + k : Nat) header := by
  induction headers generalizing i k with
  | nil => cases hk
  | cons first headers ih =>
    cases k with
    | zero =>
      cases hk
      exact h.1
    | succ k =>
      rw [show i + (k + 1) = i + 1 + k by omega]
      exact ih h.2 hk

private theorem headersValid_of_get
    (h : ∀ (k : Nat) header,headers[k]? = some header → HeaderValid packet (i + k : Nat) header) : HeadersValid packet i headers := by
  induction headers generalizing i with
  | nil => trivial
  | cons header headers ih =>
    refine ⟨h 0 header rfl,ih fun k header hk => ?_⟩
    rw [show i + 1 + k = i + (k + 1) by omega]
    exact h (k + 1) header hk

theorem PacketValid.writable (hvalid : PacketValid packet)
    (hsizes : ∀ header ∈ packet.headers,∀ n,headerSizeInBits header = .ok n → n < 2 ^ 31) (hlengths : LengthsFit packet)
    (hwritten : ∀ header ∈ packet.headers,UncheckedWritten header) : ∀ header ∈ packet.headers,Writable header := by
  intro header hheader
  obtain ⟨k,hk⟩ := List.getElem?_of_mem hheader
  have hvalidHeader := hvalid.headers.get hk
  rw [Nat.zero_add] at hvalidHeader
  exact ⟨hvalidHeader.serialize (hwritten header hheader),
    hvalidHeader.announced (hsizes header hheader) (hlengths k header hk)⟩

private theorem headerSize_of_written (hannounced : Announced header) (hbits : serializeHeader header = .ok bits) :
    headerSizeInBits header = .ok bits.length ∧ bits.length % 8 = 0 ∧ 0 < bits.length := by
  have hfixed {H : Type} {layout : HeaderLayout H} {h : H} {b : BitString} (hb : serializeLayout layout h = .ok b) :
      b.length = layout.bitwidth := (reprinted_print [] hb).1
  cases header with
  | headerNotSet => cases hbits
  | ipv4Header h =>
    obtain ⟨fields,hfields,hrest⟩ := bind_eq_ok.mp hbits
    obtain ⟨options,hoptions,hrest⟩ := bind_eq_ok.mp hrest
    cases hrest
    have h8 := (serializeOptions_eq_ok hoptions).1
    have hwidth : fields.length = 160 := hfixed hfields
    rw [headerSizeInBits,optionsSize_of_serialized hoptions,List.length_append,hwidth]
    exact ⟨rfl,by omega,by omega⟩
  | tcpHeader h =>
    obtain ⟨fields,hfields,hrest⟩ := bind_eq_ok.mp hbits
    obtain ⟨options,hoptions,hrest⟩ := bind_eq_ok.mp hrest
    cases hrest
    have h8 := (serializeOptions_eq_ok hoptions).1
    have hwidth : fields.length = 160 := hfixed hfields
    rw [headerSizeInBits,optionsSize_of_serialized hoptions,List.length_append,hwidth]
    exact ⟨rfl,by omega,by omega⟩
  | greHeader h =>
    have hannounced : GreFieldsAnnounced h := hannounced
    obtain ⟨fields,hfields,hrest⟩ := bind_eq_ok.mp hbits
    have hwidth : fields.length = 32 := hfixed hfields
    unfold GreFieldsAnnounced at hannounced
    rw [headerSizeInBits]
    split at hannounced
    · rename_i hone
      obtain ⟨⟨c,hc⟩,r,hr⟩ := hannounced
      rw [if_pos hone,serializeHexString_of_bitset (by decide) hc,serializeHexString_of_bitset (by decide) hr] at hrest
      cases hrest
      rw [if_pos hone,List.length_append,List.length_append,hwidth,length_natToBits,length_natToBits]
      exact ⟨rfl,by decide,by decide⟩
    · rename_i hone
      rw [if_neg hone] at hrest
      cases hrest
      rw [if_neg hone,hwidth]
      exact ⟨rfl,by decide,by decide⟩
  | _ =>
    rw [hfixed hbits]
    exact ⟨rfl,by decide,by decide⟩

theorem sizes_of_written (hwritable : ∀ header ∈ headers,Writable header) (i : Nat) :
    ∃ bits sizes,serializeHeaders i headers = .ok bits ∧ headers.mapM headerSizeInBits = .ok sizes ∧
      sizes.sum = bits.length ∧ bits.length % 8 = 0 ∧ headers.length ≤ bits.length := by
  induction headers generalizing i with
  | nil => exact ⟨[],[],rfl,rfl,rfl,rfl,Nat.le_refl 0⟩
  | cons header headers ih =>
    obtain ⟨hfirst,hrest⟩ := List.forall_mem_cons.mp hwritable
    obtain ⟨first,hwritten⟩ := hfirst.written
    obtain ⟨hsize,h8,hpos⟩ := headerSize_of_written hfirst.announced hwritten
    obtain ⟨bits,sizes,hbits,hsizes,hsum,haligned,hlength⟩ := ih hrest (i + 1)
    refine ⟨first ++ bits,first.length :: sizes,?_,?_,?_,?_,?_⟩
    · exact bind_eq_ok.mpr ⟨first,mapError_eq_ok.mpr hwritten,bind_eq_ok.mpr ⟨bits,hbits,rfl⟩⟩
    · exact mapM_eq_ok.mpr (.cons hsize (mapM_eq_ok.mp hsizes))
    · rw [List.sum_cons,List.length_append,hsum]
    · rw [List.length_append]
      omega
    · rw [List.length_append,List.length_cons]
      omega

omit [InetText] in
theorem bitsFrom_eq_ok {bits : Nat} : bitsFrom headers payload = .ok bits ↔
      ∃ sizes,headers.mapM headerSizeInBits = .ok sizes ∧ bits = sizes.sum + 8 * payload.length := by
  unfold bitsFrom
  rw [map_eq_ok]
  simp only [eq_comm]

omit [InetText] in
private theorem bitsFrom_drop {bits : Nat} (h : bitsFrom headers payload = .ok bits) (i : Nat) :
    ∃ rest,bitsFrom (headers.drop i) payload = .ok rest ∧ rest ≤ bits := by
  obtain ⟨sizes,hsizes,rfl⟩ := bitsFrom_eq_ok.mp h
  have hdrop := mapM_eq_ok.mpr (List.forall₂_drop i (mapM_eq_ok.mp hsizes))
  refine ⟨_,bitsFrom_eq_ok.mpr ⟨_,hdrop,rfl⟩,?_⟩
  have hsum := congrArg List.sum (List.take_append_drop i sizes)
  rw [List.sum_append] at hsum
  omega

omit [InetText] in
theorem headerSize_le {bits : Nat} (h : bitsFrom headers payload = .ok bits)
    (hheader : header ∈ headers) {n : Nat} (hn : headerSizeInBits header = .ok n) : n ≤ bits := by
  obtain ⟨sizes,hsizes,rfl⟩ := bitsFrom_eq_ok.mp h
  obtain ⟨k,hk⟩ := List.getElem?_of_mem hheader
  rcases forall₂_getElem? (mapM_eq_ok.mp hsizes) k with ⟨header',size,hheader',hsize,hok⟩ | ⟨hnone,-⟩
  · cases hk.symm.trans hheader'
    cases hn.symm.trans hok
    have := List.single_le_sum (fun x _ => Nat.zero_le x) _ (List.mem_of_getElem? hsize)
    omega
  · cases hk.symm.trans hnone

omit [InetText] in
theorem packetSizeInBits_eq_ok {size : Int} : packetSizeInBits packet i = .ok size ↔
    i ≤ packet.headers.length ∧ ∃ bits,bitsFrom (packet.headers.drop i) packet.payload = .ok bits ∧ size = int32 bits := by
  unfold packetSizeInBits
  by_cases hi : i ≤ packet.headers.length
  · rw [if_neg (by omega),and_iff_right hi,Int.toNat_natCast]
    cases bitsFrom (packet.headers.drop i) packet.payload with
    | error s =>
      constructor
      · intro h
        cases h
      · rintro ⟨bits,h,-⟩
        cases h
    | ok bits =>
      constructor
      · intro h
        cases h
        exact ⟨bits,rfl,rfl⟩
      · rintro ⟨bits',h,rfl⟩
        cases h
        rfl
  · rw [if_pos (by omega)]
    constructor
    · intro h
      cases h
    · rintro ⟨h,-⟩
      exact absurd h hi

theorem PacketValid.bitsFrom (h : PacketValid packet) :
    ∃ bits,Packetlib.bitsFrom packet.headers packet.payload = .ok bits ∧ bits % 8 = 0 := by
  obtain ⟨size,hsize,h8⟩ := h.size
  obtain ⟨-,bits,hbits,rfl⟩ := packetSizeInBits_eq_ok.mp hsize
  rw [int32_emod_eight] at h8
  exact ⟨bits,hbits,by omega⟩

omit [InetText] in
theorem ComputedField.true (h : ComputedField 16 (packetSizeInBytes packet i) id text)
    {bits : Nat} (hbits : Packetlib.bitsFrom packet.headers packet.payload = .ok bits) (hlt : bits < 2 ^ 31)
    (hfit : ∀ length,bytesFrom packet i = .ok length → length < 2 ^ 16) :
    ∃ length,bytesFrom packet i = .ok length ∧ hexStringToBitset 16 text = .ok length := by
  obtain ⟨rest,hrest,hle⟩ := bitsFrom_drop hbits i
  have hbytes : bytesFrom packet i = .ok (rest / 8) := map_eq_ok.mpr ⟨rest,hrest,rfl⟩
  obtain ⟨size,hsize,rfl⟩ := h
  obtain ⟨bitSize,hbitSize,hsize⟩ := bind_eq_ok.mp hsize
  obtain ⟨-,rest',hrest',rfl⟩ := packetSizeInBits_eq_ok.mp hbitSize
  cases hrest.symm.trans hrest'
  rw [int32_of_lt (by omega)] at hsize
  split at hsize
  · cases hsize
  cases hsize
  have hlength := hfit _ hbytes
  refine ⟨rest / 8,hbytes,?_⟩
  rw [hexStringToBitset_bitsetToHexString]
  congr 1
  change ((rest : Int) / 8 % 2 ^ 16).toNat = rest / 8
  omega

omit [InetText] in
theorem OptionsAnnounced.true {headerLength : String} (h : OptionsAnnounced options headerLength) :
    ∃ length,headerWords options = .ok length ∧ hexStringToBitset 4 headerLength = .ok length := by
  obtain ⟨words,bits,hbits,hlength,hwords⟩ := h
  refine ⟨5 + words,?_,hwords⟩
  rw [headerWords,optionsSize_of_serialized hbits,hlength]
  refine congrArg Except.ok ?_
  dsimp only
  omega

theorem PacketValid.trueLengths (hvalid : PacketValid packet) {bits : Nat}
    (hbits : Packetlib.bitsFrom packet.headers packet.payload = .ok bits) (hlt : bits < 2 ^ 31) (hfit : LengthsFit packet)
    (hwritable : ∀ header ∈ packet.headers,Writable header) : TrueLengths packet := by
  intro i header hheader field hfield
  have hheaderValid := hvalid.headers.get hheader
  rw [Nat.zero_add] at hheaderValid
  have hannounced := (hwritable header (List.mem_of_getElem? hheader)).announced
  have hlength := hfit i header hheader field hfield
  cases header with
  | ipv4Header h =>
    obtain ⟨-,-,-,-,htotal,-⟩ := hheaderValid
    rcases List.mem_pair.mp hfield with rfl | rfl
    · exact OptionsAnnounced.true hannounced
    · exact htotal.true hbits hlt hlength
  | ipv6Header h =>
    obtain rfl := List.mem_singleton.mp hfield
    exact ComputedField.true hheaderValid.2.2 hbits hlt hlength
  | udpHeader h =>
    obtain rfl := List.mem_singleton.mp hfield
    exact hheaderValid.2.1.true hbits hlt hlength
  | tcpHeader h =>
    obtain rfl := List.mem_singleton.mp hfield
    exact OptionsAnnounced.true hannounced
  | ipfixHeader h =>
    obtain rfl := List.mem_singleton.mp hfield
    exact hheaderValid.2.true hbits hlt hlength
  | psampHeader h =>
    obtain ⟨-,-,htotal,hsampled⟩ := hheaderValid
    rcases List.mem_pair.mp hfield with rfl | rfl
    · exact htotal.true hbits hlt hlength
    · exact ComputedField.true hsampled hbits hlt hlength
  | ptpHeader h =>
    obtain rfl := List.mem_singleton.mp hfield
    exact hheaderValid.2.2.2.2.2.true hbits hlt hlength
  | _ => cases hfield

/-- A packet whose sizes are known is written as a whole. -/
theorem rawSerializePacket_of_written {sizes : List Nat}
    (hbits : serializeHeaders 0 packet.headers = .ok bits) (hsizes : packet.headers.mapM headerSizeInBits = .ok sizes)
    (hsum : sizes.sum = bits.length) (h8 : bits.length % 8 = 0) (hlt : bits.length + 8 * packet.payload.length < 2 ^ 31) :
    rawSerializePacket packet = .ok (bitsToBytes (bits ++ bytesToBits packet.payload)) ∧
      bytesToBits (bitsToBytes (bits ++ bytesToBits packet.payload)) = bits ++ bytesToBits packet.payload ∧
      packetSizeInBytes packet 0 = .ok ((bitsToBytes (bits ++ bytesToBits packet.payload)).length : Int) := by
  have hlength : (bits ++ bytesToBits packet.payload).length = bits.length + 8 * packet.payload.length := by
    rw [List.length_append,length_bytesToBits]
  have haligned : (bits ++ bytesToBits packet.payload).length % 8 = 0 := by omega
  have hbytes := length_bitsToBytes haligned
  refine ⟨?_,bytesToBits_bitsToBytes haligned,?_⟩
  · rw [rawSerializePacket_eq hbits,toByteString_of_lt haligned (by omega)]
  · have hsize : packetSizeInBits packet 0 = .ok (int32 ((bits.length + 8 * packet.payload.length : Nat) : Int)) := by
      rw [packetSizeInBits_zero hsizes,hsum]
    rw [packetSizeInBytes,hsize,int32_of_lt hlt]
    simp only [bind,Except.bind]
    rw [if_neg (by omega)]
    exact congrArg Except.ok (by omega)

private theorem chained_kept {headers' : List Header} (hreprinted : List.Forall₂ Reprinted headers headers')
    (hvisible : ∀ header ∈ headers,¬ HidesNextHeader header) (h : Chained expected headers) :
    Chained expected headers' := by
  induction hreprinted generalizing expected with
  | nil => exact h
  | cons hfirst hrest ih =>
    obtain ⟨hvisibleFirst,hvisibleRest⟩ := List.forall_mem_cons.mp hvisible
    refine ⟨hfirst.headerCase.trans h.1,?_⟩
    rw [hfirst.expectedAfter hvisibleFirst]
    exact ih hvisibleRest h.2

private theorem firstHeaderCase_kept {headers' : List Header} (hreprinted : List.Forall₂ Reprinted headers headers') :
    firstHeaderCase headers' = firstHeaderCase headers := by
  cases hreprinted with
  | nil => rfl
  | cons hfirst hrest => exact hfirst.headerCase

theorem PacketValid.kept (hinet : InetText.Inverse) {packet' : Packet} (hheaders : packet.headers ≠ [])
    (h : PacketValid packet) (hpackets : SamePackets packet packet') (hreprinted : List.Forall₂ Reprinted packet.headers packet'.headers)
    (hvisible : ∀ header ∈ packet.headers,¬ HidesNextHeader header) : PacketValid packet' := by
  refine ⟨?_,?_,?_,?_⟩
  · have hne' : packet'.headers ≠ [] := by
      intro hnil
      have hlength := hpackets.length
      rw [hnil] at hlength
      exact hheaders (List.length_eq_zero_iff.mp hlength.symm)
    simp [Packet.isEmpty,hne']
  · obtain ⟨bits,hbits,h8⟩ := h.size
    exact ⟨bits,(hpackets.packetSizeInBits 0).trans hbits,h8⟩
  · refine headersValid_of_get fun k header' hheader' => ?_
    rcases forall₂_getElem? hreprinted k with ⟨header,header'',hheader,hheader'',hrelated⟩ | ⟨-,hnone⟩
    · cases hheader'.symm.trans hheader''
      exact (h.headers.get hheader).kept hinet hpackets hrelated
    · cases hheader'.symm.trans hnone
  · rw [firstHeaderCase_kept hreprinted]
    exact chained_kept hreprinted hvisible h.chained

/-- What is parsed of the bytes of a packet that validation sees as a whole. -/
theorem parsePacket_of_visible (hinet : InetText.Inverse) (hempty : InetText.pton "" = none)
    (hne : packet.headers ≠ []) (hvalid : PacketValid packet) (hwritable : ∀ header ∈ packet.headers,Writable header)
    (hvisible : ∀ header ∈ packet.headers,¬ HidesNextHeader header)
    (hbits : serializeHeaders 0 packet.headers = .ok bits) (hcount : packet.headers.length ≤ bits.length)
    (hlt : bits.length + 8 * packet.payload.length < 2 ^ 31) {bytes : Bytes}
    (hbytes : bytesToBits bytes = bits ++ bytesToBits packet.payload) :
    ∃ parsed,parsePacket bytes (firstHeaderCase packet.headers) = .ok parsed ∧ parsed.reasonsInvalid = [] ∧
      List.Forall₂ SameValues packet.headers parsed.headers ∧ parsed.payload = packet.payload := by
  have hlength : (bits ++ bytesToBits packet.payload).length = bits.length + 8 * packet.payload.length := by
    rw [List.length_append,length_bytesToBits]
  obtain ⟨read,headers',hloop,hreprinted,hheaders,hreasons⟩ := parseHeaders_of_visible hinet hvalid.chained hwritable hvisible
    hbits (show (bits ++ bytesToBits packet.payload).length < 2 ^ 31 by omega)
    (show packet.headers.length < (bits ++ bytesToBits packet.payload).length + 1 by omega) {}
  rw [← hbytes] at hloop
  have hpayload : BitString.toByteString (bytesToBits packet.payload) = .ok packet.payload := by
    rw [toByteString_of_lt (aligned_bytesToBits _) (by rw [length_bytesToBits]; omega),bitsToBytes_bytesToBits]
  have hparse := parsePacket_eq hloop
  rw [hpayload,catchStatus] at hparse
  let parsed := setPayload read (.ok packet.payload)
  have hsame : SamePackets packet parsed :=
    ⟨by rw [show parsed.headers = headers' from hheaders]; exact hreprinted.imp fun _ _ h => h.same hinet,rfl⟩
  have hparsedValid : PacketValid parsed :=
    hvalid.kept hinet hne hsame (by rw [show parsed.headers = headers' from hheaders]; exact hreprinted) hvisible
  have hnone := (packetInvalidReasons_eq_nil hempty).mpr hparsedValid
  refine ⟨{ parsed with reasonsInvalid := parsed.reasonsInvalid ++ [] },?_,?_,hsame.headers,rfl⟩
  · rw [hparse]
    exact bind_eq_ok.mpr ⟨_,rfl,bind_eq_ok.mpr ⟨[],hnone,rfl⟩⟩
  · rw [List.append_nil]
    exact hreasons

theorem PacketValid.survives (hinet : InetText.Inverse) (hempty : InetText.pton "" = none)
    (hne : packet.headers ≠ []) (hvalid : PacketValid packet) (hfit : FitForWire packet) : SurvivesWire packet := by
  obtain ⟨total,htotal,-⟩ := hvalid.bitsFrom
  have hlt := hfit.small total htotal
  have hwritable : ∀ header ∈ packet.headers,Writable header :=
    hvalid.writable (fun header hheader n hn => (headerSize_le htotal hheader hn).trans_lt hlt) hfit.lengths hfit.written
  obtain ⟨bits,sizes,hbits,hsizes,hsum,h8,hcount⟩ := sizes_of_written hwritable 0
  have hlt' : bits.length + 8 * packet.payload.length < 2 ^ 31 := by
    obtain ⟨sizes',hsizes',rfl⟩ := bitsFrom_eq_ok.mp htotal
    cases hsizes.symm.trans hsizes'
    omega
  obtain ⟨hwritten,hbytes,hsize⟩ := rawSerializePacket_of_written hbits hsizes hsum h8 hlt'
  obtain ⟨parsed,hparse,hreasons,hsame,hpayload⟩ :=
    parsePacket_of_visible hinet hempty hne hvalid hwritable hfit.visible hbits hcount hlt' hbytes
  exact ⟨_,hwritten,hsize,parsed,hparse,hreasons,hsame,hpayload,hvalid.trueLengths htotal hlt hfit.lengths hwritable⟩

theorem SameField.bitset {numBits : Nat} (h : SameField (.bits numBits) text text') :
    ∃ v,hexStringToBitset numBits text = .ok v := by
  obtain ⟨bits,hbits,-⟩ := h
  obtain ⟨v,hv,-⟩ := map_eq_ok.mp hbits
  exact ⟨v,hv⟩

theorem SameValues.written (h : SameValues header header') : UncheckedWritten header := by
  cases h with
  | greHeader fields _ _ => exact SameField.bitset fields.2.2.2.1
  | pspHeader fields => exact SameField.bitset fields.2.2.2.2.2.2.2.2.1
  | _ => trivial

private theorem headers_of_parsePacket {data : Bytes} {firstHeader : HeaderCase} {read : Packet}
    (hloop : parseHeaders ((bytesToBits data).length + 1) firstHeader (bytesToBits data) {} = some (read,rest))
    (h : parsePacket data firstHeader = .ok packet) :
    packet.headers = read.headers ∧ (packet.reasonsInvalid = [] → read.reasonsInvalid = []) := by
  obtain ⟨payload,-,hrest⟩ := bind_eq_ok.mp ((parsePacket_eq hloop).symm.trans h)
  obtain ⟨reasons,-,hok⟩ := bind_eq_ok.mp hrest
  cases hok
  cases payload with
  | ok payload => exact ⟨rfl,fun hnone => (List.append_eq_nil_iff.mp hnone).1⟩
  | error s => exact ⟨rfl,fun hnone => (List.append_eq_nil_iff.mp (List.append_eq_nil_iff.mp hnone).1).1⟩

theorem SurvivesWire.fit (hinet : InetText.Inverse) (hvalid : PacketValid packet)
    (h : SurvivesWire packet) : FitForWire packet := by
  obtain ⟨bytes,hwritten,-,parsed,hparse,hreasons,hsame,hpayload,hlengths⟩ := h
  have hsmall : ∀ total,bitsFrom packet.headers packet.payload = .ok total → total < 2 ^ 31 := by
    intro total htotal
    obtain ⟨bits,sizes,-,hsizes,hsum,-,hlt⟩ := parsePacket_eq_ok hinet hparse
    obtain ⟨sizes',hsizes',rfl⟩ := bitsFrom_eq_ok.mp htotal
    rw [sizes_same hsame] at hsizes
    cases hsizes.symm.trans hsizes'
    rw [← hpayload]
    omega
  have hunchecked : ∀ header ∈ packet.headers,UncheckedWritten header := by
    intro header hheader
    obtain ⟨k,hk⟩ := List.getElem?_of_mem hheader
    rcases forall₂_getElem? hsame k with ⟨header',header'',hheader',-,hrelated⟩ | ⟨hnone,-⟩
    · cases hk.symm.trans hheader'
      exact SameValues.written hrelated
    · cases hk.symm.trans hnone
  obtain ⟨total,htotal,-⟩ := hvalid.bitsFrom
  have hlt := hsmall total htotal
  have hwritable : ∀ header ∈ packet.headers,Writable header :=
    hvalid.writable (fun header hheader n hn => (headerSize_le htotal hheader hn).trans_lt hlt) hlengths.fit hunchecked
  refine ⟨hsmall,hlengths.fit,fun header hheader hhides => ?_,hunchecked⟩
  obtain ⟨bits,sizes,hbits,hsizes,hsum,h8,hcount⟩ := sizes_of_written hwritable 0
  have hlt' : bits.length + 8 * packet.payload.length < 2 ^ 31 := by
    obtain ⟨sizes',hsizes',rfl⟩ := bitsFrom_eq_ok.mp htotal
    cases hsizes.symm.trans hsizes'
    omega
  obtain ⟨hwritten',hbytes,-⟩ := rawSerializePacket_of_written hbits hsizes hsum h8 hlt'
  cases hwritten.symm.trans hwritten'
  have hlength : (bits ++ bytesToBits packet.payload).length = bits.length + (bytesToBits packet.payload).length :=
    List.length_append
  have hpayloadLength := length_bytesToBits packet.payload
  obtain ⟨read,rest,hloop,houtcome⟩ := parseHeaders_of_hidden hinet hvalid.chained hwritable ⟨header,hheader,hhides⟩ hbits
    (show (bits ++ bytesToBits packet.payload).length < 2 ^ 31 by omega) (aligned_bytesToBits _)
    (show packet.headers.length + (bytesToBits packet.payload).length < (bits ++ bytesToBits packet.payload).length + 1 by omega) {}
  rw [← hbytes] at hloop
  obtain ⟨hheaders,hnone⟩ := headers_of_parsePacket hloop hparse
  rcases houtcome with hinvalid | hmore
  · exact hinvalid (hnone hreasons)
  · rw [← hheaders,← hsame.length_eq] at hmore
    exact absurd hmore (by simp)

/-- A valid packet survives the wire exactly if its size and lengths fit, validation read the
next headers as parsing does, and what validation does not look at can be written. -/
theorem survivesWire_iff (hinet : InetText.Inverse) (hempty : InetText.pton "" = none) (packet : Packet)
    (hheaders : packet.headers ≠ []) (hvalid : validatePacket packet = .ok ()) : SurvivesWire packet ↔ FitForWire packet :=
  have hpacket := (validatePacket_ok_iff hempty).mp hvalid
  ⟨SurvivesWire.fit hinet hpacket,PacketValid.survives hinet hempty hheaders hpacket⟩

end Survival
attribute [local instance] uncompressedInet

def tcpWithOptions : Packet where
  headers := [.tcpHeader
    { sourcePort := "0x0001",destinationPort := "0x0002",sequenceNumber := "0x00000000",acknowledgementNumber := "0x00000000",
      dataOffset := "0x6",restOfHeader := "0x000000000000000",uninterpretedOptions := "0x01010101" }]
  payload := [1,2]

theorem tcpWithOptions_survives : SurvivesWire tcpWithOptions := by
  refine (survivesWire_iff uncompressedInet_inverse rfl tcpWithOptions (by decide) (by decide +kernel)).mpr ⟨?_,?_,?_,?_⟩
  · intro bits hbits
    have hsize : bitsFrom tcpWithOptions.headers tcpWithOptions.payload = .ok 208 := by decide
    cases hbits.symm.trans hsize
    decide
  · intro i header hheader field hfield length hlength
    cases i with
    | zero =>
      cases hheader
      obtain rfl := List.mem_singleton.mp hfield
      have hwords : headerWords "0x01010101" = .ok 6 := by decide
      cases hlength.symm.trans hwords
      decide
    | succ i => cases hheader
  · intro header hheader
    obtain rfl := List.mem_singleton.mp hheader
    exact id
  · intro header hheader
    obtain rfl := List.mem_singleton.mp hheader
    trivial

/-- An IPv4 header with eleven words of options. -/
def ipv4WithLongOptions : Packet where
  headers := [.ipv4Header
    { version := "0x4",ihl := "0x0",dscp := "0x00",ecn := "0x0",totalLength := "0x0040",identification := "0x0000",
      flags := "0x0",fragmentOffset := "0x0000",ttl := "0x40",protocol := "0xff",checksum := "0x6abd",
      ipv4Source := "10.0.0.1",ipv4Destination := "10.0.0.2",
      uninterpretedOptions := "0x" ++ String.ofList (List.replicate 88 '0') }]

theorem hexStringToByteString_zeros (n : Nat) :
    hexStringToByteString ("0x" ++ String.ofList (List.replicate (n + n) '0')) = .ok (List.replicate n 0) := by
  have hbytes : ∀ text : String,bytesOfDigits text (List.replicate (n + n) '0') = .ok (List.replicate n 0) := by
    intro text
    induction n with
    | zero => rfl
    | succ n ih =>
      rw [show n + 1 + (n + 1) = (n + n) + 1 + 1 by omega,List.replicate_succ,List.replicate_succ,bytesOfDigits,ih,List.replicate_succ]
      rfl
  have hlength : (utf8 (String.ofList (List.replicate (n + n) '0'))).length = n + n := by
    rw [length_utf8_ofList,List.length_replicate]
    intro c hc
    rw [List.eq_of_mem_replicate hc]
    decide
  unfold hexStringToByteString
  rw [strDropPrefix_append]
  simp only [hlength]
  rw [if_neg (by omega),String.toList_ofList]
  exact hbytes _

theorem optionsSize_zeros (headerName : String) :
    optionsSize headerName ("0x" ++ String.ofList (List.replicate 88 '0')) = .ok 352 := by
  rw [optionsSize,if_neg (by simp),hexStringToByteString_zeros 44]
  rfl

theorem serializeOptions_zeros : serializeOptions ("0x" ++ String.ofList (List.replicate 88 '0')) = .ok (List.replicate 352 false) := by
  rw [serializeOptions,if_neg (by simp),serializeHexString,hexStringToByteString_zeros 44]
  decide +kernel

theorem ipv4WithLongOptions_lost : validatePacket ipv4WithLongOptions = .ok () ∧ ¬ SurvivesWire ipv4WithLongOptions := by
  have hvalid : validatePacket ipv4WithLongOptions = .ok () := by
    have hbytes := hexStringToByteString_zeros 44
    have hheader : ∀ h ∈ ipv4WithLongOptions.headers,headerSizeInBits h = .ok 512 := by
      intro h hh
      obtain rfl := List.mem_singleton.mp hh
      rw [headerSizeInBits,optionsSize_zeros]
      rfl
    have hsize : packetSizeInBits ipv4WithLongOptions 0 = .ok 512 := by
      obtain ⟨h,hh⟩ : ∃ h,ipv4WithLongOptions.headers = [h] := ⟨_,rfl⟩
      have hbits : bitsFrom [h] ipv4WithLongOptions.payload = .ok 512 := by
        rw [bitsFrom,List.mapM_cons,hheader h (by rw [hh]; exact List.mem_singleton_self h)]
        rfl
      rw [packetSizeInBits,hh,if_neg (by simp),show Int.toNat 0 = 0 from rfl,List.drop_zero,hbits]
      decide +kernel
    have hbytesSize : packetSizeInBytes ipv4WithLongOptions 0 = .ok 64 := by
      rw [packetSizeInBytes,hsize]
      rfl
    have hlength : expectedHeaderLength ("0x" ++ String.ofList (List.replicate 88 '0')) = "0x0" := by decide +kernel
    refine (validatePacket_ok_iff rfl).mpr ⟨rfl,⟨512,hsize,by decide⟩,
      ⟨⟨?_,.inr ⟨_,hbytes,by decide +kernel⟩,hlength.symm,rfl,?_,?_⟩,trivial⟩,?_⟩
    · rw [layoutWritten_iff]
      have hwritten : (serializeFields Ipv4Header.layout.fields ["0x4","0x0","0x00","0x0","0x0040","0x0000","0x0","0x0000","0x40",
          "0xff","0x6abd","10.0.0.1","10.0.0.2"]).toOption.isSome = true := by decide
      obtain ⟨bits,hbits⟩ := Option.isSome_iff_exists.mp hwritten
      exact ⟨bits,toOption_eq_some.mp hbits⟩
    · exact ⟨64,hbytesSize,by decide⟩
    · refine ⟨0x6abd,?_,by decide⟩
      unfold ipv4HeaderChecksum serializeIpv4Header
      simp only [serializeOptions_zeros]
      decide +kernel
    · have hnext : expectedAfter (.ipv4Header { protocol := "0xff" }) = .headerNotSet := by decide
      exact ⟨rfl,hnext⟩
  refine ⟨hvalid,fun hsurvives => ?_⟩
  obtain ⟨-,-,-,-,-,-,-,-,htrue⟩ := hsurvives
  have hwords : headerWords ("0x" ++ String.ofList (List.replicate 88 '0')) = .ok 16 := by
    rw [headerWords,optionsSize_zeros]
    rfl
  have hlt := htrue.fit 0 _ rfl _ List.mem_cons_self 16 hwords
  exact absurd hlt (by decide)

end SonicPins.Packetlib
