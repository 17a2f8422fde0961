import SonicPins.Packetlib.HeaderRoundTrip

/-! Parsing a byte string and writing the packet again. -/
namespace SonicPins.Packetlib
open Lib Pdpi

variable {headers : List Header} {data rest bits : BitString} {n rounds : Nat} {packet : Packet}
  {firstHeader headerCase next : HeaderCase} {header : Header}

section Loop
variable [InetText]

/-- What reading headers took from the data. -/
structure Consumed (headers : List Header) (data rest : BitString) (n : Nat) : Prop where
  remaining : rest = data.drop n
  length : n ≤ data.length
  size : BitString.size rest = data.size - n
  serialized : ∀ i,serializeHeaders i headers = .ok (data.take n)
  measured : ∃ sizes,headers.mapM headerSizeInBits = .ok sizes ∧ sizes.sum = n
  aligned : n % 8 = 0

theorem Consumed.nil (data : BitString) : Consumed [] data data 0 :=
  ⟨rfl,Nat.zero_le _,by simp,fun _ => rfl,⟨[],rfl,rfl⟩,rfl⟩

theorem Consumed.cons {mid : BitString} {m : Nat}
    (hread : ReadFrom header data mid n) (h : Consumed headers mid rest m) : Consumed (header :: headers) data rest (n + m) := by
  obtain ⟨sizes,hsizes,hsum⟩ := h.measured
  have hle := size_le_length data
  have hsize := hread.size
  have hmid : mid.size = data.size - n := by rw [hread.rest,size_drop hsize]
  have hlength : mid.length = data.length - n := by rw [hread.rest,List.length_drop]
  refine ⟨?_,?_,?_,fun i => ?_,⟨n :: sizes,?_,?_⟩,?_⟩
  · rw [h.remaining,hread.rest,List.drop_drop]
  · have hrest := h.length
    omega
  · rw [h.size,hmid]
    omega
  · rw [serializeHeaders,hread.serialized]
    simp only [Except.mapError,bind,Except.bind,h.serialized (i + 1)]
    rw [hread.rest,← List.take_add]
  · rw [List.mapM_cons,hread.measured]
    simp only [bind,Except.bind,hsizes]
    rfl
  · rw [List.sum_cons,hsum]
  · have hfirst := hread.aligned
    have hrest := h.aligned
    omega

theorem parseHeaders_of_error {s : Status}
    (hset : headerCase ≠ .headerNotSet) (h : parseHeader headerCase data = .error s) :
    parseHeaders (rounds + 1) headerCase data packet =
      some ({ packet with reasonsInvalid := packet.reasonsInvalid ++ [s.message] },data) := by
  rw [parseHeaders,h]
  exact hset

theorem parseHeaders_of_supported
    (packet : Packet) (h : parseHeader headerCase data = .ok (header,rest)) (hnext : getNextHeader header = .ok (.supported next)) :
    parseHeaders (rounds + 1) headerCase data packet =
      parseHeaders rounds next rest { packet with headers := packet.headers ++ [header] } := by
  rw [parseHeaders,h]
  · dsimp only
    rw [hnext]
  · rintro rfl
    cases h

theorem parseHeaders_of_unsupported
    {reason : String} (packet : Packet) (h : parseHeader headerCase data = .ok (header,rest))
    (hnext : getNextHeader header = .ok (.unsupported reason)) :
    parseHeaders (rounds + 1) headerCase data packet =
      some ({ packet with headers := packet.headers ++ [header],reasonNotFullyParsed := reason },rest) := by
  rw [parseHeaders,h]
  · dsimp only
    rw [hnext]
  · rintro rfl
    cases h

/-- The headers that the loop adds, one after the other. -/
inductive ReadAs : HeaderCase → BitString → List Header → Prop
  | stop {headerCase : HeaderCase} {data : BitString} {s : Status} (h : parseHeader headerCase data = .error s) :
    ReadAs headerCase data []
  | last {headerCase : HeaderCase} {data rest : BitString} {header : Header} {reason : String}
    (h : parseHeader headerCase data = .ok (header,rest)) (hnext : getNextHeader header = .ok (.unsupported reason)) :
    ReadAs headerCase data [header]
  | more {headerCase next : HeaderCase} {data rest : BitString} {header : Header} {headers : List Header}
    (h : parseHeader headerCase data = .ok (header,rest)) (hnext : getNextHeader header = .ok (.supported next))
    (hrest : ReadAs next rest headers) : ReadAs headerCase data (header :: headers)

theorem parseHeaders_spec (hinet : InetText.Inverse) {rounds : Nat} {headerCase : HeaderCase} {data : BitString} (packet : Packet)
    (h8 : data.length % 8 = 0) (hrounds : data.length < rounds) :
    ∃ parsed rest headers n,parseHeaders rounds headerCase data packet = some (parsed,rest) ∧
      parsed.headers = packet.headers ++ headers ∧ parsed.payload = packet.payload ∧ ReadAs headerCase data headers ∧
      Consumed headers data rest n := by
  induction rounds generalizing headerCase data packet with
  | zero => omega
  | succ rounds ih =>
    by_cases hset : headerCase = .headerNotSet
    · subst hset
      exact ⟨packet,data,[],0,by rw [parseHeaders],by simp,rfl,.stop rfl,.nil data⟩
    · cases hparse : parseHeader headerCase data with
      | error s => exact ⟨_,data,[],0,parseHeaders_of_error hset hparse,by simp,rfl,.stop hparse,.nil data⟩
      | ok result =>
        obtain ⟨header,mid⟩ := result
        obtain ⟨-,n,hread⟩ := parseHeader_spec hinet h8 hparse
        obtain ⟨next,hnext⟩ := getNextHeader_of_serialized hread.serialized
        cases next with
        | unsupported reason =>
          exact ⟨_,mid,[header],_,parseHeaders_of_unsupported packet hparse hnext,rfl,rfl,.last hparse hnext,
            .cons hread (.nil mid)⟩
        | supported next =>
          have hle := size_le_length data
          have hsize := hread.size
          have hpos := hread.pos
          have haligned := hread.aligned
          have hmid : mid.length = data.length - n := by rw [hread.rest,List.length_drop]
          obtain ⟨parsed,rest,headers,m,hloop,hheaders,hpayload,hreadas,hconsumed⟩ :=
            @ih next mid { packet with headers := packet.headers ++ [header] } (by omega) (by omega)
          exact ⟨parsed,rest,header :: headers,n + m,(parseHeaders_of_supported packet hparse hnext).trans hloop,
            by simp [hheaders],hpayload,.more hparse hnext hreadas,.cons hread hconsumed⟩

end Loop

section Extensions

theorem toHexString_natToBits {v w : Nat} (hv : v < 2 ^ n) (hw : w < 2 ^ n) :
    BitString.toHexString (natToBits n v) = BitString.toHexString (natToBits n w) ↔ v = w := by
  constructor
  · intro h
    have hread := hexStringToBitset_toHexString (length_natToBits n v)
    rw [h,hexStringToBitset_toHexString (length_natToBits n w),bitsToNat_natToBits hv,bitsToNat_natToBits hw] at hread
    exact (Except.ok.inj hread).symm
  · rintro rfl
    rfl

theorem toHexString_byte_eq (b c : UInt8) :
    BitString.toHexString (natToBits 8 b.toNat) = BitString.toHexString (natToBits 8 c.toNat) ↔ b = c := by
  rw [toHexString_natToBits b.toNat_lt c.toNat_lt,UInt8.toNat_inj]

private theorem size_bytesToBits {data : Bytes} (hlt : data.length < 2 ^ 28) : BitString.size (bytesToBits data) = 8 * data.length := by
  unfold BitString.size
  rw [length_bytesToBits,int32_of_lt (by omega)]
  omega

theorem aligned_bytesToBits (data : Bytes) : (bytesToBits data).length % 8 = 0 := by
  rw [length_bytesToBits]
  omega

/-- A hop-by-hop header that is parsed as the first one, and after it one of the headers
whose checksum depends on the header before. -/
def ChecksumAfterExtension (data : Bytes) (firstHeader : HeaderCase) : Prop :=
  firstHeader = .hopByHopOptionsHeader ∧ 16 ≤ data.length ∧ (data[0]? = some 0x11 ∨ data[0]? = some 0x3a) ∧ data[1]? = some 0

private theorem nextHeaderOfIpv6_eq_checksum {fieldName nextHeader : String}
    (hnext : next = .udpHeader ∨ next = .icmpHeader) :
    nextHeaderOfIpv6 fieldName nextHeader = .supported next ↔
      next = .udpHeader ∧ nextHeader = "0x11" ∨ next = .icmpHeader ∧ nextHeader = "0x3a" := by
  unfold nextHeaderOfIpv6
  rcases hnext with rfl | rfl
  · split_ifs <;> simp_all
  · split_ifs <;> simp_all

private theorem hopByHopGetNextHeader_eq_checksum {header : HopByHopOptionsHeader}
    (hnext : next = .udpHeader ∨ next = .icmpHeader) :
    getNextHeader (.hopByHopOptionsHeader header) = .ok (.supported next) ↔ header.headerExtensionLength = "0x00" ∧
      (next = .udpHeader ∧ header.nextHeader = "0x11" ∨ next = .icmpHeader ∧ header.nextHeader = "0x3a") := by
  rw [getNextHeader,Except.ok.injEq,HopByHopOptionsHeader.getNextHeader]
  by_cases hlength : header.headerExtensionLength = "0x00"
  · rw [if_neg (by simpa using hlength),nextHeaderOfIpv6_eq_checksum hnext,and_iff_right hlength]
  · simp [hlength]

variable [InetText]

theorem ReadAs.headerCase_head (hinet : InetText.Inverse)
    (h8 : data.length % 8 = 0) (h : ReadAs headerCase data (header :: headers)) :
    header.headerCase = headerCase := by
  cases h with
  | last hparse _ => exact (parseHeader_spec hinet h8 hparse).1
  | more hparse _ _ => exact (parseHeader_spec hinet h8 hparse).1

theorem hopByHop_print_next {b c : UInt8} {data : Bytes} (hnext : next = .udpHeader ∨ next = .icmpHeader) :
    getNextHeader (.hopByHopOptionsHeader (HopByHopOptionsHeader.layout.print (bytesToBits (b :: c :: data)))) =
      .ok (.supported next) ↔ c = 0 ∧ (next = .udpHeader ∧ b = 0x11 ∨ next = .icmpHeader ∧ b = 0x3a) := by
  have hnextHeader : (HopByHopOptionsHeader.layout.print (bytesToBits (b :: c :: data))).nextHeader =
      BitString.toHexString (natToBits 8 b.toNat) := by
    rw [bytesToBits_cons]
    change BitString.toHexString (List.take 8 _) = _
    rw [List.take_left' (length_natToBits 8 _)]
  have hlength : (HopByHopOptionsHeader.layout.print (bytesToBits (b :: c :: data))).headerExtensionLength =
      BitString.toHexString (natToBits 8 c.toNat) := by
    rw [bytesToBits_cons,bytesToBits_cons]
    change BitString.toHexString (List.take 8 (List.drop 8 _)) = _
    rw [List.drop_left' (length_natToBits 8 _),List.take_left' (length_natToBits 8 _)]
  have hzero : "0x00" = BitString.toHexString (natToBits 8 (0 : UInt8).toNat) := by decide
  have hudp : "0x11" = BitString.toHexString (natToBits 8 (0x11 : UInt8).toNat) := by decide
  have hicmp : "0x3a" = BitString.toHexString (natToBits 8 (0x3a : UInt8).toNat) := by decide
  rw [hopByHopGetNextHeader_eq_checksum hnext,hnextHeader,hlength,hzero,hudp,hicmp,toHexString_byte_eq,toHexString_byte_eq,
    toHexString_byte_eq]

private theorem parseHopByHop_of_le (h : ((64 : Nat) : Int) ≤ data.size) : parseHeader .hopByHopOptionsHeader data =
    .ok (.hopByHopOptionsHeader (HopByHopOptionsHeader.layout.print data),data.drop 64) :=
  map_eq_ok.mpr ⟨_,parseLayout_of_le h,rfl⟩

private theorem parseHopByHop_eq_ok
    (h : parseHeader .hopByHopOptionsHeader data = .ok (header,rest)) : ((64 : Nat) : Int) ≤ data.size ∧
      header = .hopByHopOptionsHeader (HopByHopOptionsHeader.layout.print data) ∧ rest = data.drop 64 := by
  obtain ⟨⟨parsed,tail⟩,hparse,heq⟩ := map_eq_ok.mp h
  cases heq
  obtain ⟨hsize,rfl,rfl⟩ := parseLayout_eq_ok hparse
  exact ⟨hsize,rfl,rfl⟩

theorem parse_checksumHeader (hcase : headerCase = .udpHeader ∨ headerCase = .icmpHeader)
    : (∃ result,parseHeader headerCase data = .ok result) ↔ ((64 : Nat) : Int) ≤ data.size := by
  rcases hcase with rfl | rfl
  · constructor
    · rintro ⟨result,h⟩
      obtain ⟨parsed,hparse,-⟩ := map_eq_ok.mp h
      exact (parseLayout_eq_ok hparse).1
    · intro h
      exact ⟨_,map_eq_ok.mpr ⟨_,parseLayout_of_le h,rfl⟩⟩
  · constructor
    · rintro ⟨result,h⟩
      obtain ⟨parsed,hparse,-⟩ := map_eq_ok.mp h
      exact (parseLayout_eq_ok hparse).1
    · intro h
      exact ⟨_,map_eq_ok.mpr ⟨_,parseLayout_of_le h,rfl⟩⟩

theorem ReadAs.ne_nil (h : ReadAs headerCase data headers) :
    headers ≠ [] ↔ ∃ result,parseHeader headerCase data = .ok result := by
  cases h with
  | stop h => simp [h]
  | last h hnext => simp [h]
  | more h hnext hrest => simp [h]

theorem ReadAs.extension_iff (hinet : InetText.Inverse) {data : Bytes}
    (hlt : data.length < 2 ^ 28) (hread : ReadAs firstHeader (bytesToBits data) headers) :
    (∃ first second more,headers = first :: second :: more ∧ first.headerCase = .hopByHopOptionsHeader ∧
      (second.headerCase = .udpHeader ∨ second.headerCase = .icmpHeader)) ↔ ChecksumAfterExtension data firstHeader := by
  have hsize := size_bytesToBits hlt
  have haligned := aligned_bytesToBits data
  have h8 : (List.drop 64 (bytesToBits data)).length % 8 = 0 := by
    rw [List.length_drop]
    omega
  constructor
  · rintro ⟨first,second,more,rfl,hfirst,hsecond⟩
    obtain rfl := (hread.headerCase_head hinet haligned).symm.trans hfirst
    cases hread with
    | @more _ next _ rest _ _ hparse hnext hrest =>
      obtain ⟨hle,rfl,rfl⟩ := parseHopByHop_eq_ok hparse
      rw [hrest.headerCase_head hinet h8] at hsecond
      have htwo := (parse_checksumHeader hsecond).mp (hrest.ne_nil.mp (List.cons_ne_nil _ _))
      rw [size_drop hle] at htwo
      have hlength : 16 ≤ data.length := by omega
      match data,hlength with
      | b :: c :: data,hlength =>
        obtain ⟨rfl,hbyte⟩ := (hopByHop_print_next hsecond).mp hnext
        exact ⟨rfl,hlength,hbyte.imp (fun h => congrArg some h.2) (fun h => congrArg some h.2),rfl⟩
  · rintro ⟨rfl,hlength,hbyte,hzero⟩
    have hle : ((64 : Nat) : Int) ≤ BitString.size (bytesToBits data) := by omega
    have hle' : ((64 : Nat) : Int) ≤ BitString.size (List.drop 64 (bytesToBits data)) := by
      rw [size_drop hle]
      omega
    obtain ⟨next,hnext,hcase⟩ : ∃ next,getNextHeader (.hopByHopOptionsHeader
        (HopByHopOptionsHeader.layout.print (bytesToBits data))) = .ok (.supported next) ∧
          (next = .udpHeader ∨ next = .icmpHeader) := by
      match data,hlength with
      | b :: c :: data,_ =>
        cases hzero
        rcases hbyte with hbyte | hbyte
        · cases hbyte
          exact ⟨.udpHeader,(hopByHop_print_next (.inl rfl)).mpr ⟨rfl,.inl ⟨rfl,rfl⟩⟩,.inl rfl⟩
        · cases hbyte
          exact ⟨.icmpHeader,(hopByHop_print_next (.inr rfl)).mpr ⟨rfl,.inr ⟨rfl,rfl⟩⟩,.inr rfl⟩
    have hparse' := parseHopByHop_of_le hle
    cases hread with
    | stop h => cases h.symm.trans hparse'
    | last h hunsupported =>
      cases h.symm.trans hparse'
      cases hunsupported.symm.trans hnext
    | @more _ _ _ _ _ headers h hsupported hrest =>
      cases h.symm.trans hparse'
      cases hsupported.symm.trans hnext
      cases headers with
      | nil => exact absurd rfl (hrest.ne_nil.mpr ((parse_checksumHeader hcase).mpr hle'))
      | cons second more =>
        exact ⟨_,second,more,rfl,rfl,by rw [hrest.headerCase_head hinet h8]; exact hcase⟩

end Extensions

section Validation

private theorem extensionBeforeChecksum_iff : ExtensionBeforeChecksum packet ↔
    ∃ first second more,packet.headers = first :: second :: more ∧ first.headerCase = .hopByHopOptionsHeader ∧
      (second.headerCase = .udpHeader ∨ second.headerCase = .icmpHeader) := by
  unfold ExtensionBeforeChecksum LeadingHopByHop
  rcases packet.headers with - | ⟨first,- | ⟨second,more⟩⟩
  · simp
  · simp
  · simp

theorem hexStringInvalidReasons_eq_nil {numBits : Nat} {hexString field : String} :
    hexStringInvalidReasons numBits hexString field = [] ↔ ∃ v,hexStringToBitset numBits hexString = .ok v := by
  unfold hexStringInvalidReasons
  rw [textInvalidReasons_eq_nil]
  constructor
  · exact fun h => h.2
  · rintro ⟨v,hv⟩
    obtain ⟨digits,hdigits,-⟩ := hexStringToBitset_eq_ok.mp hv
    exact ⟨hdigits.ne_empty,v,hv⟩

variable [InetText]

private theorem thrown_udpHeaderInvalidReasons {header : UdpHeader} (fieldPrefix : String)
    (hleading : LeadingHopByHop packet) (hchecksum : ∃ v,hexStringToBitset 16 header.checksum = .ok v) :
    Thrown (udpHeaderInvalidReasons header fieldPrefix packet 1) := by
  unfold udpHeaderInvalidReasons
  dsimp only
  rw [if_pos (List.isEmpty_iff.mpr (hexStringInvalidReasons_eq_nil.mpr hchecksum))]
  exact thrown_bind.mpr (.inl (thrown_catchStatus.mpr (thrown_udpHeaderChecksum hleading)))

private theorem thrown_icmpHeaderInvalidReasons (header : IcmpHeader) (fieldPrefix : String)
    (hleading : LeadingHopByHop packet) : Thrown (icmpHeaderInvalidReasons header fieldPrefix packet 1) := by
  unfold icmpHeaderInvalidReasons
  dsimp only
  rw [if_neg (by decide)]
  exact thrown_bind.mpr (.inr ⟨-1,findPrecedingIpHeader_leading hleading,thrown_bind.mpr (.inl ⟨_,rfl⟩)⟩)

private theorem thrown_packetInvalidReasons (hextension : ExtensionBeforeChecksum packet)
    (hwritten : ∀ header ∈ packet.headers,∃ bits,serializeHeader header = .ok bits) : Thrown (packetInvalidReasons packet) := by
  obtain ⟨hleading,header,hheader,hcase⟩ := hextension
  have hnonempty : packet.isEmpty = false := by
    have hne : packet.headers ≠ [] := by
      intro hnil
      rw [hnil] at hheader
      cases hheader
    simp [Packet.isEmpty,hne]
  obtain ⟨bits,hbits⟩ := hwritten header (List.mem_of_getElem? hheader)
  unfold packetInvalidReasons
  rw [if_neg (by simp [hnonempty])]
  refine thrown_bind.mpr (.inl (thrown_headersInvalidReasons hheader fun fieldPrefix => ?_))
  cases header with
  | udpHeader h =>
    obtain ⟨b,hb⟩ := serializedField hbits (show UdpHeader.layout.fields[3]? = some ⟨"checksum",.bits 16⟩ from rfl) rfl
    obtain ⟨v,hv,-⟩ := map_eq_ok.mp hb
    exact thrown_udpHeaderInvalidReasons fieldPrefix hleading ⟨v,hv⟩
  | icmpHeader h => exact thrown_icmpHeaderInvalidReasons h fieldPrefix hleading
  | _ => simp [Header.headerCase] at hcase

private theorem ethertypesReadable_of_serialized
    (hwritten : ∀ header ∈ packet.headers,∃ bits,serializeHeader header = .ok bits) : EthertypesReadable packet := by
  intro i header hheader _
  obtain ⟨bits,hbits⟩ := hwritten _ (List.mem_of_getElem? hheader)
  obtain ⟨v,hv⟩ :=
    exists_hexStringToInt hbits (show EthernetHeader.layout.fields[2]? = some ⟨"ethertype",.bits 16⟩ from rfl) rfl (by decide)
  exact ⟨v,hv⟩

private theorem headersInvalidReasons_ne_status {index : Nat} {expected : HeaderCase}
    (s : Status) : headersInvalidReasons packet index expected headers ≠ .error (.status s) := by
  induction headers generalizing index expected with
  | nil => simp [headersInvalidReasons]
  | cons header headers ih =>
    unfold headersInvalidReasons
    refine bind_ne_status (headerInvalidReasons_ne_status _ _ _ _ _) fun own => ?_
    split
    · exact bind_ne_status ih fun _ => by simp
    · exact bind_ne_status ih fun _ => by simp

private theorem packetInvalidReasons_ne_status (packet : Packet) (s : Status) : packetInvalidReasons packet ≠ .error (.status s) := by
  unfold packetInvalidReasons
  split
  · simp
  · exact bind_ne_status (headersInvalidReasons_ne_status s) fun _ => by simp

private theorem packetInvalidReasons_ok_iff {packet : Packet}
    (hwritten : ∀ header ∈ packet.headers,∃ bits,serializeHeader header = .ok bits) :
    (∃ reasons,packetInvalidReasons packet = .ok reasons) ↔ ¬ ExtensionBeforeChecksum packet := by
  constructor
  · rintro ⟨reasons,h⟩ hextension
    obtain ⟨what,hthrown⟩ := thrown_packetInvalidReasons hextension hwritten
    cases h.symm.trans hthrown
  · intro hextension
    have hnot := not_thrown_packetInvalidReasons hextension (ethertypesReadable_of_serialized hwritten)
    rcases h : packetInvalidReasons packet with (s | what) | reasons
    · exact absurd h (packetInvalidReasons_ne_status packet s)
    · exact absurd ⟨what,h⟩ hnot
    · exact ⟨reasons,rfl⟩

private theorem serializeHeader_of_mem {i : Nat} (h : serializeHeaders i headers = .ok bits) :
    ∀ header ∈ headers,∃ b,serializeHeader header = .ok b := by
  induction headers generalizing i bits with
  | nil => simp
  | cons header headers ih =>
    obtain ⟨b,hb,h⟩ := bind_eq_ok.mp h
    obtain ⟨rest,hrest,-⟩ := bind_eq_ok.mp h
    exact List.forall_mem_cons.mpr ⟨⟨b,mapError_eq_ok.mp hb⟩,ih hrest⟩

end Validation

section Main
variable [InetText]

/-- Parsing gives a packet that is written as the data, has their size, and is valid unless
it says why not. -/
def Lossless (data : Bytes) (firstHeader : HeaderCase) : Prop :=
  ∃ packet,parsePacket data firstHeader = .ok packet ∧ rawSerializePacket packet = .ok data ∧
    packetSizeInBits packet 0 = .ok (8 * data.length) ∧ (packet.reasonsInvalid = [] → validatePacket packet = .ok ())

theorem parsePacket_eq {data : Bytes} {parsed : Packet}
    (hloop : parseHeaders ((bytesToBits data).length + 1) firstHeader (bytesToBits data) {} = some (parsed,rest)) :
    parsePacket data firstHeader = (do
      let payload ← catchStatus rest.toByteString
      let invalid ← packetInvalidReasons (setPayload parsed payload)
      .ok { setPayload parsed payload with reasonsInvalid := (setPayload parsed payload).reasonsInvalid ++ invalid }) := by
  rw [parsePacket,hloop]

private theorem rawSerializeFrom_zero (h : serializeHeaders 0 packet.headers = .ok bits) :
    rawSerializeFrom packet 0 = .ok (bits ++ bytesToBits packet.payload) := by
  unfold rawSerializeFrom
  rw [if_neg (by omega)]
  simp only [Int.toNat_zero,List.drop_zero,h,bind,Except.bind]

theorem rawSerializePacket_eq (h : serializeHeaders 0 packet.headers = .ok bits) :
    rawSerializePacket packet = BitString.toByteString (bits ++ bytesToBits packet.payload) := by
  unfold rawSerializePacket
  simp only [rawSerializeFrom_zero h,orFail,Except.mapError,bind,Except.bind]

omit [InetText] in
theorem packetSizeInBits_zero {sizes : List Nat} (h : packet.headers.mapM headerSizeInBits = .ok sizes) :
    packetSizeInBits packet 0 = .ok (int32 ((sizes.sum + 8 * packet.payload.length : Nat) : Int)) := by
  unfold packetSizeInBits bitsFrom
  rw [if_neg (by omega)]
  simp only [Int.toNat_zero,List.drop_zero,h]
  rfl

private theorem validatePacket_of_nil (h : packetInvalidReasons packet = .ok []) : validatePacket packet = .ok () := by
  unfold validatePacket
  rw [h]
  rfl

private theorem written_of_consumed {data : Bytes} {packet : Packet} {rest : BitString} {n : Nat} (hlt : data.length < 2 ^ 28)
    (hconsumed : Consumed packet.headers (bytesToBits data) rest n) (hrest8 : rest.length % 8 = 0)
    (hpayload : packet.payload = bitsToBytes rest) :
    rawSerializePacket packet = .ok data ∧ packetSizeInBits packet 0 = .ok (8 * data.length) := by
  obtain ⟨sizes,hsizes,hsum⟩ := hconsumed.measured
  have hlength := hconsumed.length
  rw [length_bytesToBits] at hlength
  have hrestLength : rest.length = 8 * data.length - n := by
    rw [hconsumed.remaining,List.length_drop,length_bytesToBits]
  have hbits : (bytesToBits data).take n ++ bytesToBits packet.payload = bytesToBits data := by
    rw [hpayload,bytesToBits_bitsToBytes hrest8,hconsumed.remaining,List.take_append_drop]
  constructor
  · rw [rawSerializePacket_eq (hconsumed.serialized 0),hbits,
      toByteString_of_lt (aligned_bytesToBits data) (by rw [length_bytesToBits]; omega),bitsToBytes_bytesToBits]
  · have htotal : sizes.sum + 8 * packet.payload.length = 8 * data.length := by
      rw [hsum,hpayload,length_bitsToBytes hrest8,hrestLength]
      omega
    rw [packetSizeInBits_zero hsizes,htotal,int32_of_lt (by omega)]
    push_cast
    rfl

private theorem lossless_of_lt (hinet : InetText.Inverse) {data : Bytes} (hlt : data.length < 2 ^ 28) :
    Lossless data firstHeader ↔ ¬ ChecksumAfterExtension data firstHeader := by
  obtain ⟨parsed,rest,headers,n,hloop,hheaders,-,hread,hconsumed⟩ :=
    @parseHeaders_spec _ hinet _ firstHeader _ {} (aligned_bytesToBits data) (Nat.lt_succ_self _)
  obtain rfl : parsed.headers = headers := hheaders
  have hlength := hconsumed.length
  have haligned := hconsumed.aligned
  rw [length_bytesToBits] at hlength
  have hrestLength : rest.length = 8 * data.length - n := by
    rw [hconsumed.remaining,List.length_drop,length_bytesToBits]
  have hrest8 : rest.length % 8 = 0 := by omega
  have hpayload := toByteString_of_lt hrest8 (by omega)
  have hparse := parsePacket_eq hloop
  rw [hpayload,catchStatus] at hparse
  let packet := setPayload parsed (.ok (bitsToBytes rest))
  have hcheck := @packetInvalidReasons_ok_iff _ packet (serializeHeader_of_mem (hconsumed.serialized 0))
  rw [extensionBeforeChecksum_iff] at hcheck
  rw [← hread.extension_iff hinet hlt]
  refine Iff.trans ?_ hcheck
  constructor
  · rintro ⟨result,hresult,-⟩
    obtain ⟨payload,hok,hrest⟩ := bind_eq_ok.mp (hparse.symm.trans hresult)
    cases hok
    obtain ⟨reasons,hreasons,-⟩ := bind_eq_ok.mp hrest
    exact ⟨reasons,hreasons⟩
  · rintro ⟨reasons,hreasons⟩
    have hresult : parsePacket data firstHeader = .ok { packet with reasonsInvalid := packet.reasonsInvalid ++ reasons } := by
      rw [hparse]
      exact bind_eq_ok.mpr ⟨_,rfl,bind_eq_ok.mpr ⟨reasons,hreasons,rfl⟩⟩
    obtain ⟨hwritten,hsize⟩ := @written_of_consumed _ data { packet with reasonsInvalid := packet.reasonsInvalid ++ reasons } _ _
      hlt hconsumed hrest8 rfl
    refine ⟨_,hresult,hwritten,hsize,fun hnone => validatePacket_of_nil ?_⟩
    obtain ⟨hparsed,rfl⟩ := List.append_eq_nil_iff.mp hnone
    rw [List.append_nil]
    exact hreasons

omit [InetText] in
private theorem written_lt {m : Nat} (hsize : rest.size = data.size - n) (hm : rest.size = m) : n + m < 2 ^ 31 := by
  have hbound := (int32_bounds data.length).2
  have hdata : int32 data.length = (n + m : Nat) := by
    change BitString.size data = _
    omega
  rw [hdata] at hbound
  exact_mod_cast hbound

omit [InetText] in
private theorem caught_toByteString {payload : StatusOr Bytes} (h8 : data.length % 8 = 0)
    (h : catchStatus data.toByteString = .ok payload) :
    0 ≤ data.size ∧ payload = .ok (bitsToBytes (data.take data.size.toNat)) := by
  have hmod : data.size % 8 = data.length % 8 := int32_emod_eight _
  unfold BitString.toByteString at h
  rw [if_neg (by omega)] at h
  by_cases hneg : data.size < 0
  · rw [if_pos hneg] at h
    cases h
  · rw [if_neg hneg] at h
    cases h
    exact ⟨by omega,rfl⟩

theorem parsePacket_eq_ok (hinet : InetText.Inverse) {data : Bytes} (h : parsePacket data firstHeader = .ok packet) :
    ∃ bits sizes,serializeHeaders 0 packet.headers = .ok bits ∧ packet.headers.mapM headerSizeInBits = .ok sizes ∧
      sizes.sum = bits.length ∧ bits.length % 8 = 0 ∧ bits.length + 8 * packet.payload.length < 2 ^ 31 := by
  obtain ⟨parsed,rest,headers,n,hloop,hheaders,-,-,hconsumed⟩ :=
    @parseHeaders_spec _ hinet _ firstHeader _ {} (aligned_bytesToBits data) (Nat.lt_succ_self _)
  obtain rfl : parsed.headers = headers := hheaders
  have hlength := hconsumed.length
  have haligned := hconsumed.aligned
  obtain ⟨sizes,hsizes,hsum⟩ := hconsumed.measured
  have hrestLength : rest.length = (bytesToBits data).length - n := by rw [hconsumed.remaining,List.length_drop]
  have hdata8 := aligned_bytesToBits data
  have hrest8 : rest.length % 8 = 0 := by omega
  obtain ⟨payload,hcaught,hrest⟩ := bind_eq_ok.mp ((parsePacket_eq hloop).symm.trans h)
  obtain ⟨hpos,rfl⟩ := caught_toByteString hrest8 hcaught
  obtain ⟨m,hm⟩ := Int.eq_ofNat_of_zero_le hpos
  rw [hm,Int.toNat_natCast] at hrest
  obtain ⟨reasons,-,hok⟩ := bind_eq_ok.mp hrest
  have hheaders : packet.headers = parsed.headers := by
    cases hok
    rfl
  have hpayload : packet.payload = bitsToBytes (rest.take m) := by
    cases hok
    rfl
  have htake : (rest.take m).length = m := length_take_of_le (by rw [hm])
  have hm8 : m % 8 = 0 := by
    have hmod : rest.size % 8 = rest.length % 8 := int32_emod_eight _
    rw [hm] at hmod
    omega
  have hbound := written_lt hconsumed.size hm
  have hlengths := length_bitsToBytes (show (rest.take m).length % 8 = 0 by rw [htake]; exact hm8)
  have hwritten : ((bytesToBits data).take n).length = n := by rw [List.length_take,min_eq_left hlength]
  rw [htake,← hpayload] at hlengths
  refine ⟨_,sizes,?_,?_,hsum.trans hwritten.symm,by omega,by omega⟩
  · rw [hheaders]
    exact hconsumed.serialized 0
  · rw [hheaders]
    exact hsizes

private theorem not_lossless_of_ge (hinet : InetText.Inverse) {data : Bytes} (hge : 2 ^ 28 ≤ data.length) :
    ¬ Lossless data firstHeader := by
  rintro ⟨packet,hparsed,hwritten,-⟩
  obtain ⟨bits,-,hbits,-,-,h8,hlt⟩ := parsePacket_eq_ok hinet hparsed
  have hlength : (bits ++ bytesToBits packet.payload).length = bits.length + 8 * packet.payload.length := by
    rw [List.length_append,length_bytesToBits]
  have haligned : (bits ++ bytesToBits packet.payload).length % 8 = 0 := by omega
  rw [rawSerializePacket_eq hbits,toByteString_of_lt haligned (by omega)] at hwritten
  have hlengths := length_bitsToBytes haligned
  rw [Except.ok.inj hwritten] at hlengths
  omega

/-- Parsing is lossless exactly for data whose size in bits fits an `int`, unless a checksum
is looked for right after a hop-by-hop header that nothing precedes. -/
theorem lossless_iff (hinet : InetText.Inverse) (data : Bytes) (firstHeader : HeaderCase) :
    Lossless data firstHeader ↔ data.length < 2 ^ 28 ∧ ¬ ChecksumAfterExtension data firstHeader := by
  by_cases hlt : data.length < 2 ^ 28
  · rw [lossless_of_lt hinet hlt,and_iff_right hlt]
  · exact iff_of_false (not_lossless_of_ge hinet (by omega)) fun h => hlt h.1

end Main

attribute [local instance] uncompressedInet

def extensionThenUdp : Bytes := [0x11,0,0,0,0,0,0,0,0,0,0,0,0,0,0,0]

/-- Two bytes in a UDP datagram, over IPv4 and Ethernet. -/
def udpFrame : Bytes :=
  [0,0,0,0,0,2,0,0,0,0,0,1,8,0,0x45,0,0,30,0,0,0,0,64,17,0x66,0xcd,10,0,0,1,10,0,0,2,0,7,0,9,0,10,0,0,1,2]

theorem udpFrame_lossless : Lossless udpFrame .ethernetHeader :=
  (lossless_iff uncompressedInet_inverse _ _).mpr ⟨by decide,fun h => by cases h.1⟩

theorem extensionThenUdp_lost : ¬ Lossless extensionThenUdp .hopByHopOptionsHeader := by
  rintro ⟨packet,hparse,-⟩
  have hcrash : parsePacket extensionThenUdp .hopByHopOptionsHeader = .error (.thrown "packet.headers: index out of bounds") := by
    decide +kernel
  cases hparse.symm.trans hcrash

end SonicPins.Packetlib
