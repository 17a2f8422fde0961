import SonicPins.Packetlib.Lossless

/-! What parsing makes of a header that was written: the same values in canonical texts. -/
namespace SonicPins.Packetlib
open Lib Pdpi

variable {H : Type} {v numBits : Nat} {r' r : FieldFormat → String → String → Prop} {format : FieldFormat}
  {text text' : String} {header' : Header} {rest bits : BitString}

def FieldsRelated (related : FieldFormat → String → String → Prop) : List FieldSpec → List String → List String → Prop
  | [],[],[] => True
  | field :: fields,text :: texts,text' :: texts' =>
    related field.format text text' ∧ FieldsRelated related fields texts texts'
  | _,_,_ => False

abbrev LayoutRelated (related : FieldFormat → String → String → Prop) {H : Type} (layout : HeaderLayout H) (header header' : H) : Prop :=
  FieldsRelated related layout.fields (layout.texts header) (layout.texts header')

/-- A field that may be left out. -/
def OptionalRelated (related : FieldFormat → String → String → Prop) (format : FieldFormat) (text text' : String) : Prop :=
  text = "" ∧ text' = "" ∨ related format text text'

/-- Headers of the same kind whose fields and options are related. -/
inductive HeaderRelated (related : FieldFormat → String → String → Prop) (options : String → String → Prop) : Header → Header → Prop
  | ethernetHeader {h h' : EthernetHeader} (fields : LayoutRelated related EthernetHeader.layout h h') :
    HeaderRelated related options (.ethernetHeader h) (.ethernetHeader h')
  | ipv6Header {h h' : Ipv6Header} (fields : LayoutRelated related Ipv6Header.layout h h') :
    HeaderRelated related options (.ipv6Header h) (.ipv6Header h')
  | hopByHopOptionsHeader {h h' : HopByHopOptionsHeader} (fields : LayoutRelated related HopByHopOptionsHeader.layout h h') :
    HeaderRelated related options (.hopByHopOptionsHeader h) (.hopByHopOptionsHeader h')
  | udpHeader {h h' : UdpHeader} (fields : LayoutRelated related UdpHeader.layout h h') :
    HeaderRelated related options (.udpHeader h) (.udpHeader h')
  | arpHeader {h h' : ArpHeader} (fields : LayoutRelated related ArpHeader.layout h h') :
    HeaderRelated related options (.arpHeader h) (.arpHeader h')
  | icmpHeader {h h' : IcmpHeader} (fields : LayoutRelated related IcmpHeader.layout h h') :
    HeaderRelated related options (.icmpHeader h) (.icmpHeader h')
  | vlanHeader {h h' : VlanHeader} (fields : LayoutRelated related VlanHeader.layout h h') :
    HeaderRelated related options (.vlanHeader h) (.vlanHeader h')
  | csigHeader {h h' : CsigHeader} (fields : LayoutRelated related CsigHeader.layout h h') :
    HeaderRelated related options (.csigHeader h) (.csigHeader h')
  | saiP4Bmv2PacketInHeader {h h' : SaiP4BMv2PacketInHeader} (fields : LayoutRelated related SaiP4BMv2PacketInHeader.layout h h') :
    HeaderRelated related options (.saiP4Bmv2PacketInHeader h) (.saiP4Bmv2PacketInHeader h')
  | ipfixHeader {h h' : IpfixHeader} (fields : LayoutRelated related IpfixHeader.layout h h') :
    HeaderRelated related options (.ipfixHeader h) (.ipfixHeader h')
  | psampHeader {h h' : PsampHeader} (fields : LayoutRelated related PsampHeader.layout h h') :
    HeaderRelated related options (.psampHeader h) (.psampHeader h')
  | ptpHeader {h h' : PtpHeader} (fields : LayoutRelated related PtpHeader.layout h h') :
    HeaderRelated related options (.ptpHeader h) (.ptpHeader h')
  | pspHeader {h h' : PspHeader} (fields : LayoutRelated related PspHeader.layout h h') :
    HeaderRelated related options (.pspHeader h) (.pspHeader h')
  | ipv4Header {h h' : Ipv4Header} (fields : LayoutRelated related Ipv4Header.layout h h')
    (uninterpreted : options h.uninterpretedOptions h'.uninterpretedOptions) :
    HeaderRelated related options (.ipv4Header h) (.ipv4Header h')
  | tcpHeader {h h' : TcpHeader} (fields : LayoutRelated related TcpHeader.layout h h')
    (uninterpreted : options h.uninterpretedOptions h'.uninterpretedOptions) :
    HeaderRelated related options (.tcpHeader h) (.tcpHeader h')
  | greHeader {h h' : GreHeader} (fields : LayoutRelated related GreHeader.layout h h')
    (checksum : OptionalRelated related (.bits 16) h.checksum h'.checksum)
    (reserved1 : OptionalRelated related (.bits 16) h.reserved1 h'.reserved1) :
    HeaderRelated related options (.greHeader h) (.greHeader h')

theorem FieldsRelated.mono (h : ∀ format text text',r format text text' →
    r' format text text') {fields : List FieldSpec} {texts texts' : List String} (hrel : FieldsRelated r fields texts texts') :
    FieldsRelated r' fields texts texts' := by
  induction fields generalizing texts texts' with
  | nil =>
    match texts,texts',hrel with
    | [],[],_ => trivial
  | cons field fields ih =>
    match texts,texts',hrel with
    | text :: texts,text' :: texts',hrel => exact ⟨h _ _ _ hrel.1,ih hrel.2⟩

theorem OptionalRelated.mono (h : ∀ format text text',r format text text' →
    r' format text text') (hrel : OptionalRelated r format text text') :
    OptionalRelated r' format text text' := hrel.imp_right (h _ _ _)

theorem HeaderRelated.mono {o o' : String → String → Prop}
    (h : ∀ format text text',r format text text' → r' format text text') (ho : ∀ text text',o text text' → o' text text')
    {header : Header} (hrel : HeaderRelated r o header header') : HeaderRelated r' o' header header' := by
  cases hrel with
  | ipv4Header fields uninterpreted => exact .ipv4Header (fields.mono h) (ho _ _ uninterpreted)
  | tcpHeader fields uninterpreted => exact .tcpHeader (fields.mono h) (ho _ _ uninterpreted)
  | greHeader fields checksum reserved1 => exact .greHeader (fields.mono h) (checksum.mono h) (reserved1.mono h)
  | ethernetHeader fields => exact .ethernetHeader (fields.mono h)
  | ipv6Header fields => exact .ipv6Header (fields.mono h)
  | hopByHopOptionsHeader fields => exact .hopByHopOptionsHeader (fields.mono h)
  | udpHeader fields => exact .udpHeader (fields.mono h)
  | arpHeader fields => exact .arpHeader (fields.mono h)
  | icmpHeader fields => exact .icmpHeader (fields.mono h)
  | vlanHeader fields => exact .vlanHeader (fields.mono h)
  | csigHeader fields => exact .csigHeader (fields.mono h)
  | saiP4Bmv2PacketInHeader fields => exact .saiP4Bmv2PacketInHeader (fields.mono h)
  | ipfixHeader fields => exact .ipfixHeader (fields.mono h)
  | psampHeader fields => exact .psampHeader (fields.mono h)
  | ptpHeader fields => exact .ptpHeader (fields.mono h)
  | pspHeader fields => exact .pspHeader (fields.mono h)

theorem HeaderRelated.headerCase {o : String → String → Prop}
    {header : Header} (hrel : HeaderRelated r o header header') : header'.headerCase = header.headerCase := by
  cases hrel <;> rfl

section Values
variable [InetText]

def SameField (format : FieldFormat) (text text' : String) : Prop :=
  ∃ bits,serializeField format text = .ok bits ∧ serializeField format text' = .ok bits

def SameOptions (options options' : String) : Prop :=
  ∃ bits,serializeOptions options = .ok bits ∧ serializeOptions options' = .ok bits

/-- The same kind of header with numerically equal fields and options. -/
def SameValues : Header → Header → Prop := HeaderRelated SameField SameOptions

/-- A text, and the one that parsing makes of its bits. -/
def ReprintedField (format : FieldFormat) (text text' : String) : Prop :=
  ∃ bits,serializeField format text = .ok bits ∧ text' = format.print bits

def printOptions (bits : BitString) : String := if bits = [] then "" else bits.toHexString

def ReprintedOptions (options options' : String) : Prop :=
  ∃ bits,serializeOptions options = .ok bits ∧ options' = printOptions bits

def Reprinted : Header → Header → Prop := HeaderRelated ReprintedField ReprintedOptions

theorem length_serializeField (h : serializeField format text = .ok bits) : bits.length = format.width := by
  cases format with
  | bits n =>
    obtain ⟨v,-,rfl⟩ := map_eq_ok.mp h
    exact length_natToBits n v
  | mac =>
    obtain ⟨a,-,rfl⟩ := map_eq_ok.mp h
    exact length_natToBits 48 _
  | ipv4 =>
    obtain ⟨a,-,rfl⟩ := map_eq_ok.mp h
    exact length_natToBits 32 _
  | ipv6 =>
    obtain ⟨a,-,rfl⟩ := map_eq_ok.mp h
    exact length_natToBits 128 _

theorem ReprintedField.same (hinet : InetText.Inverse)
    (h : ReprintedField format text text') : SameField format text text' := by
  obtain ⟨bits,hbits,rfl⟩ := h
  exact ⟨bits,hbits,serializeField_print hinet (length_serializeField hbits)⟩

omit [InetText] in
theorem serializeOptions_eq_ok {options : String} (h : serializeOptions options = .ok bits) :
    bits.length % 8 = 0 ∧ serializeOptions (printOptions bits) = .ok bits := by
  have h8 : bits.length % 8 = 0 := by
    unfold serializeOptions at h
    split at h
    · cases h
      rfl
    · obtain ⟨bytes,-,rfl⟩ := map_eq_ok.mp h
      exact aligned_bytesToBits bytes
  refine ⟨h8,?_⟩
  unfold printOptions
  split
  · subst bits
    rfl
  · rw [serializeOptions,if_neg (by simp [toHexString_not_empty]),serializeHexString,hexStringToByteString_toHexString h8]
    exact congrArg Except.ok (bytesToBits_bitsToBytes h8)

omit [InetText] in
theorem ReprintedOptions.same {options options' : String} (h : ReprintedOptions options options') :
    SameOptions options options' := by
  obtain ⟨bits,hbits,rfl⟩ := h
  exact ⟨bits,hbits,(serializeOptions_eq_ok hbits).2⟩

theorem Reprinted.same (hinet : InetText.Inverse) {header : Header} (h : Reprinted header header') :
    SameValues header header' := h.mono (fun _ _ _ => ReprintedField.same hinet) fun _ _ => ReprintedOptions.same

private theorem reprinted_printFields {fields : List FieldSpec} {texts : List String} (rest : BitString)
    (hlen : texts.length = fields.length) (h : serializeFields fields texts = .ok bits) :
    bits.length = totalWidth fields ∧ FieldsRelated ReprintedField fields texts (printFields fields (bits ++ rest)) := by
  induction fields generalizing texts bits with
  | nil =>
    obtain rfl := List.length_eq_zero_iff.mp hlen
    cases h
    exact ⟨rfl,trivial⟩
  | cons field fields ih =>
    cases texts with
    | nil => cases hlen
    | cons text texts =>
      obtain ⟨first,hfirst,h⟩ := bind_eq_ok.mp h
      obtain ⟨others,hothers,h⟩ := bind_eq_ok.mp h
      cases h
      have hwidth := length_serializeField hfirst
      obtain ⟨hlength,hrelated⟩ := ih (by simpa using hlen) hothers
      refine ⟨by rw [List.length_append,hwidth,hlength,totalWidth_cons],?_,?_⟩
      · rw [List.append_assoc,List.take_left' hwidth]
        exact ⟨first,hfirst,rfl⟩
      · rw [List.append_assoc,List.drop_left' hwidth]
        exact hrelated

theorem reprinted_print {layout : HeaderLayout H} {header : H} (rest : BitString)
    (h : serializeLayout layout header = .ok bits) :
    bits.length = layout.bitwidth ∧ LayoutRelated ReprintedField layout header (layout.print (bits ++ rest)) := by
  obtain ⟨hlength,hrelated⟩ := reprinted_printFields rest (layout.length_texts header) h
  refine ⟨hlength.trans layout.width_fields,?_⟩
  rw [LayoutRelated,layout.texts_print]
  exact hrelated

end Values
variable [InetText]

theorem ReprintedField.bitset (h : ReprintedField (.bits numBits) text text')
    (hv : hexStringToBitset numBits text = .ok v) : hexStringToBitset numBits text' = .ok v := by
  obtain ⟨bits,hbits,rfl⟩ := h
  obtain ⟨w,hw,rfl⟩ := map_eq_ok.mp hbits
  cases hw.symm.trans hv
  obtain ⟨-,-,-,-,hlt⟩ := hexStringToBitset_eq_ok.mp hv
  rw [FieldFormat.print,hexStringToBitset_toHexString (length_natToBits _ _),bitsToNat_natToBits hlt]

omit [InetText] in
theorem size_of_lt {data : BitString} (h : data.length < 2 ^ 31) : data.size = data.length := int32_of_lt h

theorem parseLayout_of_written {layout : HeaderLayout H} {header : H}
    (hwritten : serializeLayout layout header = .ok bits) (hlt : (bits ++ rest).length < 2 ^ 31) :
    ∃ header',parseLayout layout (bits ++ rest) = .ok (header',rest) ∧ LayoutRelated ReprintedField layout header header' ∧
      header' = layout.print (bits ++ rest) := by
  obtain ⟨hlength,hrelated⟩ := reprinted_print rest hwritten
  have hsize : (layout.bitwidth : Int) ≤ BitString.size (bits ++ rest) := by
    rw [size_of_lt hlt,List.length_append,hlength]
    omega
  refine ⟨_,?_,hrelated,rfl⟩
  rw [parseLayout_of_le hsize,List.drop_left' hlength]

theorem asHeader_of_written {layout : HeaderLayout H} {header : H} (toHeader : H → Header)
    (hwritten : serializeLayout layout header = .ok bits) (hlt : (bits ++ rest).length < 2 ^ 31) :
    ∃ header',asHeader toHeader (parseLayout layout (bits ++ rest)) = .ok (toHeader header',rest) ∧
      LayoutRelated ReprintedField layout header header' := by
  obtain ⟨header',hparse,hrelated,-⟩ := parseLayout_of_written hwritten hlt
  exact ⟨header',by rw [hparse]; rfl,hrelated⟩

/-- Options of the length in words that a header length announces. -/
def OptionsAnnounced (options headerLength : String) : Prop :=
  ∃ words bits,serializeOptions options = .ok bits ∧ bits.length = 32 * words ∧
    hexStringToBitset 4 headerLength = .ok (5 + words)

omit [InetText] in
theorem parseOptions_of_announced {headerLength : String} {options : BitString} {words : Nat}
    (hwords : hexStringToBitset 4 headerLength = .ok (5 + words)) (hlength : options.length = 32 * words)
    (hlt : (options ++ rest).length < 2 ^ 31) : parseOptions headerLength (options ++ rest) = (printOptions options,rest) := by
  have hint := hexStringToInt_of_bitset (by decide) hwords
  rw [parseOptions,hint]
  dsimp only
  unfold printOptions
  by_cases hzero : words = 0
  · subst hzero
    obtain rfl := List.length_eq_zero_iff.mp hlength
    rw [if_neg (by decide),if_pos rfl]
    rfl
  · have hne : options ≠ [] := by
      rintro rfl
      simp at hlength
      omega
    have hwidth : (32 : Int) * ((5 + words : Nat) - 5) = (32 * words : Nat) := by
      push_cast
      ring
    have hsize : ((32 * words : Nat) : Int) ≤ BitString.size (options ++ rest) := by
      rw [size_of_lt hlt,List.length_append,hlength]
      omega
    rw [if_pos (by omega),if_neg hne,hwidth,if_neg (by omega),parseBits_of_le hsize,List.take_left' hlength,
      List.drop_left' hlength]

private theorem parseIpv4_of_written {header : Ipv4Header}
    (hannounced : OptionsAnnounced header.uninterpretedOptions header.ihl) (hwritten : serializeIpv4Header header = .ok bits)
    (hlt : (bits ++ rest).length < 2 ^ 31) : ∃ header',parseIpv4Header (bits ++ rest) = .ok (header',rest) ∧
      LayoutRelated ReprintedField Ipv4Header.layout header header' ∧
      ReprintedOptions header.uninterpretedOptions header'.uninterpretedOptions := by
  obtain ⟨fixed,hfixed,hwritten⟩ := bind_eq_ok.mp hwritten
  obtain ⟨options,hoptions,hwritten⟩ := bind_eq_ok.mp hwritten
  cases hwritten
  obtain ⟨words,options',hoptions',hlength,hwords⟩ := hannounced
  cases hoptions.symm.trans hoptions'
  rw [List.append_assoc] at hlt ⊢
  obtain ⟨header',hparse,hrelated,-⟩ := parseLayout_of_written hfixed hlt
  have hihl : ReprintedField (.bits 4) header.ihl header'.ihl := hrelated.2.1
  have hrest := parseOptions_of_announced (hihl.bitset hwords) hlength
    (show (options ++ rest).length < 2 ^ 31 by rw [List.length_append] at hlt; omega)
  refine ⟨{ header' with uninterpretedOptions := printOptions options },?_,hrelated,options,hoptions,rfl⟩
  rw [parseIpv4Header,hparse]
  simp only [bind,Except.bind,hrest]

private theorem parseTcp_of_written {header : TcpHeader}
    (hannounced : OptionsAnnounced header.uninterpretedOptions header.dataOffset) (hwritten : serializeTcpHeader header = .ok bits)
    (hlt : (bits ++ rest).length < 2 ^ 31) : ∃ header',parseTcpHeader (bits ++ rest) = .ok (header',rest) ∧
      LayoutRelated ReprintedField TcpHeader.layout header header' ∧
      ReprintedOptions header.uninterpretedOptions header'.uninterpretedOptions := by
  obtain ⟨fixed,hfixed,hwritten⟩ := bind_eq_ok.mp hwritten
  obtain ⟨options,hoptions,hwritten⟩ := bind_eq_ok.mp hwritten
  cases hwritten
  obtain ⟨words,options',hoptions',hlength,hwords⟩ := hannounced
  cases hoptions.symm.trans hoptions'
  rw [List.append_assoc] at hlt ⊢
  obtain ⟨header',hparse,hrelated,-⟩ := parseLayout_of_written hfixed hlt
  have hoffset : ReprintedField (.bits 4) header.dataOffset header'.dataOffset := hrelated.2.2.2.2.1
  have hrest := parseOptions_of_announced (hoffset.bitset hwords) hlength
    (show (options ++ rest).length < 2 ^ 31 by rw [List.length_append] at hlt; omega)
  refine ⟨{ header' with uninterpretedOptions := printOptions options },?_,hrelated,options,hoptions,rfl⟩
  rw [parseTcpHeader,hparse]
  simp only [bind,Except.bind,hrest]

/-- Optional fields of two bytes if the first bit announces them, otherwise none. -/
def GreFieldsAnnounced (header : GreHeader) : Prop :=
  if header.checksumPresent = "0x1" then
    (∃ v,hexStringToBitset 16 header.checksum = .ok v) ∧ ∃ v,hexStringToBitset 16 header.reserved1 = .ok v
  else header.checksum = "" ∧ header.reserved1 = ""

omit [InetText] in
theorem serializeHexString_of_bitset (h8 : numBits % 8 = 0) {hexString : String}
    (h : hexStringToBitset numBits hexString = .ok v) : serializeHexString hexString = .ok (natToBits numBits v) := by
  obtain ⟨bytes,hbytes,hbits⟩ := hexStringToByteString_of_bitset h8 h
  rw [serializeHexString,hbytes,← hbits]
  rfl

theorem ReprintedField.canonical (h : ReprintedField (.bits numBits) text text')
    (hv : hexStringToBitset numBits text = .ok v) : text' = BitString.toHexString (natToBits numBits v) := by
  obtain ⟨bits,hbits,rfl⟩ := h
  obtain ⟨w,hw,rfl⟩ := map_eq_ok.mp hbits
  cases hw.symm.trans hv
  rfl

theorem ReprintedField.bit (h : ReprintedField (.bits 1) text text') : text' = text := by
  obtain ⟨bits,hbits,-⟩ := id h
  obtain ⟨v,hv,-⟩ := map_eq_ok.mp hbits
  rw [h.canonical hv,bit_text hv]

theorem reprintedField_of_bitset (h : hexStringToBitset numBits text = .ok v) :
    ReprintedField (.bits numBits) text (BitString.toHexString (natToBits numBits v)) :=
  ⟨natToBits numBits v,by rw [serializeField,h]; rfl,rfl⟩

private theorem parseGre_of_written {header : GreHeader} (hannounced : GreFieldsAnnounced header)
    (hwritten : serializeGreHeader header = .ok bits) (hlt : (bits ++ rest).length < 2 ^ 31) :
    ∃ header',parseGreHeader (bits ++ rest) = .ok (header',rest) ∧ LayoutRelated ReprintedField GreHeader.layout header header' ∧
      OptionalRelated ReprintedField (.bits 16) header.checksum header'.checksum ∧
      OptionalRelated ReprintedField (.bits 16) header.reserved1 header'.reserved1 := by
  obtain ⟨fixed,hfixed,hwritten⟩ := bind_eq_ok.mp hwritten
  have hsize := size_of_lt hlt
  rw [List.length_append] at hlt
  have hpresent (tail : BitString) : BitString.toHexString ((fixed ++ tail).take 1) = header.checksumPresent := by
    have hrelated := (reprinted_print tail hfixed).2
    have hfirst : ReprintedField (.bits 1) header.checksumPresent (GreHeader.layout.print (fixed ++ tail)).checksumPresent :=
      hrelated.1
    rw [← checksumPresent_print]
    exact hfirst.bit
  have hwidth : GreHeader.layout.bitwidth = 32 := rfl
  have hlength := (reprinted_print rest hfixed).1.trans hwidth
  unfold GreFieldsAnnounced at hannounced
  by_cases hone : header.checksumPresent = "0x1"
  · rw [if_pos hone] at hannounced hwritten
    obtain ⟨⟨c,hc⟩,r,hr⟩ := hannounced
    rw [serializeHexString_of_bitset (by decide) hc,serializeHexString_of_bitset (by decide) hr] at hwritten
    cases hwritten
    simp only [List.append_assoc] at hsize ⊢
    have hpresent' := (hpresent (natToBits 16 c ++ (natToBits 16 r ++ rest))).trans hone
    have hgre : greWidth (fixed ++ (natToBits 16 c ++ (natToBits 16 r ++ rest))) = 64 := if_pos hpresent'
    have hdrop : (fixed ++ (natToBits 16 c ++ (natToBits 16 r ++ rest))).drop 64 = rest := by
      rw [← List.append_assoc,← List.append_assoc,List.drop_left' (by simp [hlength])]
    have hparse := parseGreHeader_of_le (show (greWidth (fixed ++ (natToBits 16 c ++ (natToBits 16 r ++ rest))) : Int) ≤ _ by
      rw [hgre,hsize]
      simp [hlength]
      omega)
    rw [hgre,hdrop,printGre,if_pos hpresent',List.drop_left' hlength,List.drop_left' (length_natToBits 16 c),
      List.take_left' (length_natToBits 16 c),List.take_left' (length_natToBits 16 r)] at hparse
    exact ⟨_,hparse,(reprinted_print (natToBits 16 c ++ (natToBits 16 r ++ rest)) hfixed).2,
      .inr (reprintedField_of_bitset hc),.inr (reprintedField_of_bitset hr)⟩
  · rw [if_neg hone] at hannounced hwritten
    cases hwritten
    have hpresent' : BitString.toHexString ((bits ++ rest).take 1) ≠ "0x1" := by
      rw [hpresent rest]
      exact hone
    have hgre : greWidth (bits ++ rest) = 32 := if_neg hpresent'
    refine ⟨_,?_,(reprinted_print rest hfixed).2,.inl ⟨hannounced.1,rfl⟩,.inl ⟨hannounced.2,rfl⟩⟩
    rw [parseGreHeader_of_le (by rw [hgre,hsize]; simp [hlength]),hgre,List.drop_left' hlength,printGre,if_neg hpresent']

/-- What a header says about its own optional parts is true. -/
def Announced : Header → Prop
  | .ipv4Header h => OptionsAnnounced h.uninterpretedOptions h.ihl
  | .tcpHeader h => OptionsAnnounced h.uninterpretedOptions h.dataOffset
  | .greHeader h => GreFieldsAnnounced h
  | _ => True

theorem parseHeader_of_written {header : Header} (hannounced : Announced header)
    (hwritten : serializeHeader header = .ok bits) (hlt : (bits ++ rest).length < 2 ^ 31) :
    ∃ header',parseHeader header.headerCase (bits ++ rest) = .ok (header',rest) ∧ Reprinted header header' := by
  cases header with
  | headerNotSet => cases hwritten
  | ipv4Header h =>
    obtain ⟨h',hparse,hfields,hoptions⟩ := parseIpv4_of_written hannounced hwritten hlt
    exact ⟨.ipv4Header h',map_eq_ok.mpr ⟨_,hparse,rfl⟩,.ipv4Header hfields hoptions⟩
  | tcpHeader h =>
    obtain ⟨h',hparse,hfields,hoptions⟩ := parseTcp_of_written hannounced hwritten hlt
    exact ⟨.tcpHeader h',map_eq_ok.mpr ⟨_,hparse,rfl⟩,.tcpHeader hfields hoptions⟩
  | greHeader h =>
    obtain ⟨h',hparse,hfields,hchecksum,hreserved1⟩ := parseGre_of_written hannounced hwritten hlt
    exact ⟨.greHeader h',map_eq_ok.mpr ⟨_,hparse,rfl⟩,.greHeader hfields hchecksum hreserved1⟩
  | ethernetHeader h =>
    obtain ⟨h',hparse,hfields⟩ := asHeader_of_written .ethernetHeader hwritten hlt
    exact ⟨.ethernetHeader h',hparse,.ethernetHeader hfields⟩
  | ipv6Header h =>
    obtain ⟨h',hparse,hfields⟩ := asHeader_of_written .ipv6Header hwritten hlt
    exact ⟨.ipv6Header h',hparse,.ipv6Header hfields⟩
  | hopByHopOptionsHeader h =>
    obtain ⟨h',hparse,hfields⟩ := asHeader_of_written .hopByHopOptionsHeader hwritten hlt
    exact ⟨.hopByHopOptionsHeader h',hparse,.hopByHopOptionsHeader hfields⟩
  | udpHeader h =>
    obtain ⟨h',hparse,hfields⟩ := asHeader_of_written .udpHeader hwritten hlt
    exact ⟨.udpHeader h',hparse,.udpHeader hfields⟩
  | arpHeader h =>
    obtain ⟨h',hparse,hfields⟩ := asHeader_of_written .arpHeader hwritten hlt
    exact ⟨.arpHeader h',hparse,.arpHeader hfields⟩
  | icmpHeader h =>
    obtain ⟨h',hparse,hfields⟩ := asHeader_of_written .icmpHeader hwritten hlt
    exact ⟨.icmpHeader h',hparse,.icmpHeader hfields⟩
  | vlanHeader h =>
    obtain ⟨h',hparse,hfields⟩ := asHeader_of_written .vlanHeader hwritten hlt
    exact ⟨.vlanHeader h',hparse,.vlanHeader hfields⟩
  | csigHeader h =>
    obtain ⟨h',hparse,hfields⟩ := asHeader_of_written .csigHeader hwritten hlt
    exact ⟨.csigHeader h',hparse,.csigHeader hfields⟩
  | saiP4Bmv2PacketInHeader h =>
    obtain ⟨h',hparse,hfields⟩ := asHeader_of_written .saiP4Bmv2PacketInHeader hwritten hlt
    exact ⟨.saiP4Bmv2PacketInHeader h',hparse,.saiP4Bmv2PacketInHeader hfields⟩
  | ipfixHeader h =>
    obtain ⟨h',hparse,hfields⟩ := asHeader_of_written .ipfixHeader hwritten hlt
    exact ⟨.ipfixHeader h',hparse,.ipfixHeader hfields⟩
  | psampHeader h =>
    obtain ⟨h',hparse,hfields⟩ := asHeader_of_written .psampHeader hwritten hlt
    exact ⟨.psampHeader h',hparse,.psampHeader hfields⟩
  | ptpHeader h =>
    obtain ⟨h',hparse,hfields⟩ := asHeader_of_written .ptpHeader hwritten hlt
    exact ⟨.ptpHeader h',hparse,.ptpHeader hfields⟩
  | pspHeader h =>
    obtain ⟨h',hparse,hfields⟩ := asHeader_of_written .pspHeader hwritten hlt
    exact ⟨.pspHeader h',hparse,.pspHeader hfields⟩

end SonicPins.Packetlib
