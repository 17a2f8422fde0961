import SonicPins.Packetlib.Reprinting

/-! What validation demands of headers, as conditions. -/
namespace SonicPins.Packetlib
open Lib Pdpi

variable {actual options errorPrefix : String}

section Conditions
variable [InetText]

def FieldWritten (format : FieldFormat) (text : String) : Prop := ∃ bits,serializeField format text = .ok bits

def FieldsWritten : List FieldSpec → List String → Prop := List.Forall₂ fun field text => FieldWritten field.format text

/-- All fields of the layout can be written. -/
def LayoutWritten {H : Type} (layout : HeaderLayout H) (header : H) : Prop := FieldsWritten layout.fields (layout.texts header)

/-- The text of a computed length or checksum. -/
def ComputedField {α : Type} (numBits : Nat) (computed : StatusOr α) (toInt : α → Int) (text : String) : Prop :=
  ∃ a,computed = .ok a ∧ text = bitsetToHexString numBits (toInt a)

/-- Bytes whose number of bits is a multiple of 32. -/
def OptionsWhole (options : String) : Prop :=
  options = "" ∨ ∃ bytes,hexStringToByteString options = .ok bytes ∧ numBitsOf bytes % 32 = 0

/-- The options of a TCP header are at most ten words. -/
def OptionsShort (options : String) : Prop :=
  options = "" ∨ ∃ bytes,hexStringToByteString options = .ok bytes ∧ numBitsOf bytes % 32 = 0 ∧ (numBitsOf bytes).tdiv 32 ≤ 10

/-- A small ethertype is the size of the payload, for others there is a minimal one. -/
def EthertypeFits (packet : Packet) (i : Int) (header : EthernetHeader) : Prop :=
  ∃ size ethertype,packetSizeInBytes packet (i + 1) = .ok size ∧ hexStringToInt header.ethertype = .ok ethertype ∧
    ¬ (ethertype ≤ 1500 ∧ size ≠ ethertype) ∧ ¬ (ethertype > 1500 ∧ size < kMinNumBytesInEthernetPayload)

/-- The checksum of a UDP header, which may be zero. -/
def UdpChecksumFits (packet : Packet) (i : Int) (header : UdpHeader) : Prop :=
  ∃ computed,udpHeaderChecksum packet i = .ok computed ∧ ∀ expected,computed = some expected →
    header.checksum = bitsetToHexString 16 0 ∨ header.checksum = bitsetToHexString 16 expected

/-- An ICMP header comes after an IP header, which its checksum may depend on. -/
def IcmpChecksumFits (packet : Packet) (i : Int) (header : IcmpHeader) : Prop :=
  ¬ i ≤ 0 ∧ (∃ j preceding,findPrecedingIpHeader packet i = .ok j ∧ headerAt packet j = .ok preceding ∧
    (preceding.headerCase = .ipv4Header ∨ preceding.headerCase = .ipv6Header)) ∧
  ∃ checksum : Nat,icmpHeaderChecksum packet i = .ok checksum ∧ header.checksum = bitsetToHexString 16 checksum

/-- The optional fields of a GRE header are there if the first bit says so. -/
def GreFieldsFit (packet : Packet) (i : Int) (header : GreHeader) : Prop :=
  if header.checksumPresent = "0x1" then
    greOptionalFieldsInvalidReasons header.checksum header.reserved1 "" = [] ∧
      (∃ checksum : Nat,greHeaderChecksum packet i = .ok checksum ∧ header.checksum = bitsetToHexString 16 checksum) ∧
      header.reserved1 = "0x0000"
  else header.checksum = "" ∧ header.reserved1 = ""

/-- What makes the check of a header find nothing. -/
def HeaderValid (packet : Packet) (i : Int) : Header → Prop
  | .headerNotSet => False
  | .ethernetHeader h => LayoutWritten EthernetHeader.layout h ∧ EthertypeFits packet i h
  | .ipv4Header h => LayoutWritten Ipv4Header.layout h ∧ OptionsWhole h.uninterpretedOptions ∧
      h.ihl = expectedHeaderLength h.uninterpretedOptions ∧ h.version = "0x4" ∧
      ComputedField 16 (packetSizeInBytes packet i) id h.totalLength ∧
      ComputedField 16 (ipv4HeaderChecksum h) Nat.cast h.checksum
  | .ipv6Header h => LayoutWritten Ipv6Header.layout h ∧ h.version = "0x6" ∧
      ComputedField 16 (packetSizeInBytes packet (i + 1)) id h.payloadLength
  | .hopByHopOptionsHeader h => LayoutWritten HopByHopOptionsHeader.layout h ∧
      hopByHopOptionsInvalidOptionsAndPadding h.optionsAndPadding "" = []
  | .udpHeader h => LayoutWritten UdpHeader.layout h ∧ ComputedField 16 (packetSizeInBytes packet i) id h.length ∧
      UdpChecksumFits packet i h
  | .tcpHeader h => LayoutWritten TcpHeader.layout h ∧ OptionsShort h.uninterpretedOptions ∧
      h.dataOffset = expectedHeaderLength h.uninterpretedOptions
  | .arpHeader h => LayoutWritten ArpHeader.layout h ∧ h.hardwareType = "0x0001" ∧ h.protocolType = "0x0800" ∧
      h.hardwareLength = "0x06" ∧ h.protocolLength = "0x04"
  | .icmpHeader h => LayoutWritten IcmpHeader.layout h ∧ IcmpChecksumFits packet i h
  | .vlanHeader h => LayoutWritten VlanHeader.layout h
  | .csigHeader h => LayoutWritten CsigHeader.layout h
  | .greHeader h => FieldWritten (.bits 1) h.checksumPresent ∧ h.reserved0 = "0x000" ∧ h.version = "0x0" ∧
      GreFieldsFit packet i h
  | .saiP4Bmv2PacketInHeader h => LayoutWritten SaiP4BMv2PacketInHeader.layout h ∧ hexStringToInt h.unusedPad = .ok 0
  | .ipfixHeader h => LayoutWritten IpfixHeader.layout h ∧ ComputedField 16 (packetSizeInBytes packet i) id h.length
  | .psampHeader h => LayoutWritten PsampHeader.layout h ∧ hexStringToInt h.variableLength = .ok 0xff ∧
      ComputedField 16 (packetSizeInBytes packet i) id h.length ∧
      ComputedField 16 (packetSizeInBytes packet (i + 1)) id h.packetSampledLength
  | .ptpHeader h => LayoutWritten PtpHeader.layout h ∧
      (∃ value,simpleHexAtoi32 h.messageType = some value ∧ 0 ≤ value ∧ value ≤ 3) ∧ h.reserved0 = "0x0" ∧ h.reserved1 = "0x00" ∧
      h.reserved2 = "0x00000000" ∧ ComputedField 16 (packetSizeInBytes packet i) id h.messageLength
  | .pspHeader h => FieldsWritten (PspHeader.layout.fields.eraseIdx 8) ((PspHeader.layout.texts h).eraseIdx 8) ∧
      h.reserved0 = "0x0"

end Conditions

section Checks
variable [InetText]

private theorem serializeFields_ok_iff {fields : List FieldSpec} {texts : List String} (hlen : texts.length = fields.length) :
    (∃ bits,serializeFields fields texts = .ok bits) ↔ FieldsWritten fields texts := by
  induction fields generalizing texts with
  | nil =>
    obtain rfl := List.length_eq_zero_iff.mp hlen
    exact iff_of_true ⟨[],rfl⟩ .nil
  | cons field fields ih =>
    cases texts with
    | nil => cases hlen
    | cons text texts =>
      rw [FieldsWritten,List.forall₂_cons,← FieldsWritten,← ih (by simpa using hlen)]
      constructor
      · rintro ⟨bits,h⟩
        obtain ⟨first,hfirst,h⟩ := bind_eq_ok.mp h
        obtain ⟨rest,hrest,-⟩ := bind_eq_ok.mp h
        exact ⟨⟨first,hfirst⟩,rest,hrest⟩
      · rintro ⟨⟨first,hfirst⟩,rest,hrest⟩
        exact ⟨first ++ rest,bind_eq_ok.mpr ⟨first,hfirst,bind_eq_ok.mpr ⟨rest,hrest,rfl⟩⟩⟩

theorem layoutWritten_iff {H : Type} {layout : HeaderLayout H} {header : H} :
    LayoutWritten layout header ↔ ∃ bits,serializeLayout layout header = .ok bits :=
  (serializeFields_ok_iff (layout.length_texts header)).symm

private theorem fieldInvalidReasons_eq_nil (hempty : InetText.pton "" = none) {format : FieldFormat} {text field : String} :
    fieldInvalidReasons format text field = [] ↔ FieldWritten format text := by
  have hmap {α : Type} (parse : String → StatusOr α) (bits : α → BitString) (hnone : ∀ a,parse "" ≠ .ok a) :
      textInvalidReasons parse text field = [] ↔ ∃ b,(parse text).map bits = .ok b := by
    rw [textInvalidReasons_eq_nil]
    constructor
    · rintro ⟨-,a,ha⟩
      exact ⟨_,map_eq_ok.mpr ⟨a,ha,rfl⟩⟩
    · rintro ⟨b,hb⟩
      obtain ⟨a,ha,-⟩ := map_eq_ok.mp hb
      exact ⟨fun h => hnone a (h ▸ ha),a,ha⟩
  cases format with
  | bits n =>
    refine hmap _ _ fun v hv => ?_
    obtain ⟨digits,hdigits,-⟩ := hexStringToBitset_eq_ok.mp hv
    exact hdigits.ne_empty rfl
  | mac => exact hmap _ _ fun a ha => by simp [MacAddress.ofString,splitChars] at ha
  | ipv4 => exact hmap _ _ fun a ha => by simp [Ipv4Address.ofString,splitChars] at ha
  | ipv6 => exact hmap _ _ fun a ha => by simp [Ipv6Address.ofString,hempty] at ha

theorem fieldsInvalidReasons_eq_nil (hempty : InetText.pton "" = none) {fieldPrefix : String} {fields : List FieldSpec}
    {texts : List String} (hlen : texts.length = fields.length) :
    fieldsInvalidReasons fieldPrefix fields texts = [] ↔ FieldsWritten fields texts := by
  induction fields generalizing texts with
  | nil =>
    obtain rfl := List.length_eq_zero_iff.mp hlen
    exact iff_of_true rfl .nil
  | cons field fields ih =>
    cases texts with
    | nil => cases hlen
    | cons text texts =>
      rw [fieldsInvalidReasons,List.append_eq_nil_iff,fieldInvalidReasons_eq_nil hempty,ih (by simpa using hlen),FieldsWritten,
        List.forall₂_cons]

theorem layoutInvalidReasons_eq_nil (hempty : InetText.pton "" = none) {H : Type} {layout : HeaderLayout H} {header : H}
    {fieldPrefix : String} : layoutInvalidReasons layout header fieldPrefix = [] ↔ LayoutWritten layout header :=
  fieldsInvalidReasons_eq_nil hempty (layout.length_texts header)

theorem FieldsWritten.field {fields : List FieldSpec} {texts : List String} (h : FieldsWritten fields texts) {i : Nat}
    {field : FieldSpec} {text : String} (hfield : fields[i]? = some field) (htext : texts[i]? = some text) :
    FieldWritten field.format text := by
  induction h generalizing i with
  | nil => cases hfield
  | cons hfirst hrest ih =>
    cases i with
    | zero =>
      cases hfield
      cases htext
      exact hfirst
    | succ i => exact ih hfield htext

omit [InetText] in
theorem ifValid_eq_nil {reasons more : List String} : ifValid reasons more = [] ↔ (reasons = [] → more = []) := by
  unfold ifValid
  cases reasons <;> simp

theorem ifValid_hexString {numBits : Nat} {text field : String} {more : List String} (h : FieldWritten (.bits numBits) text) :
    ifValid (hexStringInvalidReasons numBits text field) more = [] ↔ more = [] := by
  obtain ⟨bits,hbits⟩ := h
  obtain ⟨v,hv,-⟩ := map_eq_ok.mp hbits
  rw [hexStringInvalidReasons_eq_nil.mpr ⟨v,hv⟩]
  rfl

omit [InetText] in
theorem mustBe_eq_nil {fieldPrefix field expected : String} : mustBe fieldPrefix field expected actual = [] ↔
    actual = expected := by
  unfold mustBe
  split <;> simp_all

omit [InetText] in
theorem sizeInvalidReasons_eq_nil {fieldPrefix reportedField field : String} {size : StatusOr Int} :
    sizeInvalidReasons fieldPrefix reportedField field size actual = [] ↔ ComputedField 16 size id actual := by
  cases size with
  | error s => simp [sizeInvalidReasons,ComputedField]
  | ok size => simp [sizeInvalidReasons,ComputedField,mustBe_eq_nil]

omit [InetText] in
private theorem checksumInvalidReasons_eq_nil {fieldPrefix : String} {checksum : StatusOr Nat} :
    checksumInvalidReasons fieldPrefix checksum actual = [] ↔ ComputedField 16 checksum Nat.cast actual := by
  cases checksum with
  | error s => simp [checksumInvalidReasons,ComputedField]
  | ok checksum => simp [checksumInvalidReasons,ComputedField,mustBe_eq_nil]

omit [InetText] in
private theorem ipv4Options_eq_nil :
    (ipv4UninterpretedOptionsInvalidReasons options errorPrefix).2 = [] ↔ OptionsWhole options := by
  unfold ipv4UninterpretedOptionsInvalidReasons OptionsWhole
  by_cases hempty : options = ""
  · simp [hempty]
  · rw [if_neg (by simpa using hempty)]
    cases hexStringToByteString options with
    | error s => simp [hempty]
    | ok bytes =>
      dsimp only
      split <;> simp_all

omit [InetText] in
private theorem ipv4Options_valid (h : OptionsWhole options) :
    ipv4UninterpretedOptionsInvalidReasons options errorPrefix = (false,[]) := by
  unfold ipv4UninterpretedOptionsInvalidReasons
  rcases h with rfl | ⟨bytes,hbytes,hwhole⟩
  · rfl
  · split
    · rfl
    · simp only [hbytes,hwhole,ne_eq,not_true_eq_false,if_false]

omit [InetText] in
private theorem tcpOptions_eq_nil : (tcpUninterpretedOptionsInvalidReasons options errorPrefix).2 = [] ↔ OptionsShort options := by
  unfold tcpUninterpretedOptionsInvalidReasons OptionsShort
  by_cases hempty : options = ""
  · simp [hempty]
  · rw [if_neg (by simpa using hempty)]
    cases hexStringToByteString options with
    | error s => simp [hempty]
    | ok bytes =>
      dsimp only
      split
      · simp_all
      · split <;> simp_all

omit [InetText] in
private theorem tcpOptions_valid (h : OptionsShort options) :
    tcpUninterpretedOptionsInvalidReasons options errorPrefix = (false,[]) := by
  unfold tcpUninterpretedOptionsInvalidReasons
  rcases h with rfl | ⟨bytes,hbytes,hwhole,hshort⟩
  · rfl
  · split
    · rfl
    · simp only [hbytes,hwhole,ne_eq,not_true_eq_false,if_false,gt_iff_lt,hshort.not_gt]

omit [InetText] in
private theorem optionsAndPadding_prefix (errorPrefix errorPrefix' : String) (bytes : Bytes) :
    optionsAndPaddingReasons errorPrefix bytes = [] ↔ optionsAndPaddingReasons errorPrefix' bytes = [] := by
  induction bytes using optionsAndPaddingReasons.induct with
  | case1 => simp [optionsAndPaddingReasons]
  | case2 rest ih =>
    rw [optionsAndPaddingReasons.eq_def,optionsAndPaddingReasons.eq_def errorPrefix']
    simp only [if_true]
    exact ih
  | case3 optionType hzero => simp [optionsAndPaddingReasons,hzero]
  | case4 optionType hzero length data hlong =>
    rw [optionsAndPaddingReasons,optionsAndPaddingReasons,if_neg hzero,if_neg hzero,if_pos hlong,if_pos hlong]
    simp
  | case5 optionType hzero length data hshort j hj hone =>
    rw [optionsAndPaddingReasons,optionsAndPaddingReasons,if_neg hzero,if_neg hzero,if_neg hshort,if_neg hshort]
    simp only [hj,hone]
    simp
  | case6 optionType hzero length data hshort hother ih =>
    rw [optionsAndPaddingReasons,optionsAndPaddingReasons,if_neg hzero,if_neg hzero,if_neg hshort,if_neg hshort]
    cases hj : (data.take length.toNat).findIdx? (· ≠ 0) with
    | none => simpa only [hj] using ih
    | some j =>
      cases hone : decide (optionType = 1) with
      | false => simpa only [hj,hone] using ih
      | true => exact (hother j hj hone).elim

end Checks

section Headers
variable [InetText] (hempty : InetText.pton "" = none) {packet : Packet} {i : Int} {fieldPrefix : String}

include hempty

private theorem ethernetHeaderInvalidReasons_eq_nil {header : EthernetHeader} :
    ethernetHeaderInvalidReasons header fieldPrefix packet i = .ok [] ↔ HeaderValid packet i (.ethernetHeader header) := by
  unfold ethernetHeaderInvalidReasons HeaderValid EthertypeFits
  dsimp only
  rw [← @layoutInvalidReasons_eq_nil _ hempty _ _ _ fieldPrefix]
  cases packetSizeInBytes packet (i + 1) with
  | error s => simp
  | ok size =>
    cases hexStringToInt header.ethertype with
    | error s =>
      dsimp only
      split <;> simp
    | ok ethertype =>
      simp only [Except.ok.injEq,exists_eq_left',exists_and_left]
      split
      · simp_all
      · split
        · simp_all
        · simp_all

private theorem ipv4HeaderInvalidReasons_eq_nil {header : Ipv4Header} :
    ipv4HeaderInvalidReasons header fieldPrefix packet i = [] ↔ HeaderValid packet i (.ipv4Header header) := by
  unfold ipv4HeaderInvalidReasons HeaderValid
  simp only [List.append_eq_nil_iff,and_assoc]
  rw [layoutInvalidReasons_eq_nil hempty]
  refine and_congr_right fun hwritten => ?_
  rw [ipv4Options_eq_nil]
  refine and_congr_right fun hoptions => ?_
  rw [ipv4Options_valid hoptions,ifValid_hexString (hwritten.field (i := 1) rfl rfl),
    ifValid_hexString (hwritten.field (i := 0) rfl rfl),ifValid_hexString (hwritten.field (i := 4) rfl rfl),
    ifValid_hexString (hwritten.field (i := 10) rfl rfl),mustBe_eq_nil,sizeInvalidReasons_eq_nil,checksumInvalidReasons_eq_nil]
  rw [headerLengthInvalidReasons,if_neg (by decide),mustBe_eq_nil]

private theorem ipv6HeaderInvalidReasons_eq_nil {header : Ipv6Header} :
    ipv6HeaderInvalidReasons header fieldPrefix packet i = [] ↔ HeaderValid packet i (.ipv6Header header) := by
  unfold ipv6HeaderInvalidReasons HeaderValid
  simp only [List.append_eq_nil_iff,and_assoc]
  rw [layoutInvalidReasons_eq_nil hempty]
  refine and_congr_right fun hwritten => ?_
  rw [ifValid_hexString (hwritten.field (i := 0) rfl rfl),ifValid_hexString (hwritten.field (i := 4) rfl rfl),mustBe_eq_nil,
    sizeInvalidReasons_eq_nil]

private theorem hopByHopOptionsHeaderInvalidReasons_eq_nil {header : HopByHopOptionsHeader} :
    hopByHopOptionsHeaderInvalidReasons header fieldPrefix = [] ↔ HeaderValid packet i (.hopByHopOptionsHeader header) := by
  unfold hopByHopOptionsHeaderInvalidReasons HeaderValid
  simp only [List.append_eq_nil_iff]
  rw [layoutInvalidReasons_eq_nil hempty]
  refine and_congr_right fun hwritten => ?_
  rw [ifValid_hexString (hwritten.field (i := 2) rfl rfl)]
  unfold hopByHopOptionsInvalidOptionsAndPadding
  cases hexStringToByteString header.optionsAndPadding with
  | error s => simp
  | ok bytes => exact optionsAndPadding_prefix _ _ bytes

private theorem udpHeaderInvalidReasons_eq_nil {header : UdpHeader} :
    udpHeaderInvalidReasons header fieldPrefix packet i = .ok [] ↔ HeaderValid packet i (.udpHeader header) := by
  have hreasons : layoutInvalidReasons UdpHeader.layout header fieldPrefix ++
      ifValid (hexStringInvalidReasons 16 header.length (fieldPrefix ++ "length"))
        (sizeInvalidReasons fieldPrefix "length" "length" (packetSizeInBytes packet i) header.length) = [] ↔
      LayoutWritten UdpHeader.layout header ∧ ComputedField 16 (packetSizeInBytes packet i) id header.length := by
    rw [List.append_eq_nil_iff,layoutInvalidReasons_eq_nil hempty]
    exact and_congr_right fun hwritten => (ifValid_hexString (hwritten.field (i := 2) rfl rfl)).trans sizeInvalidReasons_eq_nil
  unfold udpHeaderInvalidReasons HeaderValid UdpChecksumFits
  dsimp only
  rw [← and_assoc,← hreasons]
  generalize layoutInvalidReasons UdpHeader.layout header fieldPrefix ++ ifValid _ _ = reasons at hreasons ⊢
  by_cases hvalid : reasons = []
  · obtain ⟨hwritten,-⟩ := hreasons.mp hvalid
    obtain ⟨bits,hbits⟩ := hwritten.field (i := 3) rfl rfl
    obtain ⟨v,hv,-⟩ := map_eq_ok.mp hbits
    rw [if_pos (List.isEmpty_iff.mpr (hexStringInvalidReasons_eq_nil.mpr ⟨v,hv⟩)),hvalid]
    rcases udpHeaderChecksum packet i with (s | what) | (- | expected)
    · simp [catchStatus,bind,Except.bind,checksumInvalidReasons]
    · simp [catchStatus,bind,Except.bind]
    · simp [catchStatus,bind,Except.bind]
    · simp only [catchStatus,bind,Except.bind,List.nil_append,true_and,Except.ok.injEq,exists_eq_left',Option.some.injEq,
        forall_eq']
      by_cases hzero : header.checksum = bitsetToHexString 16 0
      · simp [hzero]
      · simp [hzero,checksumInvalidReasons,mustBe_eq_nil]
  · rw [iff_false_right (fun h => hvalid h.1)]
    split
    · rcases udpHeaderChecksum packet i with (s | what) | (- | expected)
      · simp [catchStatus,bind,Except.bind,hvalid]
      · simp [catchStatus,bind,Except.bind]
      · simp [catchStatus,bind,Except.bind,hvalid]
      · simp only [catchStatus,bind,Except.bind]
        split <;> simp [hvalid]
    · simp [hvalid]

private theorem tcpHeaderInvalidReasons_eq_nil {header : TcpHeader} :
    tcpHeaderInvalidReasons header fieldPrefix = [] ↔ HeaderValid packet i (.tcpHeader header) := by
  unfold tcpHeaderInvalidReasons HeaderValid
  simp only [List.append_eq_nil_iff,and_assoc]
  rw [layoutInvalidReasons_eq_nil hempty]
  refine and_congr_right fun hwritten => ?_
  rw [tcpOptions_eq_nil]
  refine and_congr_right fun hoptions => ?_
  rw [tcpOptions_valid hoptions,ifValid_hexString (hwritten.field (i := 4) rfl rfl)]
  rw [headerLengthInvalidReasons,if_neg (by decide),mustBe_eq_nil]

private theorem arpHeaderInvalidReasons_eq_nil {header : ArpHeader} :
    arpHeaderInvalidReasons header fieldPrefix = [] ↔ HeaderValid packet i (.arpHeader header) := by
  unfold arpHeaderInvalidReasons HeaderValid
  simp only [List.append_eq_nil_iff,and_assoc]
  rw [layoutInvalidReasons_eq_nil hempty]
  refine and_congr_right fun hwritten => ?_
  rw [ifValid_hexString (hwritten.field (i := 0) rfl rfl),ifValid_hexString (hwritten.field (i := 1) rfl rfl),
    ifValid_hexString (hwritten.field (i := 2) rfl rfl),ifValid_hexString (hwritten.field (i := 3) rfl rfl),mustBe_eq_nil,
    mustBe_eq_nil,mustBe_eq_nil,mustBe_eq_nil]

omit hempty in
theorem hexStringInvalidReasons_iff {numBits : Nat} {text field : String} :
    hexStringInvalidReasons numBits text field = [] ↔ FieldWritten (.bits numBits) text := by
  rw [hexStringInvalidReasons_eq_nil]
  constructor
  · rintro ⟨v,hv⟩
    exact ⟨_,map_eq_ok.mpr ⟨v,hv,rfl⟩⟩
  · rintro ⟨bits,hbits⟩
    obtain ⟨v,hv,-⟩ := map_eq_ok.mp hbits
    exact ⟨v,hv⟩

private theorem saiP4BMv2PacketInHeaderInvalidReasons_eq_nil {header : SaiP4BMv2PacketInHeader} :
    saiP4BMv2PacketInHeaderInvalidReasons header fieldPrefix = .ok [] ↔
      HeaderValid packet i (.saiP4Bmv2PacketInHeader header) := by
  unfold saiP4BMv2PacketInHeaderInvalidReasons HeaderValid
  dsimp only
  have hreasons := @layoutInvalidReasons_eq_nil _ hempty _ SaiP4BMv2PacketInHeader.layout header fieldPrefix
  rw [← hreasons]
  by_cases hpad : hexStringInvalidReasons 6 header.unusedPad (fieldPrefix ++ "unused_pad") = []
  · rw [if_pos (List.isEmpty_iff.mpr hpad)]
    cases hexStringToInt header.unusedPad with
    | error s => simp
    | ok value =>
      dsimp only
      split <;> simp_all
  · rw [if_neg (by simpa using hpad),Except.ok.injEq,iff_self_and]
    intro hvalid
    exact absurd (hexStringInvalidReasons_iff.mpr ((hreasons.mp hvalid).field (i := 2) rfl rfl)) hpad

private theorem ipfixHeaderInvalidReasons_eq_nil {header : IpfixHeader} :
    ipfixHeaderInvalidReasons header fieldPrefix packet i = [] ↔ HeaderValid packet i (.ipfixHeader header) := by
  unfold ipfixHeaderInvalidReasons HeaderValid
  simp only [List.append_eq_nil_iff,hexStringInvalidReasons_iff,ifValid_eq_nil,sizeInvalidReasons_eq_nil]
  rw [fieldsInvalidReasons_eq_nil hempty rfl]
  unfold LayoutWritten FieldsWritten IpfixHeader.layout
  simp only [List.forall₂_cons,List.forall₂_nil_left_iff]
  constructor
  · rintro ⟨⟨⟨hversion,htime,hsequence,hdomain,-⟩,hlength⟩,hsize⟩
    exact ⟨⟨hversion,hlength,htime,hsequence,hdomain,trivial⟩,hsize hlength⟩
  · rintro ⟨⟨hversion,hlength,htime,hsequence,hdomain,-⟩,hsize⟩
    exact ⟨⟨⟨hversion,htime,hsequence,hdomain,trivial⟩,hlength⟩,fun _ => hsize⟩

private theorem psampHeaderInvalidReasons_eq_nil {header : PsampHeader} :
    psampHeaderInvalidReasons header fieldPrefix packet i = [] ↔ HeaderValid packet i (.psampHeader header) := by
  have hvariable : ∀ reasons : List String,(∀ s,hexStringToInt header.variableLength = .error s →
        reasons = [fieldPrefix ++ "variable_length: Couldn't parse value: " ++ s.toString]) →
      (∀ value,hexStringToInt header.variableLength = .ok value → reasons = if value ≠ 0xff then
          [fieldPrefix ++ "variable_length: Must be 0xFF, but was " ++ header.variableLength ++ " instead."] else []) →
      (reasons = [] ↔ hexStringToInt header.variableLength = .ok 0xff) := by
    intro reasons herror hok
    cases hvalue : hexStringToInt header.variableLength with
    | error s => simp [herror s hvalue]
    | ok value =>
      rw [hok value hvalue]
      split <;> simp_all
  unfold psampHeaderInvalidReasons HeaderValid
  simp only [List.append_eq_nil_iff,hexStringInvalidReasons_iff,ifValid_eq_nil,sizeInvalidReasons_eq_nil]
  rw [fieldsInvalidReasons_eq_nil hempty rfl]
  unfold LayoutWritten FieldsWritten PsampHeader.layout
  simp only [List.forall₂_cons,List.forall₂_nil_left_iff]
  constructor
  · rintro ⟨⟨⟨⟨⟨⟨⟨htemplate,htime,hflowset,hhop,hepoch,hingress,hegress,hmeta,hdlb,-⟩,hvar⟩,hvarValue⟩,hlength⟩,hsize⟩,
      hsampled⟩,hsampledSize⟩
    exact ⟨⟨htemplate,hlength,htime,hflowset,hhop,hepoch,hingress,hegress,hmeta,hdlb,hvar,hsampled,trivial⟩,
      (hvariable _ (fun _ hs => by rw [hs]) fun _ hv => by rw [hv]).mp (hvarValue hvar),hsize hlength,hsampledSize hsampled⟩
  · rintro ⟨⟨htemplate,hlength,htime,hflowset,hhop,hepoch,hingress,hegress,hmeta,hdlb,hvar,hsampled,-⟩,hvarValue,hsize,
      hsampledSize⟩
    exact ⟨⟨⟨⟨⟨⟨⟨htemplate,htime,hflowset,hhop,hepoch,hingress,hegress,hmeta,hdlb,trivial⟩,hvar⟩,
      fun _ => (hvariable _ (fun _ hs => by rw [hs]) fun _ hv => by rw [hv]).mpr hvarValue⟩,hlength⟩,fun _ => hsize⟩,
        hsampled⟩,fun _ => hsampledSize⟩

private theorem ptpHeaderInvalidReasons_eq_nil {header : PtpHeader} :
    ptpHeaderInvalidReasons header fieldPrefix packet i = [] ↔ HeaderValid packet i (.ptpHeader header) := by
  have htype : ∀ reasons : List String,(simpleHexAtoi32 header.messageType = none →
        reasons = [fieldPrefix ++ "message_type: Couldn't translate hex string '" ++ header.messageType ++ "' to an integer."]) →
      (∀ value,simpleHexAtoi32 header.messageType = some value → reasons = if ¬ (value ≥ 0 ∧ value ≤ 3) then
          [fieldPrefix ++ "message_type: value '" ++ header.messageType ++
            "' is invalid. expecting a value in the range [0x0,0x3]"] else []) →
      (reasons = [] ↔ ∃ value,simpleHexAtoi32 header.messageType = some value ∧ 0 ≤ value ∧ value ≤ 3) := by
    intro reasons hnone hsome
    cases hvalue : simpleHexAtoi32 header.messageType with
    | none => simp [hnone hvalue]
    | some value =>
      rw [hsome value hvalue]
      split <;> simp_all
  unfold ptpHeaderInvalidReasons HeaderValid
  simp only [List.append_eq_nil_iff,hexStringInvalidReasons_iff,ifValid_eq_nil,sizeInvalidReasons_eq_nil,mustBe_eq_nil]
  rw [fieldsInvalidReasons_eq_nil hempty rfl]
  unfold LayoutWritten FieldsWritten PtpHeader.layout
  simp only [List.forall₂_cons,List.forall₂_nil_left_iff]
  constructor
  · rintro ⟨⟨⟨⟨⟨⟨⟨⟨⟨⟨⟨htransport,hversion,hdomain,hflags,hcorrection,hport,hsequence,hcontrol,hinterval,-⟩,hmessage⟩,hvalue⟩,
      hreserved0⟩,hzero0⟩,hreserved1⟩,hzero1⟩,hreserved2⟩,hzero2⟩,hlength⟩,hsize⟩
    exact ⟨⟨htransport,hmessage,hreserved0,hversion,hlength,hdomain,hreserved1,hflags,hcorrection,hreserved2,hport,hsequence,
      hcontrol,hinterval,trivial⟩,(htype _ (fun hnone => by rw [hnone]) fun _ hv => by rw [hv]).mp (hvalue hmessage),
        hzero0 hreserved0,hzero1 hreserved1,hzero2 hreserved2,hsize hlength⟩
  · rintro ⟨⟨htransport,hmessage,hreserved0,hversion,hlength,hdomain,hreserved1,hflags,hcorrection,hreserved2,hport,hsequence,
      hcontrol,hinterval,-⟩,hvalue,hzero0,hzero1,hzero2,hsize⟩
    exact ⟨⟨⟨⟨⟨⟨⟨⟨⟨⟨⟨htransport,hversion,hdomain,hflags,hcorrection,hport,hsequence,hcontrol,hinterval,trivial⟩,hmessage⟩,
      fun _ => (htype _ (fun hnone => by rw [hnone]) fun _ hv => by rw [hv]).mpr hvalue⟩,hreserved0⟩,fun _ => hzero0⟩,
        hreserved1⟩,fun _ => hzero1⟩,hreserved2⟩,fun _ => hzero2⟩,
      hlength⟩,fun _ => hsize⟩

private theorem pspHeaderInvalidReasons_eq_nil {header : PspHeader} :
    pspHeaderInvalidReasons header fieldPrefix = [] ↔ HeaderValid packet i (.pspHeader header) := by
  unfold pspHeaderInvalidReasons HeaderValid
  simp only [List.append_eq_nil_iff,hexStringInvalidReasons_iff,ifValid_eq_nil,mustBe_eq_nil]
  rw [fieldsInvalidReasons_eq_nil hempty rfl]
  unfold FieldsWritten PspHeader.layout
  simp only [List.eraseIdx,List.forall₂_cons,List.forall₂_nil_left_iff]
  constructor
  · rintro ⟨⟨⟨hnext,hext,hoffset,hsample,hdrop,hversion,hcookie,hindex,hvector,-⟩,hreserved⟩,hzero⟩
    exact ⟨⟨hnext,hext,hreserved,hoffset,hsample,hdrop,hversion,hcookie,hindex,hvector,trivial⟩,hzero hreserved⟩
  · rintro ⟨⟨hnext,hext,hreserved,hoffset,hsample,hdrop,hversion,hcookie,hindex,hvector,-⟩,hzero⟩
    exact ⟨⟨⟨hnext,hext,hoffset,hsample,hdrop,hversion,hcookie,hindex,hvector,trivial⟩,hreserved⟩,fun _ => hzero⟩

private theorem icmpHeaderInvalidReasons_eq_nil {header : IcmpHeader} :
    icmpHeaderInvalidReasons header fieldPrefix packet i = .ok [] ↔ HeaderValid packet i (.icmpHeader header) := by
  unfold icmpHeaderInvalidReasons HeaderValid IcmpChecksumFits
  dsimp only
  have hreasons := @layoutInvalidReasons_eq_nil _ hempty _ IcmpHeader.layout header fieldPrefix
  rw [← hreasons]
  split
  · simp_all
  · rename_i hpos
    rw [and_iff_right hpos]
    cases hj : findPrecedingIpHeader packet i with
    | error e => simp [bind,Except.bind]
    | ok j =>
      cases hpreceding : headerAt packet j with
      | error e => simp [bind,Except.bind,hpreceding]
      | ok preceding =>
        simp only [bind,Except.bind,Except.ok.injEq,hpreceding]
        by_cases hcase : preceding.headerCase = .ipv4Header ∨ preceding.headerCase = .ipv6Header
        · have hfound : ∃ j' preceding',j = j' ∧ headerAt packet j' = .ok preceding' ∧
              (preceding'.headerCase = .ipv4Header ∨ preceding'.headerCase = .ipv6Header) := ⟨j,preceding,rfl,hpreceding,hcase⟩
          rw [if_neg (by tauto),and_iff_right hfound]
          by_cases hvalid : layoutInvalidReasons IcmpHeader.layout header fieldPrefix = []
          · have hchecksum : FieldWritten (.bits 16) header.checksum := (hreasons.mp hvalid).field (i := 2) rfl rfl
            rw [if_pos (List.isEmpty_iff.mpr (hexStringInvalidReasons_iff.mpr hchecksum)),hvalid]
            rcases icmpHeaderChecksum packet i with (s | what) | expected
            · simp [catchStatus,checksumInvalidReasons]
            · simp [catchStatus]
            · simp [catchStatus,checksumInvalidReasons,mustBe_eq_nil]
          · rw [iff_false_right (fun h => hvalid h.1)]
            split
            · rcases icmpHeaderChecksum packet i with (s | what) | expected
              · simp [catchStatus,hvalid]
              · simp [catchStatus]
              · simp [catchStatus,hvalid]
            · simp [hvalid]
        · rw [if_pos (by tauto)]
          constructor
          · intro h
            simp at h
          · rintro ⟨-,⟨j',preceding',rfl,hpreceding',hcase'⟩,-⟩
            cases hpreceding.symm.trans hpreceding'
            exact absurd hcase' hcase

omit hempty [InetText] in
private theorem greOptionalFields_prefix (checksum reserved1 errorPrefix errorPrefix' : String) :
    greOptionalFieldsInvalidReasons checksum reserved1 errorPrefix = [] ↔
      greOptionalFieldsInvalidReasons checksum reserved1 errorPrefix' = [] := by
  have hfield (text : String) : greOptionalFieldInvalidReasons text errorPrefix = [] ↔
      greOptionalFieldInvalidReasons text errorPrefix' = [] := by
    unfold greOptionalFieldInvalidReasons
    cases hexStringToByteString text with
    | error s => simp
    | ok bytes =>
      dsimp only
      split <;> simp
  unfold greOptionalFieldsInvalidReasons
  split
  · rfl
  · rw [List.append_eq_nil_iff,List.append_eq_nil_iff,hfield,hfield]

omit hempty in
theorem fieldWritten_of_bitset {numBits v : Nat} {text : String} (h : hexStringToBitset numBits text = .ok v) :
    FieldWritten (.bits numBits) text := ⟨_,map_eq_ok.mpr ⟨v,h,rfl⟩⟩

omit hempty in
private theorem greHeaderInvalidReasons_eq_nil {header : GreHeader} :
    greHeaderInvalidReasons header fieldPrefix packet i = .ok [] ↔ HeaderValid packet i (.greHeader header) := by
  have hzero12 : FieldWritten (.bits 12) "0x000" := @fieldWritten_of_bitset _ 12 0 _ (by decide)
  have hzero3 : FieldWritten (.bits 3) "0x0" := @fieldWritten_of_bitset _ 3 0 _ (by decide)
  have hone : FieldWritten (.bits 1) "0x1" := @fieldWritten_of_bitset _ 1 1 _ (by decide)
  have hreasons : hexStringInvalidReasons 1 header.checksumPresent (fieldPrefix ++ "checksum_present") ++
      hexStringInvalidReasons 12 header.reserved0 (fieldPrefix ++ "reserved0") ++
      hexStringInvalidReasons 3 header.version (fieldPrefix ++ "version") ++
      ifValid (hexStringInvalidReasons 12 header.reserved0 (fieldPrefix ++ "reserved0"))
        (mustBe fieldPrefix "reserved0" "0x000" header.reserved0) ++
      ifValid (hexStringInvalidReasons 3 header.version (fieldPrefix ++ "version"))
        (mustBe fieldPrefix "version" "0x0" header.version) = [] ↔
      FieldWritten (.bits 1) header.checksumPresent ∧ header.reserved0 = "0x000" ∧ header.version = "0x0" := by
    simp only [List.append_eq_nil_iff,hexStringInvalidReasons_iff,ifValid_eq_nil,mustBe_eq_nil]
    constructor
    · rintro ⟨⟨⟨⟨hpresent,hreserved⟩,hversion⟩,hzero⟩,hzero'⟩
      exact ⟨hpresent,hzero hreserved,hzero' hversion⟩
    · rintro ⟨hpresent,hzero,hzero'⟩
      exact ⟨⟨⟨⟨hpresent,hzero ▸ hzero12⟩,hzero' ▸ hzero3⟩,fun _ => hzero⟩,fun _ => hzero'⟩
  unfold greHeaderInvalidReasons HeaderValid GreFieldsFit
  dsimp only
  rw [← and_assoc (a := header.reserved0 = _),← and_assoc,← hreasons]
  generalize hexStringInvalidReasons 1 header.checksumPresent _ ++ _ ++ _ ++ _ ++ _ = reasons
  by_cases hset : header.checksumPresent = "0x1"
  · have hpresent : hexStringInvalidReasons 1 header.checksumPresent (fieldPrefix ++ "checksum_present") = [] :=
      hexStringInvalidReasons_iff.mpr (hset ▸ hone)
    rw [hpresent,if_neg (by simp [hset]),if_pos hset,
      greOptionalFields_prefix header.checksum header.reserved1 "" (fieldPrefix ++ "optional fields: ")]
    generalize greOptionalFieldsInvalidReasons header.checksum header.reserved1 _ = optionalReasons
    by_cases hoptional : optionalReasons = []
    · rw [hoptional,if_neg (by simp)]
      rcases greHeaderChecksum packet i with (s | what) | expected
      · simp [catchStatus,bind,Except.bind,checksumInvalidReasons]
      · simp [catchStatus,bind,Except.bind]
      · simp [catchStatus,bind,Except.bind,checksumInvalidReasons,mustBe_eq_nil]
    · rw [if_pos (by simpa using hoptional)]
      simp [hoptional]
  · rw [if_pos (.inr hset),if_neg hset]
    simp [List.append_eq_nil_iff]

omit hempty [InetText] in
theorem ok_nil_iff {reasons : List String} : (Except.ok reasons : Fallible (List String)) = .ok [] ↔ reasons = [] := by simp

private theorem headerInvalidReasons_eq_nil {header : Header} :
    headerInvalidReasons header fieldPrefix packet i = .ok [] ↔ HeaderValid packet i header := by
  cases header with
  | ethernetHeader h => exact ethernetHeaderInvalidReasons_eq_nil hempty
  | ipv4Header h => exact ok_nil_iff.trans (ipv4HeaderInvalidReasons_eq_nil hempty)
  | ipv6Header h => exact ok_nil_iff.trans (ipv6HeaderInvalidReasons_eq_nil hempty)
  | hopByHopOptionsHeader h => exact ok_nil_iff.trans (hopByHopOptionsHeaderInvalidReasons_eq_nil hempty)
  | udpHeader h => exact udpHeaderInvalidReasons_eq_nil hempty
  | tcpHeader h => exact ok_nil_iff.trans (tcpHeaderInvalidReasons_eq_nil hempty)
  | arpHeader h => exact ok_nil_iff.trans (arpHeaderInvalidReasons_eq_nil hempty)
  | icmpHeader h => exact icmpHeaderInvalidReasons_eq_nil hempty
  | vlanHeader h => exact ok_nil_iff.trans (layoutInvalidReasons_eq_nil hempty)
  | csigHeader h => exact ok_nil_iff.trans (layoutInvalidReasons_eq_nil hempty)
  | greHeader h => exact greHeaderInvalidReasons_eq_nil
  | saiP4Bmv2PacketInHeader h => exact saiP4BMv2PacketInHeaderInvalidReasons_eq_nil hempty
  | ipfixHeader h => exact ok_nil_iff.trans (ipfixHeaderInvalidReasons_eq_nil hempty)
  | psampHeader h => exact ok_nil_iff.trans (psampHeaderInvalidReasons_eq_nil hempty)
  | ptpHeader h => exact ok_nil_iff.trans (ptpHeaderInvalidReasons_eq_nil hempty)
  | pspHeader h => exact ok_nil_iff.trans (pspHeaderInvalidReasons_eq_nil hempty)
  | headerNotSet => simp [headerInvalidReasons,HeaderValid]

end Headers

variable [InetText]

def HeadersValid (packet : Packet) : Nat → List Header → Prop
  | _,[] => True
  | i,header :: headers => HeaderValid packet i header ∧ HeadersValid packet (i + 1) headers

/-- Every header is the one that the header before demands, and the last one demands none. -/
def Chained : HeaderCase → List Header → Prop
  | expected,[] => expected = .headerNotSet
  | expected,header :: headers => header.headerCase = expected ∧ Chained (expectedAfter header) headers

omit [InetText] in
theorem orderInvalidReasons_eq_nil {expected actual : HeaderCase} (hset : actual ≠ .headerNotSet) :
    orderInvalidReasons errorPrefix expected actual = [] ↔ actual = expected := by
  unfold orderInvalidReasons
  split
  · simp_all
  · split <;> simp_all

theorem HeaderValid.headerCase_ne {packet : Packet} {i : Int} {header : Header} (h : HeaderValid packet i header) :
    header.headerCase ≠ .headerNotSet := by
  cases header with
  | headerNotSet => exact h.elim
  | _ => simp [Header.headerCase]

theorem headersInvalidReasons_eq_nil (hempty : InetText.pton "" = none) {packet : Packet} {headers : List Header} {index : Nat}
    {expected : HeaderCase} : headersInvalidReasons packet index expected headers = .ok ([],.headerNotSet) ↔
      HeadersValid packet index headers ∧ Chained expected headers := by
  induction headers generalizing index expected with
  | nil => simp [headersInvalidReasons,HeadersValid,Chained]
  | cons header headers ih =>
    have hown (fieldPrefix : String) : headerInvalidReasons header fieldPrefix packet index = .ok [] ↔ _ :=
      headerInvalidReasons_eq_nil hempty
    rw [HeadersValid,Chained,headersInvalidReasons]
    constructor
    · intro h
      obtain ⟨own,hreasons,h⟩ := bind_eq_ok.mp h
      have hvalid (hnil : own = []) : HeaderValid packet index header := (hown _).mp (hnil ▸ hreasons)
      split at h
      · rename_i hcase
        obtain ⟨⟨rest,next⟩,-,h⟩ := bind_eq_ok.mp h
        simp only [Except.ok.injEq,Prod.mk.injEq,List.append_eq_nil_iff] at h
        exact absurd hcase (hvalid h.1.1).headerCase_ne
      · rename_i hcase
        obtain ⟨⟨rest,next⟩,hrest,h⟩ := bind_eq_ok.mp h
        simp only [Except.ok.injEq,Prod.mk.injEq,List.append_eq_nil_iff] at h
        obtain ⟨⟨⟨hnil,horder⟩,rfl⟩,rfl⟩ := h
        obtain ⟨hheaders,hchained⟩ := ih.mp hrest
        exact ⟨⟨hvalid hnil,hheaders⟩,(orderInvalidReasons_eq_nil hcase).mp horder,hchained⟩
    · rintro ⟨⟨hvalid,hheaders⟩,hcase,hchained⟩
      refine bind_eq_ok.mpr ⟨[],(hown _).mpr hvalid,?_⟩
      rw [if_neg hvalid.headerCase_ne]
      refine bind_eq_ok.mpr ⟨([],.headerNotSet),ih.mpr ⟨hheaders,hchained⟩,?_⟩
      rw [(orderInvalidReasons_eq_nil hvalid.headerCase_ne).mpr hcase]
      rfl

structure PacketValid (packet : Packet) : Prop where
  nonempty : packet.isEmpty = false
  size : ∃ bits,packetSizeInBits packet 0 = .ok bits ∧ bits % 8 = 0
  headers : HeadersValid packet 0 packet.headers
  chained : Chained (firstHeaderCase packet.headers) packet.headers

omit [InetText] in
theorem packetSizeInvalidReasons_eq_nil {packet : Packet} : packetSizeInvalidReasons packet = [] ↔
    ∃ bits,packetSizeInBits packet 0 = .ok bits ∧ bits % 8 = 0 := by
  unfold packetSizeInvalidReasons
  cases packetSizeInBits packet 0 with
  | error s => simp
  | ok bits =>
    dsimp only
    split <;> simp_all

theorem packetInvalidReasons_eq_nil (hempty : InetText.pton "" = none) {packet : Packet} :
    packetInvalidReasons packet = .ok [] ↔ PacketValid packet := by
  unfold packetInvalidReasons
  constructor
  · intro h
    split at h
    · simp at h
    · rename_i hnonempty
      obtain ⟨⟨reasons,expected⟩,hheaders,h⟩ := bind_eq_ok.mp h
      simp only [Except.ok.injEq,List.append_eq_nil_iff] at h
      obtain ⟨⟨hbits,rfl⟩,hlast⟩ := h
      obtain rfl : expected = .headerNotSet := by
        by_contra hne
        rw [if_pos hne] at hlast
        cases hlast
      obtain ⟨hvalid,hchained⟩ := (headersInvalidReasons_eq_nil hempty).mp hheaders
      exact ⟨by simpa using hnonempty,packetSizeInvalidReasons_eq_nil.mp hbits,hvalid,hchained⟩
  · intro h
    rw [if_neg (by simp [h.nonempty])]
    refine bind_eq_ok.mpr ⟨_,(headersInvalidReasons_eq_nil hempty).mpr ⟨h.headers,h.chained⟩,?_⟩
    dsimp only
    rw [packetSizeInvalidReasons_eq_nil.mpr h.size]
    rfl

theorem validatePacket_ok_iff (hempty : InetText.pton "" = none) {packet : Packet} :
    validatePacket packet = .ok () ↔ PacketValid packet := by
  rw [← packetInvalidReasons_eq_nil hempty,validatePacket]
  cases packetInvalidReasons packet with
  | error e => simp [bind,Except.bind]
  | ok reasons => cases reasons <;> simp [bind,Except.bind]

end SonicPins.Packetlib
