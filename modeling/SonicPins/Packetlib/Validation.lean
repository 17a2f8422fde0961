import SonicPins.Packetlib.Serialization

/-! What makes a packet invalid, and parsing, which reports it. -/
namespace SonicPins.Packetlib
open Lib Pdpi

section Checks
variable [InetText]

/-- A text that must be there and be accepted by a parser. -/
def textInvalidReasons {α : Type} (parse : String → StatusOr α) (text field : String) : List String :=
  if text.isEmpty then [field ++ ": missing"]
  else match parse text with
    | .error s => [field ++ ": invalid format: " ++ s.message]
    | .ok _ => []

def macAddressInvalidReasons : String → String → List String := textInvalidReasons MacAddress.ofString
def ipv4AddressInvalidReasons : String → String → List String := textInvalidReasons Ipv4Address.ofString
def ipv6AddressInvalidReasons : String → String → List String := textInvalidReasons Ipv6Address.ofString
def hexStringInvalidReasons (numBits : Nat) : String → String → List String := textInvalidReasons (hexStringToBitset numBits)

def fieldInvalidReasons : FieldFormat → String → String → List String
  | .bits numBits => hexStringInvalidReasons numBits
  | .mac => macAddressInvalidReasons
  | .ipv4 => ipv4AddressInvalidReasons
  | .ipv6 => ipv6AddressInvalidReasons

def fieldsInvalidReasons (fieldPrefix : String) : List FieldSpec → List String → List String
  | field :: fields,text :: texts =>
    fieldInvalidReasons field.format text (fieldPrefix ++ field.name) ++ fieldsInvalidReasons fieldPrefix fields texts
  | _,_ => []

/-- The checks of all fields of a layout, in the order on the wire. -/
def layoutInvalidReasons {H : Type} (layout : HeaderLayout H) (header : H) (fieldPrefix : String) : List String :=
  fieldsInvalidReasons fieldPrefix layout.fields (layout.texts header)

def mustBe (fieldPrefix field expected actual : String) : List String :=
  if actual ≠ expected then
    [fieldPrefix ++ field ++ ": Must be " ++ expected ++ ", but was " ++ actual ++ " instead."]
  else []

/-- A computed length of sixteen bits; two fields report an unknown size under another name. -/
def sizeInvalidReasons (fieldPrefix reportedField field : String) (size : StatusOr Int) (actual : String) : List String :=
  match size with
  | .error s => [fieldPrefix ++ reportedField ++ ": Couldn't compute expected size: " ++ s.toString]
  | .ok size => mustBe fieldPrefix field (bitsetToHexString 16 size) actual

def checksumInvalidReasons (fieldPrefix : String) (checksum : StatusOr Nat) (actual : String) : List String :=
  match checksum with
  | .error s => [fieldPrefix ++ "checksum: Couldn't compute expected checksum: " ++ s.toString]
  | .ok checksum => mustBe fieldPrefix "checksum" (bitsetToHexString 16 checksum) actual

/-- A status for the caller to look at; a crash goes on. -/
def catchStatus {α : Type} : Fallible α → Fallible (StatusOr α)
  | .ok a => .ok (.ok a)
  | .error (.status s) => .ok (.error s)
  | .error (.thrown what) => .error (.thrown what)

/-- The options of a hop-by-hop header, each with a type, a length and data unless it is
single padding. The length is a signed `char` compared with an unsigned size. -/
def optionsAndPaddingReasons (errorPrefix : String) : Bytes → List String
  | [] => []
  | optionType :: rest =>
    if optionType = 0 then optionsAndPaddingReasons errorPrefix rest
    else match rest with
      | [] => [errorPrefix ++ "expected option data length, but reached end of data"]
      | length :: data =>
        if length.toNat ≥ 128 ∨ length.toNat ≥ data.length + 1 then
          [errorPrefix ++ "expected data length exceeds the remaining bytes: " ++
            decimal (Int.bmod length.toNat 256) ++ " > " ++ natText (data.length + 1)]
        else match (data.take length.toNat).findIdx? (· ≠ 0),decide (optionType = 1) with
          | some j,true => [errorPrefix ++ "expected " ++ natText length.toNat ++ " zero bytes of padding, but the " ++
              natText (j + 1) ++ "-th byte was non-zero."]
          | _,_ => optionsAndPaddingReasons errorPrefix (data.drop length.toNat)
termination_by bytes => bytes.length
decreasing_by all_goals simp only [List.length_drop,List.length_cons]; omega

def hopByHopOptionsInvalidOptionsAndPadding (optionsAndPadding errorPrefix : String) : List String :=
  match hexStringToByteString optionsAndPadding with
  | .error s => [errorPrefix ++ "invalid format: " ++ s.message]
  | .ok bytes => optionsAndPaddingReasons errorPrefix bytes

def numBitsOf (bytes : Bytes) : Int := int32 (bytes.length * 8 : Nat)

/-- With whether the options are invalid. -/
def ipv4UninterpretedOptionsInvalidReasons (options errorPrefix : String) : Bool × List String :=
  if options.isEmpty then (false,[])
  else match hexStringToByteString options with
    | .error s => (true,[errorPrefix ++ "invalid format: " ++ s.message])
    | .ok bytes =>
      if numBitsOf bytes % 32 ≠ 0 then
        (true,[errorPrefix ++ "found " ++ decimal (numBitsOf bytes) ++ " bits, but expected multiple of 32 bits"])
      else (false,[])

/-- Too many words are a reason, but do not make the options invalid. -/
def tcpUninterpretedOptionsInvalidReasons (options errorPrefix : String) : Bool × List String :=
  if options.isEmpty then (false,[])
  else match hexStringToByteString options with
    | .error s => (true,[errorPrefix ++ "invalid format: " ++ s.message])
    | .ok bytes =>
      if numBitsOf bytes % 32 ≠ 0 then
        (true,[errorPrefix ++ "found " ++ decimal (numBitsOf bytes) ++ " bits, but expected multiple of 32 bits"])
      else if (numBitsOf bytes).tdiv 32 > 10 then
        (false,[errorPrefix ++ "found " ++ decimal ((numBitsOf bytes).tdiv 32) ++
          " 32-bit words, but at most 10 are allowed"])
      else (false,[])

/-- The header length in words that the text of the options makes. -/
def expectedHeaderLength (options : String) : String :=
  let optionsBitwidth : Int := if options.isEmpty then 0 else int32 (4 * ((utf8 options).length - 2 : Nat) : Nat)
  bitsetToHexString 4 (5 + optionsBitwidth.tdiv 32)

def headerLengthInvalidReasons (fieldPrefix field options actual : String) (optionsInvalid : Bool) : List String :=
  if optionsInvalid then
    [fieldPrefix ++ field ++ ": Correct value undefined since uninterpreted_options is invalid."]
  else mustBe fieldPrefix field (expectedHeaderLength options) actual

def greOptionalFieldInvalidReasons (hexString errorPrefix : String) : List String :=
  match hexStringToByteString hexString with
  | .error s => [errorPrefix ++ "invalid format: " ++ s.message]
  | .ok bytes =>
    if numBitsOf bytes ≠ 16 then [errorPrefix ++ "found " ++ decimal (numBitsOf bytes) ++ " bits, but expected 16 bits"]
    else []

def greOptionalFieldsInvalidReasons (checksum reserved1 errorPrefix : String) : List String :=
  if checksum.isEmpty && reserved1.isEmpty then []
  else greOptionalFieldInvalidReasons checksum errorPrefix ++ greOptionalFieldInvalidReasons reserved1 errorPrefix

end Checks

section HeaderChecks
variable [InetText]

/-- A reason that is only looked for if a field was found valid. -/
def ifValid (reasons more : List String) : List String := if reasons.isEmpty then more else []

def kMinNumBytesInEthernetPayload : Int := 46

/-- The ethertype is taken out of a failed conversion if the field was found invalid. -/
def ethernetHeaderInvalidReasons (header : EthernetHeader) (fieldPrefix : String) (packet : Packet) (headerIndex : Int) :
    Fallible (List String) :=
  let fields := layoutInvalidReasons EthernetHeader.layout header fieldPrefix
  let ethertypeInvalid := !(hexStringInvalidReasons 16 header.ethertype (fieldPrefix ++ "ethertype")).isEmpty
  match packetSizeInBytes packet (headerIndex + 1) with
  | .error s => .ok (fields ++ [fieldPrefix ++ "couldn't compute payload size: " ++ s.toString])
  | .ok size =>
    match hexStringToInt header.ethertype with
    | .error s =>
      if ethertypeInvalid then .error (.thrown "StatusOr: no value")
      else .ok (fields ++ [fieldPrefix ++ "ethertype: INTERNAL ERROR: " ++ s.toString])
    | .ok ethertype =>
      if ethertype ≤ 1500 ∧ size ≠ ethertype then
        .ok (fields ++ [fieldPrefix ++ "ethertype: value " ++ header.ethertype ++
          " is <= 1500 and should thus match payload size, but payload size is " ++ decimal size ++ " bytes"])
      else if ethertype > 1500 ∧ size < kMinNumBytesInEthernetPayload then
        .ok (fields ++ [fieldPrefix ++ "expected at least " ++ decimal kMinNumBytesInEthernetPayload ++
          " bytes of Ethernet payload, but got only " ++ decimal size])
      else .ok fields

def ipv4HeaderInvalidReasons (header : Ipv4Header) (fieldPrefix : String) (packet : Packet) (headerIndex : Int) : List String :=
  let version := hexStringInvalidReasons 4 header.version (fieldPrefix ++ "version")
  let ihl := hexStringInvalidReasons 4 header.ihl (fieldPrefix ++ "ihl")
  let totalLength := hexStringInvalidReasons 16 header.totalLength (fieldPrefix ++ "total_length")
  let checksum := hexStringInvalidReasons 16 header.checksum (fieldPrefix ++ "checksum")
  let (optionsInvalid,options) :=
    ipv4UninterpretedOptionsInvalidReasons header.uninterpretedOptions (fieldPrefix ++ "uninterpreted_options: ")
  layoutInvalidReasons Ipv4Header.layout header fieldPrefix ++ options ++
    ifValid ihl (headerLengthInvalidReasons fieldPrefix "ihl" header.uninterpretedOptions header.ihl optionsInvalid) ++
    ifValid version (mustBe fieldPrefix "version" "0x4" header.version) ++
    ifValid totalLength (sizeInvalidReasons fieldPrefix "total_length" "total_length" (packetSizeInBytes packet headerIndex)
      header.totalLength) ++
    ifValid checksum (checksumInvalidReasons fieldPrefix (ipv4HeaderChecksum header) header.checksum)

def ipv6HeaderInvalidReasons (header : Ipv6Header) (fieldPrefix : String) (packet : Packet) (headerIndex : Int) : List String :=
  let version := hexStringInvalidReasons 4 header.version (fieldPrefix ++ "version")
  let payloadLength := hexStringInvalidReasons 16 header.payloadLength (fieldPrefix ++ "payload_length")
  layoutInvalidReasons Ipv6Header.layout header fieldPrefix ++
    ifValid version (mustBe fieldPrefix "version" "0x6" header.version) ++
    ifValid payloadLength (sizeInvalidReasons fieldPrefix "total_length" "payload_length"
      (packetSizeInBytes packet (headerIndex + 1)) header.payloadLength)

def hopByHopOptionsHeaderInvalidReasons (header : HopByHopOptionsHeader) (fieldPrefix : String) : List String :=
  let optionsAndPadding := hexStringInvalidReasons 48 header.optionsAndPadding (fieldPrefix ++ "options_and_padding")
  layoutInvalidReasons HopByHopOptionsHeader.layout header fieldPrefix ++
    ifValid optionsAndPadding (hopByHopOptionsInvalidOptionsAndPadding header.optionsAndPadding
      (fieldPrefix ++ "options_and_padding: "))

/-- A checksum of zero is always allowed, and any checksum where none is computed. -/
def udpHeaderInvalidReasons (header : UdpHeader) (fieldPrefix : String) (packet : Packet) (headerIndex : Int) :
    Fallible (List String) := do
  let length := hexStringInvalidReasons 16 header.length (fieldPrefix ++ "length")
  let checksum := hexStringInvalidReasons 16 header.checksum (fieldPrefix ++ "checksum")
  let reasons := layoutInvalidReasons UdpHeader.layout header fieldPrefix ++
    ifValid length (sizeInvalidReasons fieldPrefix "length" "length" (packetSizeInBytes packet headerIndex) header.length)
  if checksum.isEmpty then
    match ← catchStatus (udpHeaderChecksum packet headerIndex) with
    | .error s => .ok (reasons ++ checksumInvalidReasons fieldPrefix (.error s) header.checksum)
    | .ok none => .ok reasons
    | .ok (some expected) =>
      if header.checksum = bitsetToHexString 16 0 then .ok reasons
      else .ok (reasons ++ checksumInvalidReasons fieldPrefix (.ok expected) header.checksum)
  else .ok reasons

def tcpHeaderInvalidReasons (header : TcpHeader) (fieldPrefix : String) : List String :=
  let dataOffset := hexStringInvalidReasons 4 header.dataOffset (fieldPrefix ++ "data_offset")
  let (optionsInvalid,options) :=
    tcpUninterpretedOptionsInvalidReasons header.uninterpretedOptions (fieldPrefix ++ "uninterpreted_options: ")
  layoutInvalidReasons TcpHeader.layout header fieldPrefix ++ options ++
    ifValid dataOffset (headerLengthInvalidReasons fieldPrefix "data_offset" header.uninterpretedOptions header.dataOffset
      optionsInvalid)

/-- A wrong protocol length is reported as a hardware type. -/
def arpHeaderInvalidReasons (header : ArpHeader) (fieldPrefix : String) : List String :=
  let hardwareType := hexStringInvalidReasons 16 header.hardwareType (fieldPrefix ++ "hardware_type")
  let protocolType := hexStringInvalidReasons 16 header.protocolType (fieldPrefix ++ "protocol_type")
  let hardwareLength := hexStringInvalidReasons 8 header.hardwareLength (fieldPrefix ++ "hardware_length")
  let protocolLength := hexStringInvalidReasons 8 header.protocolLength (fieldPrefix ++ "protocol_length")
  layoutInvalidReasons ArpHeader.layout header fieldPrefix ++
    ifValid hardwareType (mustBe fieldPrefix "hardware_type" "0x0001" header.hardwareType) ++
    ifValid protocolType (mustBe fieldPrefix "protocol_type" "0x0800" header.protocolType) ++
    ifValid hardwareLength (mustBe fieldPrefix "hardware_length" "0x06" header.hardwareLength) ++
    ifValid protocolLength (mustBe fieldPrefix "hardware_type" "0x04" header.protocolLength)

def icmpHeaderInvalidReasons (header : IcmpHeader) (fieldPrefix : String) (packet : Packet) (headerIndex : Int) :
    Fallible (List String) := do
  let fields := layoutInvalidReasons IcmpHeader.layout header fieldPrefix
  let checksum := hexStringInvalidReasons 16 header.checksum (fieldPrefix ++ "checksum")
  let notPreceded := fieldPrefix ++ "checksum: ICMP header must be preceded by IP header for checksum to be defined; found "
  if headerIndex ≤ 0 then .ok (fields ++ [notPreceded ++ "no header instead"])
  else
    let ipHeaderIndex ← findPrecedingIpHeader packet headerIndex
    let preceding ← headerAt packet ipHeaderIndex
    let previous := preceding.headerCase
    if previous ≠ .ipv4Header ∧ previous ≠ .ipv6Header then
      .ok (fields ++ [notPreceded ++ headerCaseName previous ++ " at headers[" ++ decimal ipHeaderIndex ++ "] instead"])
    else if checksum.isEmpty then do
      let expected ← catchStatus (icmpHeaderChecksum packet headerIndex)
      .ok (fields ++ checksumInvalidReasons fieldPrefix expected header.checksum)
    else .ok fields

def vlanHeaderInvalidReasons (header : VlanHeader) (fieldPrefix : String) : List String :=
  layoutInvalidReasons VlanHeader.layout header fieldPrefix

def csigHeaderInvalidReasons (header : CsigHeader) (fieldPrefix : String) : List String :=
  layoutInvalidReasons CsigHeader.layout header fieldPrefix

/-- The protocol type is not checked. -/
def greHeaderInvalidReasons (header : GreHeader) (fieldPrefix : String) (packet : Packet) (headerIndex : Int) :
    Fallible (List String) := do
  let checksumPresent := hexStringInvalidReasons 1 header.checksumPresent (fieldPrefix ++ "checksum_present")
  let reserved0 := hexStringInvalidReasons 12 header.reserved0 (fieldPrefix ++ "reserved0")
  let version := hexStringInvalidReasons 3 header.version (fieldPrefix ++ "version")
  let reasons := checksumPresent ++ reserved0 ++ version ++
    ifValid reserved0 (mustBe fieldPrefix "reserved0" "0x000" header.reserved0) ++
    ifValid version (mustBe fieldPrefix "version" "0x0" header.version)
  if !checksumPresent.isEmpty ∨ header.checksumPresent ≠ "0x1" then
    .ok (reasons ++
      (if header.checksum.isEmpty then []
        else [fieldPrefix ++ "Checksum_present: checksum present bit is not set and checksum must be empty, but was '" ++
          header.checksum ++ "' instead."]) ++
      (if header.reserved1.isEmpty then []
        else [fieldPrefix ++ "Checksum_present: checksum present bit is not set and reserved1 must be empty, but was " ++
          header.reserved1 ++ " instead."]))
  else
    let optionalFields := greOptionalFieldsInvalidReasons header.checksum header.reserved1 (fieldPrefix ++ "optional fields: ")
    if !optionalFields.isEmpty then
      .ok (reasons ++ optionalFields ++
        [fieldPrefix ++ "checksum_present: checksum present bit is set, but optional fields are invalid."])
    else do
      let expected ← catchStatus (greHeaderChecksum packet headerIndex)
      .ok (reasons ++ checksumInvalidReasons fieldPrefix expected header.checksum ++
        mustBe fieldPrefix "reserved1" "0x0000" header.reserved1)

def saiP4BMv2PacketInHeaderInvalidReasons (header : SaiP4BMv2PacketInHeader) (fieldPrefix : String) : Fallible (List String) :=
  let fields := layoutInvalidReasons SaiP4BMv2PacketInHeader.layout header fieldPrefix
  let unusedPad := hexStringInvalidReasons 6 header.unusedPad (fieldPrefix ++ "unused_pad")
  if unusedPad.isEmpty then
    match hexStringToInt header.unusedPad with
    | .error _ => .error (.thrown "StatusOr: no value")
    | .ok value =>
      if value ≠ 0 then .ok (fields ++ [fieldPrefix ++ "unused_pad: Must be 0, but was " ++ header.unusedPad ++ " instead."])
      else .ok fields
  else .ok fields

def ipfixHeaderInvalidReasons (header : IpfixHeader) (fieldPrefix : String) (packet : Packet) (headerIndex : Int) : List String :=
  let length := hexStringInvalidReasons 16 header.length (fieldPrefix ++ "length")
  fieldsInvalidReasons fieldPrefix
      [⟨"version",.bits 16⟩,⟨"export_time",.bits 32⟩,⟨"sequence_number",.bits 32⟩,⟨"observation_domain_id",.bits 32⟩]
      [header.version,header.exportTime,header.sequenceNumber,header.observationDomainId] ++ length ++
    ifValid length (sizeInvalidReasons fieldPrefix "length" "length" (packetSizeInBytes packet headerIndex) header.length)

def psampHeaderInvalidReasons (header : PsampHeader) (fieldPrefix : String) (packet : Packet) (headerIndex : Int) : List String :=
  let variableLength := hexStringInvalidReasons 8 header.variableLength (fieldPrefix ++ "variable_length")
  let length := hexStringInvalidReasons 16 header.length (fieldPrefix ++ "length")
  let packetSampledLength := hexStringInvalidReasons 16 header.packetSampledLength (fieldPrefix ++ "packet_sampled_length")
  fieldsInvalidReasons fieldPrefix
      [⟨"template_id",.bits 16⟩,⟨"observation_time",.bits 64⟩,⟨"flowset",.bits 16⟩,⟨"next_hop_index",.bits 16⟩,
        ⟨"epoch",.bits 16⟩,⟨"ingress_port",.bits 16⟩,⟨"egress_port",.bits 16⟩,⟨"user_meta_field",.bits 16⟩,
        ⟨"dlb_id",.bits 8⟩]
      [header.templateId,header.observationTime,header.flowset,header.nextHopIndex,header.epoch,header.ingressPort,
        header.egressPort,header.userMetaField,header.dlbId] ++ variableLength ++
    ifValid variableLength (match hexStringToInt header.variableLength with
      | .error s => [fieldPrefix ++ "variable_length: Couldn't parse value: " ++ s.toString]
      | .ok value => if value ≠ 0xff then
          [fieldPrefix ++ "variable_length: Must be 0xFF, but was " ++ header.variableLength ++ " instead."] else []) ++
    length ++
    ifValid length (sizeInvalidReasons fieldPrefix "length" "length" (packetSizeInBytes packet headerIndex) header.length) ++
    packetSampledLength ++
    ifValid packetSampledLength (sizeInvalidReasons fieldPrefix "length" "packet_sampled_length"
      (packetSizeInBytes packet (headerIndex + 1)) header.packetSampledLength)

def ptpHeaderInvalidReasons (header : PtpHeader) (fieldPrefix : String) (packet : Packet) (headerIndex : Int) : List String :=
  let messageType := hexStringInvalidReasons 4 header.messageType (fieldPrefix ++ "message_type")
  let reserved0 := hexStringInvalidReasons 4 header.reserved0 (fieldPrefix ++ "reserved0")
  let reserved1 := hexStringInvalidReasons 8 header.reserved1 (fieldPrefix ++ "reserved1")
  let reserved2 := hexStringInvalidReasons 32 header.reserved2 (fieldPrefix ++ "reserved2")
  let messageLength := hexStringInvalidReasons 16 header.messageLength (fieldPrefix ++ "message_length")
  fieldsInvalidReasons fieldPrefix
      [⟨"transport_specific",.bits 4⟩,⟨"version_ptp",.bits 4⟩,⟨"domain_number",.bits 8⟩,⟨"flags",.bits 16⟩,
        ⟨"correction_field",.bits 64⟩,⟨"source_port_identity",.bits 80⟩,⟨"sequence_id",.bits 16⟩,⟨"control_field",.bits 8⟩,
        ⟨"log_message_interval",.bits 8⟩]
      [header.transportSpecific,header.versionPtp,header.domainNumber,header.flags,header.correctionField,
        header.sourcePortIdentity,header.sequenceId,header.controlField,header.logMessageInterval] ++ messageType ++
    ifValid messageType (match simpleHexAtoi32 header.messageType with
      | none => [fieldPrefix ++ "message_type: Couldn't translate hex string '" ++ header.messageType ++ "' to an integer."]
      | some value => if ¬ (value ≥ 0 ∧ value ≤ 3) then
          [fieldPrefix ++ "message_type: value '" ++ header.messageType ++
            "' is invalid. expecting a value in the range [0x0,0x3]"] else []) ++
    reserved0 ++ ifValid reserved0 (mustBe fieldPrefix "reserved0" "0x0" header.reserved0) ++
    reserved1 ++ ifValid reserved1 (mustBe fieldPrefix "reserved1" "0x00" header.reserved1) ++
    reserved2 ++ ifValid reserved2 (mustBe fieldPrefix "reserved2" "0x00000000" header.reserved2) ++
    messageLength ++
    ifValid messageLength (sizeInvalidReasons fieldPrefix "message_length" "message_length"
      (packetSizeInBytes packet headerIndex) header.messageLength)

/-- The second reserved field is not checked. -/
def pspHeaderInvalidReasons (header : PspHeader) (fieldPrefix : String) : List String :=
  let reserved0 := hexStringInvalidReasons 2 header.reserved0 (fieldPrefix ++ "reserved0")
  fieldsInvalidReasons fieldPrefix
      [⟨"next_header",.bits 8⟩,⟨"header_ext_length",.bits 8⟩,⟨"crypt_offset",.bits 6⟩,⟨"sample_bit",.bits 1⟩,
        ⟨"drop_bit",.bits 1⟩,⟨"version",.bits 4⟩,⟨"virtualization_cookie_present",.bits 1⟩,
        ⟨"security_parameters_index",.bits 32⟩,⟨"initialization_vector",.bits 64⟩]
      [header.nextHeader,header.headerExtLength,header.cryptOffset,header.sampleBit,header.dropBit,header.version,
        header.virtualizationCookiePresent,header.securityParametersIndex,header.initializationVector] ++
    reserved0 ++ ifValid reserved0 (mustBe fieldPrefix "reserved0" "0x0" header.reserved0)

def headerInvalidReasons (header : Header) (fieldPrefix : String) (packet : Packet) (index : Int) : Fallible (List String) :=
  match header with
  | .ethernetHeader h => ethernetHeaderInvalidReasons h fieldPrefix packet index
  | .ipv4Header h => .ok (ipv4HeaderInvalidReasons h fieldPrefix packet index)
  | .ipv6Header h => .ok (ipv6HeaderInvalidReasons h fieldPrefix packet index)
  | .hopByHopOptionsHeader h => .ok (hopByHopOptionsHeaderInvalidReasons h fieldPrefix)
  | .udpHeader h => udpHeaderInvalidReasons h fieldPrefix packet index
  | .tcpHeader h => .ok (tcpHeaderInvalidReasons h fieldPrefix)
  | .arpHeader h => .ok (arpHeaderInvalidReasons h fieldPrefix)
  | .icmpHeader h => icmpHeaderInvalidReasons h fieldPrefix packet index
  | .vlanHeader h => .ok (vlanHeaderInvalidReasons h fieldPrefix)
  | .csigHeader h => .ok (csigHeaderInvalidReasons h fieldPrefix)
  | .greHeader h => greHeaderInvalidReasons h fieldPrefix packet index
  | .saiP4Bmv2PacketInHeader h => saiP4BMv2PacketInHeaderInvalidReasons h fieldPrefix
  | .ipfixHeader h => .ok (ipfixHeaderInvalidReasons h fieldPrefix packet index)
  | .psampHeader h => .ok (psampHeaderInvalidReasons h fieldPrefix packet index)
  | .ptpHeader h => .ok (ptpHeaderInvalidReasons h fieldPrefix packet index)
  | .pspHeader h => .ok (pspHeaderInvalidReasons h fieldPrefix)
  | .headerNotSet => .ok [fieldPrefix ++ "header uninitialized"]

end HeaderChecks

variable [InetText]

def orderInvalidReasons (errorPrefix : String) (expected actual : HeaderCase) : List String :=
  if expected = .headerNotSet then
    [errorPrefix ++ "expected no header (because the previous header demands either no header or an unsupported header), got " ++
      headerCaseName actual]
  else if actual ≠ expected then
    [errorPrefix ++ "expected " ++ headerCaseName expected ++ " (because the previous header demands it), got " ++
      headerCaseName actual]
  else []

/-- The header that has to follow, none if that is undefined. -/
def expectedAfter (header : Header) : HeaderCase :=
  match getNextHeader header with
  | .ok (.supported next) => next
  | .ok (.unsupported _) => .headerNotSet
  | .error _ => .headerNotSet

def headersInvalidReasons (packet : Packet) : Nat → HeaderCase → List Header → Fallible (List String × HeaderCase)
  | _,expected,[] => .ok ([],expected)
  | index,expected,header :: headers => do
    let errorPrefix := "in " ++ headerCaseName header.headerCase ++ " headers[" ++ natText index ++ "]: "
    let own ← headerInvalidReasons header errorPrefix packet index
    if header.headerCase = .headerNotSet then do
      let (rest,expected) ← headersInvalidReasons packet (index + 1) expected headers
      .ok (own ++ rest,expected)
    else do
      let (rest,next) ← headersInvalidReasons packet (index + 1) (expectedAfter header) headers
      .ok (own ++ orderInvalidReasons errorPrefix expected header.headerCase ++ rest,next)

/-- The kind of the first header is not constrained. -/
def firstHeaderCase : List Header → HeaderCase
  | [] => .headerNotSet
  | header :: _ => header.headerCase

def packetSizeInvalidReasons (packet : Packet) : List String :=
  match packetSizeInBits packet 0 with
  | .error s => ["Unable to determine total packet size: " ++ s.toString]
  | .ok bitsize =>
    if bitsize % 8 ≠ 0 then ["Packet size must be multiple of 8 bits; found " ++ decimal bitsize ++ " bits"] else []

def packetInvalidReasons (packet : Packet) : Fallible (List String) :=
  if packet.isEmpty then .ok ["Packet is empty."]
  else do
    let (reasons,expected) ← headersInvalidReasons packet 0 (firstHeaderCase packet.headers) packet.headers
    .ok (packetSizeInvalidReasons packet ++ reasons ++ if expected ≠ .headerNotSet then
      ["headers[" ++ natText packet.headers.length ++ "]: header missing - expected " ++ headerCaseName expected] else [])

def validatePacket (packet : Packet) : Fallible Unit := do
  let invalid ← packetInvalidReasons packet
  if invalid.isEmpty then .ok ()
  else .error (.status (invalidArgument
    ("Packet invalid for the following reasons:\n- " ++ String.intercalate "\n- " invalid)))

/-- What is left of the data is the payload, unless it is no byte string. -/
def setPayload (packet : Packet) : StatusOr Bytes → Packet
  | .ok payload => { packet with payload }
  | .error s => { packet with
      reasonsInvalid := packet.reasonsInvalid ++ ["INTERNAL ERROR WHILE PARSING PAYLOAD: " ++ s.toString] }

def parsePacket (input : Bytes) (firstHeader : HeaderCase) : Fallible Packet :=
  match parseHeaders ((bytesToBits input).length + 1) firstHeader (bytesToBits input) {} with
  | none => .error (.thrown "the loop over the headers goes on")
  | some (parsed,rest) => do
    let payload ← catchStatus rest.toByteString
    let packet := setPayload parsed payload
    let invalid ← packetInvalidReasons packet
    .ok { packet with reasonsInvalid := packet.reasonsInvalid ++ invalid }

end SonicPins.Packetlib
