import SonicPins.Packetlib.HexStrings

/-! Packets, their headers and the order in which the fields of a header are on the wire. -/
namespace SonicPins.Packetlib
open Lib

/-- The texts that a field is written in: so many bits in hexadecimal, or an address. -/
inductive FieldFormat where
  | bits (numBits : Nat)
  | mac | ipv4 | ipv6
  deriving DecidableEq,Repr

def FieldFormat.width : FieldFormat → Nat
  | .bits numBits => numBits
  | .mac => 48
  | .ipv4 => 32
  | .ipv6 => 128

structure FieldSpec where
  name : String
  format : FieldFormat
  deriving DecidableEq,Repr

def totalWidth (fields : List FieldSpec) : Nat := (fields.map (·.format.width)).sum

/-- The fields of a fixed size that a kind of header starts with. -/
structure HeaderLayout (H : Type) where
  description : String
  bitwidth : Nat
  fields : List FieldSpec
  texts : H → List String
  ofTexts : List String → H
  length_texts : ∀ h,(texts h).length = fields.length
  texts_ofTexts : ∀ l,l.length = fields.length → texts (ofTexts l) = l
  width_fields : totalWidth fields = bitwidth

structure EthernetHeader where
  ethernetDestination : String := ""
  ethernetSource : String := ""
  ethertype : String := ""
  deriving DecidableEq,Repr

def EthernetHeader.layout : HeaderLayout EthernetHeader where
  description := "an Ethernet header"
  bitwidth := 112
  fields := [⟨"ethernet_destination",.mac⟩,⟨"ethernet_source",.mac⟩,⟨"ethertype",.bits 16⟩]
  texts h := [h.ethernetDestination,h.ethernetSource,h.ethertype]
  ofTexts
    | [a,b,c] => ⟨a,b,c⟩
    | _ => {}
  length_texts _ := rfl
  texts_ofTexts | [_,_,_],_ => rfl
  width_fields := rfl

structure Ipv4Header where
  version : String := ""
  ihl : String := ""
  dscp : String := ""
  ecn : String := ""
  totalLength : String := ""
  identification : String := ""
  flags : String := ""
  fragmentOffset : String := ""
  ttl : String := ""
  protocol : String := ""
  checksum : String := ""
  ipv4Source : String := ""
  ipv4Destination : String := ""
  uninterpretedOptions : String := ""
  deriving DecidableEq,Repr

def Ipv4Header.layout : HeaderLayout Ipv4Header where
  description := "an IPv4 header"
  bitwidth := 160
  fields := [⟨"version",.bits 4⟩,⟨"ihl",.bits 4⟩,⟨"dscp",.bits 6⟩,⟨"ecn",.bits 2⟩,⟨"total_length",.bits 16⟩,
    ⟨"identification",.bits 16⟩,⟨"flags",.bits 3⟩,⟨"fragment_offset",.bits 13⟩,⟨"ttl",.bits 8⟩,⟨"protocol",.bits 8⟩,
    ⟨"checksum",.bits 16⟩,⟨"ipv4_source",.ipv4⟩,⟨"ipv4_destination",.ipv4⟩]
  texts h := [h.version,h.ihl,h.dscp,h.ecn,h.totalLength,h.identification,h.flags,h.fragmentOffset,h.ttl,h.protocol,
    h.checksum,h.ipv4Source,h.ipv4Destination]
  ofTexts
    | [a,b,c,d,e,f,g,i,j,k,l,m,n] => ⟨a,b,c,d,e,f,g,i,j,k,l,m,n,""⟩
    | _ => {}
  length_texts _ := rfl
  texts_ofTexts | [_,_,_,_,_,_,_,_,_,_,_,_,_],_ => rfl
  width_fields := rfl

structure Ipv6Header where
  version : String := ""
  dscp : String := ""
  ecn : String := ""
  flowLabel : String := ""
  payloadLength : String := ""
  nextHeader : String := ""
  hopLimit : String := ""
  ipv6Source : String := ""
  ipv6Destination : String := ""
  deriving DecidableEq,Repr

def Ipv6Header.layout : HeaderLayout Ipv6Header where
  description := "an IPv6 header"
  bitwidth := 320
  fields := [⟨"version",.bits 4⟩,⟨"dscp",.bits 6⟩,⟨"ecn",.bits 2⟩,⟨"flow_label",.bits 20⟩,⟨"payload_length",.bits 16⟩,
    ⟨"next_header",.bits 8⟩,⟨"hop_limit",.bits 8⟩,⟨"ipv6_source",.ipv6⟩,⟨"ipv6_destination",.ipv6⟩]
  texts h := [h.version,h.dscp,h.ecn,h.flowLabel,h.payloadLength,h.nextHeader,h.hopLimit,h.ipv6Source,h.ipv6Destination]
  ofTexts
    | [a,b,c,d,e,f,g,i,j] => ⟨a,b,c,d,e,f,g,i,j⟩
    | _ => {}
  length_texts _ := rfl
  texts_ofTexts | [_,_,_,_,_,_,_,_,_],_ => rfl
  width_fields := rfl

structure HopByHopOptionsHeader where
  nextHeader : String := ""
  headerExtensionLength : String := ""
  optionsAndPadding : String := ""
  deriving DecidableEq,Repr

def HopByHopOptionsHeader.layout : HeaderLayout HopByHopOptionsHeader where
  description := "a hop-by-hop options header"
  bitwidth := 64
  fields := [⟨"next_header",.bits 8⟩,⟨"header_extension_length",.bits 8⟩,⟨"options_and_padding",.bits 48⟩]
  texts h := [h.nextHeader,h.headerExtensionLength,h.optionsAndPadding]
  ofTexts
    | [a,b,c] => ⟨a,b,c⟩
    | _ => {}
  length_texts _ := rfl
  texts_ofTexts | [_,_,_],_ => rfl
  width_fields := rfl

structure UdpHeader where
  sourcePort : String := ""
  destinationPort : String := ""
  length : String := ""
  checksum : String := ""
  deriving DecidableEq,Repr

def UdpHeader.layout : HeaderLayout UdpHeader where
  description := "an UDP header"
  bitwidth := 64
  fields := [⟨"source_port",.bits 16⟩,⟨"destination_port",.bits 16⟩,⟨"length",.bits 16⟩,⟨"checksum",.bits 16⟩]
  texts h := [h.sourcePort,h.destinationPort,h.length,h.checksum]
  ofTexts
    | [a,b,c,d] => ⟨a,b,c,d⟩
    | _ => {}
  length_texts _ := rfl
  texts_ofTexts | [_,_,_,_],_ => rfl
  width_fields := rfl

structure TcpHeader where
  sourcePort : String := ""
  destinationPort : String := ""
  sequenceNumber : String := ""
  acknowledgementNumber : String := ""
  dataOffset : String := ""
  restOfHeader : String := ""
  uninterpretedOptions : String := ""
  deriving DecidableEq,Repr

def TcpHeader.layout : HeaderLayout TcpHeader where
  description := "a TCP header"
  bitwidth := 160
  fields := [⟨"source_port",.bits 16⟩,⟨"destination_port",.bits 16⟩,⟨"sequence_number",.bits 32⟩,
    ⟨"acknowledgement_number",.bits 32⟩,⟨"data_offset",.bits 4⟩,⟨"rest_of_header",.bits 60⟩]
  texts h := [h.sourcePort,h.destinationPort,h.sequenceNumber,h.acknowledgementNumber,h.dataOffset,h.restOfHeader]
  ofTexts
    | [a,b,c,d,e,f] => ⟨a,b,c,d,e,f,""⟩
    | _ => {}
  length_texts _ := rfl
  texts_ofTexts | [_,_,_,_,_,_],_ => rfl
  width_fields := rfl

structure ArpHeader where
  hardwareType : String := ""
  protocolType : String := ""
  hardwareLength : String := ""
  protocolLength : String := ""
  operation : String := ""
  senderHardwareAddress : String := ""
  senderProtocolAddress : String := ""
  targetHardwareAddress : String := ""
  targetProtocolAddress : String := ""
  deriving DecidableEq,Repr

def ArpHeader.layout : HeaderLayout ArpHeader where
  description := "an ARP header"
  bitwidth := 224
  fields := [⟨"hardware_type",.bits 16⟩,⟨"protocol_type",.bits 16⟩,⟨"hardware_length",.bits 8⟩,⟨"protocol_length",.bits 8⟩,
    ⟨"operation",.bits 16⟩,⟨"sender_hardware_address",.mac⟩,⟨"sender_protocol_address",.ipv4⟩,
    ⟨"target_hardware_address",.mac⟩,⟨"target_protocol_address",.ipv4⟩]
  texts h := [h.hardwareType,h.protocolType,h.hardwareLength,h.protocolLength,h.operation,h.senderHardwareAddress,
    h.senderProtocolAddress,h.targetHardwareAddress,h.targetProtocolAddress]
  ofTexts
    | [a,b,c,d,e,f,g,i,j] => ⟨a,b,c,d,e,f,g,i,j⟩
    | _ => {}
  length_texts _ := rfl
  texts_ofTexts | [_,_,_,_,_,_,_,_,_],_ => rfl
  width_fields := rfl

structure IcmpHeader where
  type : String := ""
  code : String := ""
  checksum : String := ""
  restOfHeader : String := ""
  deriving DecidableEq,Repr

def IcmpHeader.layout : HeaderLayout IcmpHeader where
  description := "an ICMP header"
  bitwidth := 64
  fields := [⟨"type",.bits 8⟩,⟨"code",.bits 8⟩,⟨"checksum",.bits 16⟩,⟨"rest_of_header",.bits 32⟩]
  texts h := [h.type,h.code,h.checksum,h.restOfHeader]
  ofTexts
    | [a,b,c,d] => ⟨a,b,c,d⟩
    | _ => {}
  length_texts _ := rfl
  texts_ofTexts | [_,_,_,_],_ => rfl
  width_fields := rfl

structure VlanHeader where
  priorityCodePoint : String := ""
  dropEligibleIndicator : String := ""
  vlanIdentifier : String := ""
  ethertype : String := ""
  deriving DecidableEq,Repr

def VlanHeader.layout : HeaderLayout VlanHeader where
  description := "a VLAN header"
  bitwidth := 32
  fields := [⟨"priority_code_point",.bits 3⟩,⟨"drop_eligible_indicator",.bits 1⟩,⟨"vlan_identifier",.bits 12⟩,
    ⟨"ethertype",.bits 16⟩]
  texts h := [h.priorityCodePoint,h.dropEligibleIndicator,h.vlanIdentifier,h.ethertype]
  ofTexts
    | [a,b,c,d] => ⟨a,b,c,d⟩
    | _ => {}
  length_texts _ := rfl
  texts_ofTexts | [_,_,_,_],_ => rfl
  width_fields := rfl

structure GreHeader where
  checksumPresent : String := ""
  reserved0 : String := ""
  version : String := ""
  protocolType : String := ""
  checksum : String := ""
  reserved1 : String := ""
  deriving DecidableEq,Repr

def GreHeader.layout : HeaderLayout GreHeader where
  description := "a GRE header"
  bitwidth := 32
  fields := [⟨"checksum_present",.bits 1⟩,⟨"reserved0",.bits 12⟩,⟨"version",.bits 3⟩,⟨"protocol_type",.bits 16⟩]
  texts h := [h.checksumPresent,h.reserved0,h.version,h.protocolType]
  ofTexts
    | [a,b,c,d] => ⟨a,b,c,d,"",""⟩
    | _ => {}
  length_texts _ := rfl
  texts_ofTexts | [_,_,_,_],_ => rfl
  width_fields := rfl

structure SaiP4BMv2PacketInHeader where
  ingressPort : String := ""
  targetEgressPort : String := ""
  unusedPad : String := ""
  deriving DecidableEq,Repr

def SaiP4BMv2PacketInHeader.layout : HeaderLayout SaiP4BMv2PacketInHeader where
  description := "a SAI P4 BMv2 packet_in header"
  bitwidth := 24
  fields := [⟨"ingress_port",.bits 9⟩,⟨"target_egress_port",.bits 9⟩,⟨"unused_pad",.bits 6⟩]
  texts h := [h.ingressPort,h.targetEgressPort,h.unusedPad]
  ofTexts
    | [a,b,c] => ⟨a,b,c⟩
    | _ => {}
  length_texts _ := rfl
  texts_ofTexts | [_,_,_],_ => rfl
  width_fields := rfl

structure IpfixHeader where
  version : String := ""
  length : String := ""
  exportTime : String := ""
  sequenceNumber : String := ""
  observationDomainId : String := ""
  deriving DecidableEq,Repr

def IpfixHeader.layout : HeaderLayout IpfixHeader where
  description := "an IPFIX header"
  bitwidth := 128
  fields := [⟨"version",.bits 16⟩,⟨"length",.bits 16⟩,⟨"export_time",.bits 32⟩,⟨"sequence_number",.bits 32⟩,
    ⟨"observation_domain_id",.bits 32⟩]
  texts h := [h.version,h.length,h.exportTime,h.sequenceNumber,h.observationDomainId]
  ofTexts
    | [a,b,c,d,e] => ⟨a,b,c,d,e⟩
    | _ => {}
  length_texts _ := rfl
  texts_ofTexts | [_,_,_,_,_],_ => rfl
  width_fields := rfl

structure PsampHeader where
  templateId : String := ""
  length : String := ""
  observationTime : String := ""
  flowset : String := ""
  nextHopIndex : String := ""
  epoch : String := ""
  ingressPort : String := ""
  egressPort : String := ""
  userMetaField : String := ""
  dlbId : String := ""
  variableLength : String := ""
  packetSampledLength : String := ""
  deriving DecidableEq,Repr

def PsampHeader.layout : HeaderLayout PsampHeader where
  description := "a PSAMP header"
  bitwidth := 224
  fields := [⟨"template_id",.bits 16⟩,⟨"length",.bits 16⟩,⟨"observation_time",.bits 64⟩,⟨"flowset",.bits 16⟩,
    ⟨"next_hop_index",.bits 16⟩,⟨"epoch",.bits 16⟩,⟨"ingress_port",.bits 16⟩,⟨"egress_port",.bits 16⟩,
    ⟨"user_meta_field",.bits 16⟩,⟨"dlb_id",.bits 8⟩,⟨"variable_length",.bits 8⟩,⟨"packet_sampled_length",.bits 16⟩]
  texts h := [h.templateId,h.length,h.observationTime,h.flowset,h.nextHopIndex,h.epoch,h.ingressPort,h.egressPort,
    h.userMetaField,h.dlbId,h.variableLength,h.packetSampledLength]
  ofTexts
    | [a,b,c,d,e,f,g,i,j,k,l,m] => ⟨a,b,c,d,e,f,g,i,j,k,l,m⟩
    | _ => {}
  length_texts _ := rfl
  texts_ofTexts | [_,_,_,_,_,_,_,_,_,_,_,_],_ => rfl
  width_fields := rfl

structure PtpHeader where
  transportSpecific : String := ""
  messageType : String := ""
  reserved0 : String := ""
  versionPtp : String := ""
  messageLength : String := ""
  domainNumber : String := ""
  reserved1 : String := ""
  flags : String := ""
  correctionField : String := ""
  reserved2 : String := ""
  sourcePortIdentity : String := ""
  sequenceId : String := ""
  controlField : String := ""
  logMessageInterval : String := ""
  deriving DecidableEq,Repr

def PtpHeader.layout : HeaderLayout PtpHeader where
  description := "a PTP header"
  bitwidth := 272
  fields := [⟨"transport_specific",.bits 4⟩,⟨"message_type",.bits 4⟩,⟨"reserved0",.bits 4⟩,⟨"version_ptp",.bits 4⟩,
    ⟨"message_length",.bits 16⟩,⟨"domain_number",.bits 8⟩,⟨"reserved1",.bits 8⟩,⟨"flags",.bits 16⟩,
    ⟨"correction_field",.bits 64⟩,⟨"reserved2",.bits 32⟩,⟨"source_port_identity",.bits 80⟩,⟨"sequence_id",.bits 16⟩,
    ⟨"control_field",.bits 8⟩,⟨"log_message_interval",.bits 8⟩]
  texts h := [h.transportSpecific,h.messageType,h.reserved0,h.versionPtp,h.messageLength,h.domainNumber,h.reserved1,h.flags,
    h.correctionField,h.reserved2,h.sourcePortIdentity,h.sequenceId,h.controlField,h.logMessageInterval]
  ofTexts
    | [a,b,c,d,e,f,g,i,j,k,l,m,n,o] => ⟨a,b,c,d,e,f,g,i,j,k,l,m,n,o⟩
    | _ => {}
  length_texts _ := rfl
  texts_ofTexts | [_,_,_,_,_,_,_,_,_,_,_,_,_,_],_ => rfl
  width_fields := rfl

structure PspHeader where
  nextHeader : String := ""
  headerExtLength : String := ""
  reserved0 : String := ""
  cryptOffset : String := ""
  sampleBit : String := ""
  dropBit : String := ""
  version : String := ""
  virtualizationCookiePresent : String := ""
  reserved1 : String := ""
  securityParametersIndex : String := ""
  initializationVector : String := ""
  deriving DecidableEq,Repr

def PspHeader.layout : HeaderLayout PspHeader where
  description := "a PSP header"
  bitwidth := 128
  fields := [⟨"next_header",.bits 8⟩,⟨"header_ext_length",.bits 8⟩,⟨"reserved0",.bits 2⟩,⟨"crypt_offset",.bits 6⟩,
    ⟨"sample_bit",.bits 1⟩,⟨"drop_bit",.bits 1⟩,⟨"version",.bits 4⟩,⟨"virtualization_cookie_present",.bits 1⟩,
    ⟨"reserved1",.bits 1⟩,⟨"security_parameters_index",.bits 32⟩,⟨"initialization_vector",.bits 64⟩]
  texts h := [h.nextHeader,h.headerExtLength,h.reserved0,h.cryptOffset,h.sampleBit,h.dropBit,h.version,
    h.virtualizationCookiePresent,h.reserved1,h.securityParametersIndex,h.initializationVector]
  ofTexts
    | [a,b,c,d,e,f,g,i,j,k,l] => ⟨a,b,c,d,e,f,g,i,j,k,l⟩
    | _ => {}
  length_texts _ := rfl
  texts_ofTexts | [_,_,_,_,_,_,_,_,_,_,_],_ => rfl
  width_fields := rfl

structure CsigHeader where
  signalType : String := ""
  reserved0 : String := ""
  signalValue : String := ""
  locatorMetadata : String := ""
  ethertype : String := ""
  deriving DecidableEq,Repr

def CsigHeader.layout : HeaderLayout CsigHeader where
  description := "a CSIG header"
  bitwidth := 32
  fields := [⟨"signal_type",.bits 3⟩,⟨"reserved0",.bits 1⟩,⟨"signal_value",.bits 5⟩,⟨"locator_metadata",.bits 7⟩,
    ⟨"ethertype",.bits 16⟩]
  texts h := [h.signalType,h.reserved0,h.signalValue,h.locatorMetadata,h.ethertype]
  ofTexts
    | [a,b,c,d,e] => ⟨a,b,c,d,e⟩
    | _ => {}
  length_texts _ := rfl
  texts_ofTexts | [_,_,_,_,_],_ => rfl
  width_fields := rfl

inductive HeaderCase where
  | headerNotSet
  | ethernetHeader | ipv4Header | ipv6Header | udpHeader | tcpHeader | arpHeader | icmpHeader | vlanHeader | greHeader
  | saiP4Bmv2PacketInHeader | ipfixHeader | psampHeader | ptpHeader | pspHeader | csigHeader | hopByHopOptionsHeader
  deriving DecidableEq,Repr

/-- A header, with nothing set if the message is empty. -/
inductive Header where
  | headerNotSet
  | ethernetHeader (h : EthernetHeader)
  | ipv4Header (h : Ipv4Header)
  | ipv6Header (h : Ipv6Header)
  | udpHeader (h : UdpHeader)
  | tcpHeader (h : TcpHeader)
  | arpHeader (h : ArpHeader)
  | icmpHeader (h : IcmpHeader)
  | vlanHeader (h : VlanHeader)
  | greHeader (h : GreHeader)
  | saiP4Bmv2PacketInHeader (h : SaiP4BMv2PacketInHeader)
  | ipfixHeader (h : IpfixHeader)
  | psampHeader (h : PsampHeader)
  | ptpHeader (h : PtpHeader)
  | pspHeader (h : PspHeader)
  | csigHeader (h : CsigHeader)
  | hopByHopOptionsHeader (h : HopByHopOptionsHeader)
  deriving DecidableEq,Repr

def Header.headerCase : Header → HeaderCase
  | .headerNotSet => .headerNotSet
  | .ethernetHeader _ => .ethernetHeader
  | .ipv4Header _ => .ipv4Header
  | .ipv6Header _ => .ipv6Header
  | .udpHeader _ => .udpHeader
  | .tcpHeader _ => .tcpHeader
  | .arpHeader _ => .arpHeader
  | .icmpHeader _ => .icmpHeader
  | .vlanHeader _ => .vlanHeader
  | .greHeader _ => .greHeader
  | .saiP4Bmv2PacketInHeader _ => .saiP4Bmv2PacketInHeader
  | .ipfixHeader _ => .ipfixHeader
  | .psampHeader _ => .psampHeader
  | .ptpHeader _ => .ptpHeader
  | .pspHeader _ => .pspHeader
  | .csigHeader _ => .csigHeader
  | .hopByHopOptionsHeader _ => .hopByHopOptionsHeader

def headerCaseName : HeaderCase → String
  | .ethernetHeader => "EthernetHeader"
  | .ipv4Header => "Ipv4Header"
  | .ipv6Header => "Ipv6Header"
  | .hopByHopOptionsHeader => "HopByHopOptionsHeader"
  | .udpHeader => "UdpHeader"
  | .tcpHeader => "TcpHeader"
  | .arpHeader => "ArpHeader"
  | .icmpHeader => "IcmpHeader"
  | .vlanHeader => "VlanHeader"
  | .csigHeader => "CsigHeader"
  | .greHeader => "GreHeader"
  | .saiP4Bmv2PacketInHeader => "SaiP4BMv2PacketInHeader"
  | .ipfixHeader => "IpfixHeader"
  | .psampHeader => "PsampHeader"
  | .ptpHeader => "PtpHeader"
  | .pspHeader => "PspHeader"
  | .headerNotSet => "HEADER_NOT_SET"

structure Packet where
  headers : List Header := []
  payload : Bytes := []
  reasonNotFullyParsed : String := ""
  reasonsInvalid : List String := []
  deriving DecidableEq,Repr

/-- Whether `ByteSize` is zero. -/
def Packet.isEmpty (packet : Packet) : Bool :=
  packet.headers.isEmpty && packet.payload.isEmpty && packet.reasonNotFullyParsed.isEmpty && packet.reasonsInvalid.isEmpty

end SonicPins.Packetlib
