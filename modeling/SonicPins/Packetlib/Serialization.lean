import SonicPins.Packetlib.Parsing

/-! Writing packets, their sizes, and the checksums over what is written. -/
namespace SonicPins.Packetlib
open Lib Pdpi

section Fields
variable [InetText]

/-- `SerializeBits` and the serializers of addresses. -/
def serializeField : FieldFormat → String → StatusOr BitString
  | .bits numBits,text => (hexStringToBitset numBits text).map (natToBits numBits)
  | .mac,text => (MacAddress.ofString text).map fun a => natToBits 48 a.toNat
  | .ipv4,text => (Ipv4Address.ofString text).map fun a => natToBits 32 a.toNat
  | .ipv6,text => (Ipv6Address.ofString text).map fun a => natToBits 128 a.toNat

def serializeFields : List FieldSpec → List String → StatusOr BitString
  | field :: fields,text :: texts => do
    let bits ← serializeField field.format text
    let rest ← serializeFields fields texts
    .ok (bits ++ rest)
  | _,_ => .ok []

def serializeLayout {H : Type} (layout : HeaderLayout H) (header : H) : StatusOr BitString :=
  serializeFields layout.fields (layout.texts header)

/-- `AppendHexString`. -/
def serializeHexString (hexString : String) : StatusOr BitString := (hexStringToByteString hexString).map bytesToBits

def serializeOptions (options : String) : StatusOr BitString :=
  if options.isEmpty then .ok [] else serializeHexString options

end Fields

section HeaderSerializers
variable [InetText]

def serializeEthernetHeader (header : EthernetHeader) : StatusOr BitString := serializeLayout EthernetHeader.layout header

def serializeIpv4Header (header : Ipv4Header) : StatusOr BitString := do
  let bits ← serializeLayout Ipv4Header.layout header
  let options ← serializeOptions header.uninterpretedOptions
  .ok (bits ++ options)

def serializeIpv6Header (header : Ipv6Header) : StatusOr BitString := serializeLayout Ipv6Header.layout header

def serializeHopByHopOptionsHeader (header : HopByHopOptionsHeader) : StatusOr BitString :=
  serializeLayout HopByHopOptionsHeader.layout header

def serializeUdpHeader (header : UdpHeader) : StatusOr BitString := serializeLayout UdpHeader.layout header

def serializeTcpHeader (header : TcpHeader) : StatusOr BitString := do
  let bits ← serializeLayout TcpHeader.layout header
  let options ← serializeOptions header.uninterpretedOptions
  .ok (bits ++ options)

def serializeArpHeader (header : ArpHeader) : StatusOr BitString := serializeLayout ArpHeader.layout header

def serializeIcmpHeader (header : IcmpHeader) : StatusOr BitString := serializeLayout IcmpHeader.layout header

def serializeVlanHeader (header : VlanHeader) : StatusOr BitString := serializeLayout VlanHeader.layout header

def serializeCsigHeader (header : CsigHeader) : StatusOr BitString := serializeLayout CsigHeader.layout header

def serializeGreHeader (header : GreHeader) : StatusOr BitString := do
  let bits ← serializeLayout GreHeader.layout header
  if header.checksumPresent = "0x1" then
    let checksum ← serializeHexString header.checksum
    let reserved1 ← serializeHexString header.reserved1
    .ok (bits ++ checksum ++ reserved1)
  else .ok bits

def serializeSaiP4BMv2PacketInHeader (header : SaiP4BMv2PacketInHeader) : StatusOr BitString :=
  serializeLayout SaiP4BMv2PacketInHeader.layout header

def serializeIpfixHeader (header : IpfixHeader) : StatusOr BitString := serializeLayout IpfixHeader.layout header

def serializePsampHeader (header : PsampHeader) : StatusOr BitString := serializeLayout PsampHeader.layout header

def serializePtpHeader (header : PtpHeader) : StatusOr BitString := serializeLayout PtpHeader.layout header

def serializePspHeader (header : PspHeader) : StatusOr BitString := serializeLayout PspHeader.layout header

def headerNotSetInHeader : Status := invalidArgument "Found invalid HEADER_NOT_SET in header."

def serializeHeader : Header → StatusOr BitString
  | .ethernetHeader h => serializeEthernetHeader h
  | .ipv4Header h => serializeIpv4Header h
  | .ipv6Header h => serializeIpv6Header h
  | .hopByHopOptionsHeader h => serializeHopByHopOptionsHeader h
  | .udpHeader h => serializeUdpHeader h
  | .tcpHeader h => serializeTcpHeader h
  | .arpHeader h => serializeArpHeader h
  | .icmpHeader h => serializeIcmpHeader h
  | .ipfixHeader h => serializeIpfixHeader h
  | .psampHeader h => serializePsampHeader h
  | .vlanHeader h => serializeVlanHeader h
  | .greHeader h => serializeGreHeader h
  | .saiP4Bmv2PacketInHeader h => serializeSaiP4BMv2PacketInHeader h
  | .ptpHeader h => serializePtpHeader h
  | .pspHeader h => serializePspHeader h
  | .csigHeader h => serializeCsigHeader h
  | .headerNotSet => .error headerNotSetInHeader

def serializeHeaders : Nat → List Header → StatusOr BitString
  | _,[] => .ok []
  | i,header :: headers => do
    let bits ← (serializeHeader header).mapError
      (·.prepend ("while trying to serialize packet.headers(" ++ natText i ++ "): "))
    let rest ← serializeHeaders (i + 1) headers
    .ok (bits ++ rest)

def invalidHeaderIndex (packet : Packet) (startHeaderIndex : Int) : Status :=
  invalidArgument ("Invalid header index " ++ decimal startHeaderIndex ++ " for a packet with " ++
    natText packet.headers.length ++ " headers.")

def rawSerializeFrom (packet : Packet) (startHeaderIndex : Int) : StatusOr BitString :=
  if startHeaderIndex > packet.headers.length ∨ startHeaderIndex < 0 then
    .error (invalidHeaderIndex packet startHeaderIndex)
  else do
    let bits ← serializeHeaders startHeaderIndex.toNat (packet.headers.drop startHeaderIndex.toNat)
    .ok (bits ++ bytesToBits packet.payload)

def rawSerializePacket (packet : Packet) : Fallible Bytes := do
  let bits ← orFail (rawSerializeFrom packet 0)
  bits.toByteString

end HeaderSerializers

def optionsSize (headerName options : String) : StatusOr Nat :=
  if options.isEmpty then .ok 0
  else ((hexStringToByteString options).mapError
    (·.prepend ("failed to parse uninterpreted_options in " ++ headerName ++ ": "))).map fun bytes => 8 * bytes.length

def headerSizeInBits : Header → StatusOr Nat
  | .ethernetHeader _ => .ok EthernetHeader.layout.bitwidth
  | .ipv4Header h => (optionsSize "Ipv4Header" h.uninterpretedOptions).map (Ipv4Header.layout.bitwidth + ·)
  | .ipv6Header _ => .ok Ipv6Header.layout.bitwidth
  | .hopByHopOptionsHeader _ => .ok HopByHopOptionsHeader.layout.bitwidth
  | .udpHeader _ => .ok UdpHeader.layout.bitwidth
  | .tcpHeader h => (optionsSize "TcpHeader" h.uninterpretedOptions).map (TcpHeader.layout.bitwidth + ·)
  | .arpHeader _ => .ok ArpHeader.layout.bitwidth
  | .icmpHeader _ => .ok IcmpHeader.layout.bitwidth
  | .vlanHeader _ => .ok VlanHeader.layout.bitwidth
  | .greHeader h => .ok (GreHeader.layout.bitwidth + if h.checksumPresent = "0x1" then 16 + 16 else 0)
  | .saiP4Bmv2PacketInHeader _ => .ok SaiP4BMv2PacketInHeader.layout.bitwidth
  | .ipfixHeader _ => .ok IpfixHeader.layout.bitwidth
  | .psampHeader _ => .ok PsampHeader.layout.bitwidth
  | .ptpHeader _ => .ok PtpHeader.layout.bitwidth
  | .pspHeader _ => .ok PspHeader.layout.bitwidth
  | .csigHeader _ => .ok CsigHeader.layout.bitwidth
  | .headerNotSet => .error headerNotSetInHeader

/-- The size of headers and payload as a number. -/
def bitsFrom (headers : List Header) (payload : Bytes) : StatusOr Nat :=
  (headers.mapM headerSizeInBits).map fun sizes => sizes.sum + 8 * payload.length

/-- An `int` accumulates the size. -/
def packetSizeInBits (packet : Packet) (startHeaderIndex : Int) : StatusOr Int :=
  if startHeaderIndex > packet.headers.length ∨ startHeaderIndex < 0 then
    .error (invalidHeaderIndex packet startHeaderIndex)
  else (bitsFrom (packet.headers.drop startHeaderIndex.toNat) packet.payload).map fun size => int32 size

def packetSizeInBytes (packet : Packet) (startHeaderIndex : Int) : StatusOr Int := do
  let bitSize ← packetSizeInBits packet startHeaderIndex
  if bitSize % 8 ≠ 0 then
    .error (invalidArgument ("packet size of " ++ decimal bitSize ++ " cannot be converted to bytes"))
  else .ok (bitSize / 8)

variable [InetText]

/-- Carry bits are added until none is left. -/
def addCarryBits (sum : Int) : Int :=
  if sum / 65536 ≠ 0 then addCarryBits (sum % 65536 + sum / 65536) else sum
-- a negative sum grows until it is not negative, any other one shrinks
termination_by if sum < 0 then 65536 + sum.natAbs else sum.natAbs
decreasing_by
  split <;> split <;> omega

/-- The complement of the ones' complement sum of all sixteen bit words. -/
def onesComplementChecksum (data : BitString) : StatusOr Nat :=
  let padded : BitString := data ++ List.replicate ((16 - data.length % 16) % 16) false
  if padded.size < 0 then
    .error ⟨.internal,"Only " ++ decimal padded.size ++ " bits left, but attempted to consume 16 bits."⟩
  else
    let words := (List.range (padded.size.toNat / 16)).map fun i => bitsToNat ((padded.drop (16 * i)).take 16)
    .ok (65535 - addCarryBits (int32 words.sum)).toNat

def ipv4HeaderChecksum (header : Ipv4Header) : StatusOr Nat := do
  let bits ← serializeIpv4Header { header with checksum := "0x0000" }
  onesComplementChecksum bits

/-- Reading outside the list of headers is a crash. -/
def headerAt (packet : Packet) (index : Int) : Fallible Header :=
  if index < 0 then .error (.thrown "packet.headers: index out of bounds")
  else match packet.headers[index.toNat]? with
    | some header => .ok header
    | none => .error (.thrown "packet.headers: index out of bounds")

def setHeader (packet : Packet) (index : Int) (header : Header) : Packet :=
  { packet with headers := packet.headers.set index.toNat header }

/-- Skips the options of an IPv6 header. -/
def findPrecedingIpHeader (packet : Packet) (headerIndex : Int) : Fallible Int :=
  let ipHeaderIndex := headerIndex - 1
  if ipHeaderIndex ≥ 0 then do
    let header ← headerAt packet ipHeaderIndex
    .ok (if header.headerCase = .hopByHopOptionsHeader then ipHeaderIndex - 1 else ipHeaderIndex)
  else .ok ipHeaderIndex

/-- The checksum of a UDP header with a pseudo header made of the header before it. -/
def udpChecksumAfter (packet : Packet) (udpHeaderIndex : Int) (udpHeader : UdpHeader) (precedingHeader : Header) :
    StatusOr (Option Nat) :=
  let withoutChecksum := setHeader packet udpHeaderIndex (.udpHeader { udpHeader with checksum := "0x0000" })
  match precedingHeader with
  | .ipv4Header header => do
    let source ← serializeField .ipv4 header.ipv4Source
    let destination ← serializeField .ipv4 header.ipv4Destination
    let protocol ← serializeField (.bits 8) header.protocol
    let length ← serializeField (.bits 16) udpHeader.length
    let bits ← rawSerializeFrom withoutChecksum udpHeaderIndex
    let checksum ← onesComplementChecksum (source ++ destination ++ natToBits 8 0 ++ protocol ++ length ++ bits)
    .ok (some checksum)
  | .ipv6Header header => do
    let source ← serializeField .ipv6 header.ipv6Source
    let destination ← serializeField .ipv6 header.ipv6Destination
    let length ← serializeField (.bits 16) udpHeader.length
    let nextHeader ← serializeField (.bits 8) "0x11"
    let bits ← rawSerializeFrom withoutChecksum udpHeaderIndex
    let checksum ← onesComplementChecksum
      (source ++ destination ++ natToBits 16 0 ++ length ++ natToBits 24 0 ++ nextHeader ++ bits)
    .ok (some checksum)
  | .pspHeader _ => .ok none
  | other => .error (invalidArgument
      ("UDP header must be preceded by an IP or PSP header, but got " ++ headerCaseName other.headerCase))

/-- The preceding header is looked at before the kind of the header itself. -/
def udpHeaderChecksum (packet : Packet) (udpHeaderIndex : Int) : Fallible (Option Nat) :=
  if udpHeaderIndex < 1 then
    .error (.status (invalidArgument "UDP header must be preceded by an IP or PSP header, but no header was found"))
  else if udpHeaderIndex ≥ packet.headers.length then
    .error (.status (invalidArgument ("UDP header index " ++ decimal udpHeaderIndex ++
      " is too large for the packet which only has " ++ natText packet.headers.length ++ " header(s).")))
  else do
    let ipHeaderIndex ← findPrecedingIpHeader packet udpHeaderIndex
    let precedingHeader ← headerAt packet ipHeaderIndex
    match ← headerAt packet udpHeaderIndex with
    | .udpHeader udpHeader => orFail (udpChecksumAfter packet udpHeaderIndex udpHeader precedingHeader)
    | other => .error (.status (invalidArgument ("UdpHeaderChecksum(packet, udp_header_index = " ++ decimal udpHeaderIndex ++
        "): packet.headers[" ++ decimal udpHeaderIndex ++ "] is a " ++ headerCaseName other.headerCase ++
        ", expected UdpHeader")))

/-- How an error of `IcmpHeaderChecksum` starts. -/
def icmpHeaderChecksumCall (icmpHeaderIndex : Int) : String :=
  "IcmpHeaderChecksum(packet, icmp_header_index = " ++ decimal icmpHeaderIndex ++ "): "

/-- The checksum of an ICMP header, with a pseudo header for IPv6 only. -/
def icmpChecksumAfter (withoutChecksum : Packet) (icmpHeaderIndex : Int) (precedingHeader : Header) : StatusOr Nat :=
  match precedingHeader with
  | .ipv6Header header => do
    let source ← serializeField .ipv6 header.ipv6Source
    let destination ← serializeField .ipv6 header.ipv6Destination
    let icmpv6Size ← packetSizeInBytes withoutChecksum icmpHeaderIndex
    let nextHeader ← serializeField (.bits 8) "0x3a"
    let bits ← rawSerializeFrom withoutChecksum icmpHeaderIndex
    onesComplementChecksum (source ++ destination ++ natToBits 32 (icmpv6Size % 2 ^ 32).toNat ++ natToBits 24 0 ++
      nextHeader ++ bits)
  | .ipv4Header _ => do
    let bits ← rawSerializeFrom withoutChecksum icmpHeaderIndex
    onesComplementChecksum bits
  | other => .error (invalidArgument (icmpHeaderChecksumCall icmpHeaderIndex ++
      "expected packet.headers[udp_header_index - 1] to be an IP header, got " ++ headerCaseName other.headerCase))

def icmpHeaderChecksum (packet : Packet) (icmpHeaderIndex : Int) : Fallible Nat :=
  if icmpHeaderIndex < 1 ∨ icmpHeaderIndex ≥ packet.headers.length then
    .error (.status (invalidArgument (icmpHeaderChecksumCall icmpHeaderIndex ++ "icmp_header_index must be in [1, " ++
      natText packet.headers.length ++ ") since the given packet has " ++ natText packet.headers.length ++
      " headers and the ICMP header must be preceded by an IP header")))
  else do
    match ← headerAt packet icmpHeaderIndex with
    | .icmpHeader icmpHeader =>
      let withoutChecksum := setHeader packet icmpHeaderIndex (.icmpHeader { icmpHeader with checksum := "0x0000" })
      let ipHeaderIndex ← findPrecedingIpHeader withoutChecksum icmpHeaderIndex
      let precedingHeader ← headerAt withoutChecksum ipHeaderIndex
      orFail (icmpChecksumAfter withoutChecksum icmpHeaderIndex precedingHeader)
    | other => .error (.status (invalidArgument (icmpHeaderChecksumCall icmpHeaderIndex ++ "packet.headers[" ++
        decimal icmpHeaderIndex ++ "] is a " ++ headerCaseName other.headerCase ++ ", expected IcmpHeader")))

/-- How an error of `GreHeaderChecksum` starts. -/
def greHeaderChecksumCall (greHeaderIndex : Int) : String :=
  "GreHeaderChecksum(packet, gre_header_index = " ++ decimal greHeaderIndex ++ "): "

def greHeaderChecksum (packet : Packet) (greHeaderIndex : Int) : Fallible Nat :=
  if greHeaderIndex ≥ packet.headers.length then
    .error (.status (invalidArgument (greHeaderChecksumCall greHeaderIndex ++ "gre_header_index must be in [0, " ++
      natText packet.headers.length ++ ") since the given packet has " ++ natText packet.headers.length ++ " headers.")))
  else do
    match ← headerAt packet greHeaderIndex with
    | .greHeader greHeader => orFail do
      let bits ← rawSerializeFrom
        (setHeader packet greHeaderIndex (.greHeader { greHeader with checksum := "0x0000" })) greHeaderIndex
      onesComplementChecksum bits
    | other => .error (.status (invalidArgument (greHeaderChecksumCall greHeaderIndex ++ "packet.headers[" ++
        decimal greHeaderIndex ++ "] is a " ++ headerCaseName other.headerCase ++ ", expected GreHeader")))

end SonicPins.Packetlib
