import SonicPins.Packetlib.Headers

/-! Reading headers from a bit string, and the header that should follow a header. -/
namespace SonicPins.Packetlib
open Lib Pdpi

inductive NextHeader where
  /-- No header encodes that the payload follows. -/
  | supported (headerCase : HeaderCase)
  | unsupported (reason : String)
  deriving DecidableEq,Repr

def getNextHeaderForEtherType (headerName ethertypeHexstring : String) : StatusOr NextHeader := do
  let ethertype ← (hexStringToInt ethertypeHexstring).mapError fun s =>
    { s with code := .internal }.prepend "unable to parse ethertype: "
  if ethertype ≤ 1535 then .ok (.supported .headerNotSet)
  else if ethertype = 0x0800 then .ok (.supported .ipv4Header)
  else if ethertype = 0x86dd then .ok (.supported .ipv6Header)
  else if ethertype = 0x0806 then .ok (.supported .arpHeader)
  else if ethertype = 0x8100 then .ok (.supported .vlanHeader)
  else if ethertype = 0x88f7 then .ok (.supported .ptpHeader)
  else if ethertype = 0x9900 then .ok (.supported .csigHeader)
  else .ok (.unsupported (headerName ++ ".ethertype " ++ ethertypeHexstring ++ ": unsupported"))

def Ipv4Header.getNextHeader (header : Ipv4Header) : NextHeader :=
  if header.protocol = "0x04" then .supported .ipv4Header
  else if header.protocol = "0x06" then .supported .tcpHeader
  else if header.protocol = "0x11" then .supported .udpHeader
  else if header.protocol = "0x01" then .supported .icmpHeader
  else if header.protocol = "0x29" then .supported .ipv6Header
  else if header.protocol = "0x2f" then .supported .greHeader
  -- reserved for experimentation
  else if header.protocol = "0xfd" then .supported .headerNotSet
  else if header.protocol = "0xfe" then .supported .headerNotSet
  else .unsupported ("ipv4_header.protocol " ++ header.protocol ++ ": unsupported")

/-- The choice that IPv6 and its hop-by-hop options share. -/
def nextHeaderOfIpv6 (fieldName nextHeader : String) : NextHeader :=
  if nextHeader = "0x04" then .supported .ipv4Header
  else if nextHeader = "0x06" then .supported .tcpHeader
  else if nextHeader = "0x11" then .supported .udpHeader
  else if nextHeader = "0x3a" then .supported .icmpHeader
  else if nextHeader = "0x29" then .supported .ipv6Header
  else if nextHeader = "0x2f" then .supported .greHeader
  else if nextHeader = "0xfd" then .supported .headerNotSet
  else if nextHeader = "0xfe" then .supported .headerNotSet
  else .unsupported (fieldName ++ " " ++ nextHeader ++ ": unsupported")

def Ipv6Header.getNextHeader (header : Ipv6Header) : NextHeader :=
  if header.nextHeader = "0x00" then .supported .hopByHopOptionsHeader
  else nextHeaderOfIpv6 "ipv6_header.next_header" header.nextHeader

def HopByHopOptionsHeader.getNextHeader (header : HopByHopOptionsHeader) : NextHeader :=
  if header.headerExtensionLength ≠ "0x00" then
    .unsupported "hop_by_hop_options_header.header_extension_length is not 0."
  else nextHeaderOfIpv6 "hop_by_hop_options_header.next_header" header.nextHeader

def kIpfixUdpDestPort : Int := 4739

def UdpHeader.getNextHeader (header : UdpHeader) : StatusOr NextHeader := do
  let destPort ← hexStringToInt header.destinationPort
  if destPort = kIpfixUdpDestPort then .ok (.supported .ipfixHeader)
  else if destPort = 319 then .ok (.supported .ptpHeader)
  else if destPort = 320 then .ok (.supported .ptpHeader)
  else if destPort = 1000 then .ok (.supported .pspHeader)
  else .ok (.supported .headerNotSet)

/-- A UDP header follows only if enough bits are unencrypted. -/
def PspHeader.getNextHeader (header : PspHeader) : StatusOr NextHeader :=
  if header.virtualizationCookiePresent = "0x1" then .ok (.unsupported "psp_header virtualization_cookie is not supported.")
  else do
    let cryptOffset ← hexStringToInt header.cryptOffset
    if header.nextHeader = "0x11" ∧ int32 (cryptOffset * 32) ≥ UdpHeader.layout.bitwidth then .ok (.supported .udpHeader)
    else .ok (.supported .headerNotSet)

def getNextHeader : Header → StatusOr NextHeader
  | .ethernetHeader h => getNextHeaderForEtherType "ethernet_header" h.ethertype
  | .ipv4Header h => .ok h.getNextHeader
  | .ipv6Header h => .ok h.getNextHeader
  | .hopByHopOptionsHeader h => .ok h.getNextHeader
  | .udpHeader h => h.getNextHeader
  | .tcpHeader _ => .ok (.supported .headerNotSet)
  | .arpHeader _ => .ok (.supported .headerNotSet)
  | .icmpHeader _ => .ok (.supported .headerNotSet)
  | .vlanHeader h => getNextHeaderForEtherType "vlan_header" h.ethertype
  | .csigHeader h => getNextHeaderForEtherType "csig_header" h.ethertype
  | .greHeader h => getNextHeaderForEtherType "gre_header" h.protocolType
  | .saiP4Bmv2PacketInHeader _ => .ok (.supported .ethernetHeader)
  | .ipfixHeader _ => .ok (.supported .psampHeader)
  | .psampHeader _ => .ok (.supported .headerNotSet)
  | .ptpHeader _ => .ok (.supported .headerNotSet)
  | .pspHeader h => h.getNextHeader
  | .headerNotSet => .ok (.supported .headerNotSet)

section Fields
variable [InetText]

/-- What the helpers put in a field if there are too few bits after all. -/
def internalError : String := "INTERNAL ERROR"

/-- So many bits, as a text made of their hexadecimal form. -/
def parseText (numBits : Int) (textOf : String → String) (data : BitString) : String × BitString :=
  match data.consumeHexString numBits with
  | .ok (hexString,rest) => (textOf hexString,rest)
  | .error _ => (internalError,data)

/-- The address that a hexadecimal text encodes. -/
def addressText {numBits : Nat} (toString : BitVec numBits → String) (hexString : String) : String :=
  match hexStringToBitset numBits hexString with
  | .ok bits => toString (BitVec.ofNat numBits bits)
  | .error _ => internalError

def parseBits (numBits : Int) : BitString → String × BitString := parseText numBits id
def parseMacAddress : BitString → String × BitString := parseText 48 (addressText MacAddress.toString)
def parseIpv4Address : BitString → String × BitString := parseText 32 (addressText Ipv4Address.toString)
def parseIpv6Address : BitString → String × BitString := parseText 128 (addressText Ipv6Address.toString)

def parseField : FieldFormat → BitString → String × BitString
  | .bits numBits => parseBits numBits
  | .mac => parseMacAddress
  | .ipv4 => parseIpv4Address
  | .ipv6 => parseIpv6Address

def parseFields : List FieldSpec → BitString → List String × BitString
  | [],data => ([],data)
  | field :: fields,data =>
    let (text,rest) := parseField field.format data
    let (texts,rest) := parseFields fields rest
    (text :: texts,rest)

end Fields

section HeaderParsers
variable [InetText]

def packetTooShort (description : String) (data : BitString) (needed : Nat) : Status :=
  invalidArgument ("Packet is too short to parse " ++ description ++ " next. Only " ++ decimal data.size ++
    " bits left, need at least " ++ natText needed ++ ".")

/-- The part of a fixed size, if there are enough bits. -/
def parseLayout {H : Type} (layout : HeaderLayout H) (data : BitString) : StatusOr (H × BitString) :=
  if data.size < layout.bitwidth then .error (packetTooShort layout.description data layout.bitwidth)
  else
    let (texts,rest) := parseFields layout.fields data
    .ok (layout.ofTexts texts,rest)

/-- The options that a header length in words announces, or what there is of them. -/
def parseOptions (headerLength : String) (data : BitString) : String × BitString :=
  match hexStringToInt headerLength with
  | .error _ => ("",data)
  | .ok words =>
    if words > 5 then
      let optionsBitWidth := 32 * (words - 5)
      parseBits (if data.size < optionsBitWidth then data.size else optionsBitWidth) data
    else ("",data)

def parseEthernetHeader (data : BitString) : StatusOr (EthernetHeader × BitString) := parseLayout EthernetHeader.layout data

def parseIpv4Header (data : BitString) : StatusOr (Ipv4Header × BitString) := do
  let (header,rest) ← parseLayout Ipv4Header.layout data
  let (options,rest) := parseOptions header.ihl rest
  .ok ({ header with uninterpretedOptions := options },rest)

def parseIpv6Header (data : BitString) : StatusOr (Ipv6Header × BitString) := parseLayout Ipv6Header.layout data

def parseHopByHopOptionsHeader (data : BitString) : StatusOr (HopByHopOptionsHeader × BitString) :=
  parseLayout HopByHopOptionsHeader.layout data

def parseUdpHeader (data : BitString) : StatusOr (UdpHeader × BitString) := parseLayout UdpHeader.layout data

def parseTcpHeader (data : BitString) : StatusOr (TcpHeader × BitString) := do
  let (header,rest) ← parseLayout TcpHeader.layout data
  let (options,rest) := parseOptions header.dataOffset rest
  .ok ({ header with uninterpretedOptions := options },rest)

def parseArpHeader (data : BitString) : StatusOr (ArpHeader × BitString) := parseLayout ArpHeader.layout data

def parseIcmpHeader (data : BitString) : StatusOr (IcmpHeader × BitString) := parseLayout IcmpHeader.layout data

def parseVlanHeader (data : BitString) : StatusOr (VlanHeader × BitString) := parseLayout VlanHeader.layout data

def parseCsigHeader (data : BitString) : StatusOr (CsigHeader × BitString) := parseLayout CsigHeader.layout data

/-- The checksum and the reserved field after it, or what there is of them. -/
def parseGreOptionalFields (header : GreHeader) (data : BitString) : GreHeader × BitString :=
  let checksum := parseBits (min data.size 16) data
  let reserved1 := parseBits (min checksum.2.size 16) checksum.2
  ({ header with checksum := checksum.1,reserved1 := reserved1.1 },reserved1.2)

/-- Whether the optional fields follow is peeked at before anything is consumed. -/
def parseGreHeader (data : BitString) : StatusOr (GreHeader × BitString) :=
  let size := GreHeader.layout.bitwidth
  if data.size < size then .error (packetTooShort GreHeader.layout.description data size)
  else do
    let checksumPresent ← data.peekHexString 1
    if checksumPresent = "0x1" then
      if data.size < (size + 32 : Nat) then
        .error (invalidArgument ("Packet is too short to parse a GRE header with optional fields. Only " ++
          decimal data.size ++ " bits left, need at least " ++ natText (size + 32) ++ "."))
      else (parseLayout GreHeader.layout data).map fun (header,rest) => parseGreOptionalFields header rest
    else parseLayout GreHeader.layout data

def parseSaiP4BMv2PacketInHeader (data : BitString) : StatusOr (SaiP4BMv2PacketInHeader × BitString) :=
  parseLayout SaiP4BMv2PacketInHeader.layout data

def parseIpfixHeader (data : BitString) : StatusOr (IpfixHeader × BitString) := parseLayout IpfixHeader.layout data

def parsePsampHeader (data : BitString) : StatusOr (PsampHeader × BitString) := parseLayout PsampHeader.layout data

def parsePtpHeader (data : BitString) : StatusOr (PtpHeader × BitString) := parseLayout PtpHeader.layout data

def parsePspHeader (data : BitString) : StatusOr (PspHeader × BitString) := parseLayout PspHeader.layout data

/-- A header with what is left of the data. -/
def asHeader {H : Type} (header : H → Header) (parsed : StatusOr (H × BitString)) : StatusOr (Header × BitString) :=
  parsed.map fun (h,rest) => (header h,rest)

/-- An error leaves the data as they are. -/
def parseHeader (headerCase : HeaderCase) (data : BitString) : StatusOr (Header × BitString) :=
  match headerCase with
  | .ethernetHeader => asHeader .ethernetHeader (parseEthernetHeader data)
  | .ipv4Header => asHeader .ipv4Header (parseIpv4Header data)
  | .ipv6Header => asHeader .ipv6Header (parseIpv6Header data)
  | .hopByHopOptionsHeader => asHeader .hopByHopOptionsHeader (parseHopByHopOptionsHeader data)
  | .udpHeader => asHeader .udpHeader (parseUdpHeader data)
  | .tcpHeader => asHeader .tcpHeader (parseTcpHeader data)
  | .arpHeader => asHeader .arpHeader (parseArpHeader data)
  | .icmpHeader => asHeader .icmpHeader (parseIcmpHeader data)
  | .vlanHeader => asHeader .vlanHeader (parseVlanHeader data)
  | .csigHeader => asHeader .csigHeader (parseCsigHeader data)
  | .greHeader => asHeader .greHeader (parseGreHeader data)
  | .saiP4Bmv2PacketInHeader => asHeader .saiP4Bmv2PacketInHeader (parseSaiP4BMv2PacketInHeader data)
  | .ipfixHeader => asHeader .ipfixHeader (parseIpfixHeader data)
  | .psampHeader => asHeader .psampHeader (parsePsampHeader data)
  | .ptpHeader => asHeader .ptpHeader (parsePtpHeader data)
  | .pspHeader => asHeader .pspHeader (parsePspHeader data)
  | .headerNotSet => .error (invalidArgument ("unexpected HeaderCase: " ++ headerCaseName .headerNotSet))

end HeaderParsers

variable [InetText]

/-- The loop of `ParsePacket`: the packet so far and the rest of the data, unless the
rounds do not suffice. -/
def parseHeaders : Nat → HeaderCase → BitString → Packet → Option (Packet × BitString)
  | _,.headerNotSet,data,packet => some (packet,data)
  | 0,_,_,_ => none
  | rounds + 1,nextHeader,data,packet =>
    match parseHeader nextHeader data with
    | .error s => some ({ packet with reasonsInvalid := packet.reasonsInvalid ++ [s.message] },data)
    | .ok (header,rest) =>
      match getNextHeader header with
      | .error _ => some (packet,rest)
      | .ok (.supported next) => parseHeaders rounds next rest { packet with headers := packet.headers ++ [header] }
      | .ok (.unsupported reason) =>
        some ({ packet with headers := packet.headers ++ [header],reasonNotFullyParsed := reason },rest)

end SonicPins.Packetlib
