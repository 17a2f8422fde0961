import SonicPins.Packetlib.Validation

/-! Filling in the fields of a packet that are computed from others. -/
namespace SonicPins.Packetlib
open Lib Pdpi

variable [InetText]

/-- A status that an update returns, with a text before its message. -/
def prepended {α : Type} (note : String) (result : StatusOr α) : Fallible α := orFail (result.mapError (·.prepend note))

def computes (overwrite : Bool) (field : String) : Bool := field.isEmpty || overwrite

def constantOr (overwrite : Bool) (constant field : String) : String := if computes overwrite field then constant else field

def computedText (overwrite : Bool) (compute : Fallible String) (field : String) : Fallible String :=
  if computes overwrite field then compute else .ok field

/-- A computed number for a field of so many bits. -/
def computedOr (overwrite : Bool) (numBits : Nat) (compute : Fallible Int) (field : String) : Fallible String :=
  computedText overwrite (compute.map (bitsetToHexString numBits)) field

def checksumOr (overwrite : Bool) (compute : Fallible Nat) (field : String) : Fallible String :=
  computedText overwrite (compute.map fun checksum : Nat => bitsetToHexString 16 checksum) field

/-- A missing ethertype counts as zero. -/
def ethertypeValue (ethertype : String) : Fallible Int := if ethertype.isEmpty then .ok 0 else orFail (hexStringToInt ethertype)

/-- Only a final Ethernet header has its payload size for an ethertype. -/
def updateEthernetHeader (packet : Packet) (overwrite : Bool) (headerIndex : Nat) (header : EthernetHeader) :
    Fallible (EthernetHeader × Bool) := do
  let ethertype ← ethertypeValue header.ethertype
  if computes overwrite header.ethertype ∧ ethertype ≤ 1500 ∧ headerIndex + 1 = packet.headers.length then
    match packetSizeInBytes packet (headerIndex + 1) with
    | .error s => .error (.status (invalidArgument ("unable to compute payload size: " ++ s.toString)))
    | .ok size =>
      if size > 1500 then .error (.status (invalidArgument ("payload size " ++ decimal size ++ " exceeds MTU")))
      else .ok ({ header with ethertype := bitsetToHexString 16 size },true)
  else .ok (header,false)

/-- The header length in words that the options make. -/
def computedIhl (errorPrefix options : String) : Fallible String :=
  if options.isEmpty then .ok "0x5"
  else match strDropPrefix "0x" options with
    | some digits =>
      if (utf8 digits).length * 4 % 32 = 0 then .ok (bitsetToHexString 4 (5 + int32 ((utf8 digits).length * 4 / 32 : Nat)))
      else .error (.status (invalidArgument (errorPrefix ++ "ihl: uninterpreted_options field is invalid")))
    | none => .error (.status (invalidArgument (errorPrefix ++ "ihl: uninterpreted_options field is invalid")))

/-- The size is that of the packet as it is, the checksum that of the header so far. -/
def updateIpv4Header (packet : Packet) (overwrite : Bool) (errorPrefix : String) (headerIndex : Nat) (header : Ipv4Header) :
    Fallible Ipv4Header := do
  let ihl ← computedText overwrite (computedIhl errorPrefix header.uninterpretedOptions) header.ihl
  let totalLength ← computedOr overwrite 16 (prepended (errorPrefix ++ "total_length: ") (packetSizeInBytes packet headerIndex))
    header.totalLength
  let header := { header with version := constantOr overwrite "0x4" header.version,ihl,totalLength }
  let checksum ← checksumOr overwrite (prepended (errorPrefix ++ "checksum: ") (ipv4HeaderChecksum header)) header.checksum
  .ok { header with checksum }

def updateIpv6Header (packet : Packet) (overwrite : Bool) (errorPrefix : String) (headerIndex : Nat) (header : Ipv6Header) :
    Fallible Ipv6Header := do
  let payloadLength ← computedOr overwrite 16
    (prepended (errorPrefix ++ "payload_length: ") (packetSizeInBytes packet (headerIndex + 1))) header.payloadLength
  .ok { header with version := constantOr overwrite "0x6" header.version,payloadLength }

/-- Padding for the missing bytes. The number of missing bytes wraps around as an `int`. -/
def paddingFor (optionsAndPadding : String) : String :=
  let numMissingPadding := int32 (((12 - ((utf8 optionsAndPadding).length - 2 : Int)) % 2 ^ 64) / 2)
  if numMissingPadding ≥ 2 then
    optionsAndPadding ++ "010" ++ decimal (numMissingPadding - 2) ++
      String.join (List.replicate (numMissingPadding - 2).toNat "00")
  else if numMissingPadding = 1 then optionsAndPadding ++ "00"
  else optionsAndPadding

def updateHopByHopOptionsHeader (overwrite : Bool) (header : HopByHopOptionsHeader) : HopByHopOptionsHeader :=
  { header with
    headerExtensionLength := constantOr overwrite "0x00" header.headerExtensionLength
    optionsAndPadding :=
      if header.optionsAndPadding.isEmpty then "0x010400000000"
      else if overwrite then paddingFor header.optionsAndPadding
      else header.optionsAndPadding }

/-- The checksum covers the packet with the length already set. -/
def updateUdpHeader (packet : Packet) (overwrite : Bool) (errorPrefix : String) (headerIndex : Nat) (header : UdpHeader) :
    Fallible UdpHeader := do
  let length ← computedOr overwrite 16 (prepended (errorPrefix ++ "length: ") (packetSizeInBytes packet headerIndex)) header.length
  let header := { header with length }
  if computes overwrite header.checksum then do
    let packet := setHeader packet headerIndex (.udpHeader header)
    match ← catchStatus (udpHeaderChecksum packet headerIndex) with
    | .error s => .error (.status (s.prepend (errorPrefix ++ "checksum: ")))
    | .ok (some checksum) => .ok { header with checksum := bitsetToHexString 16 checksum }
    | .ok none => .ok (if header.checksum.isEmpty then { header with checksum := bitsetToHexString 16 0 } else header)
  else .ok header

def updateArpHeader (overwrite : Bool) (header : ArpHeader) : ArpHeader :=
  { header with
    hardwareType := constantOr overwrite "0x0001" header.hardwareType
    protocolType := constantOr overwrite "0x0800" header.protocolType
    hardwareLength := constantOr overwrite "0x06" header.hardwareLength
    protocolLength := constantOr overwrite "0x04" header.protocolLength }

def updateIcmpHeader (packet : Packet) (overwrite : Bool) (headerIndex : Nat) (header : IcmpHeader) : Fallible IcmpHeader := do
  let checksum ← checksumOr overwrite (icmpHeaderChecksum packet headerIndex) header.checksum
  .ok { header with checksum }

def updateTcpHeader (packet : Packet) (overwrite : Bool) (errorPrefix : String) (headerIndex : Nat) (header : TcpHeader) :
    Fallible TcpHeader :=
  if computes overwrite header.dataOffset then do
    let size ← prepended (errorPrefix ++ "data_offset: ") (packetSizeInBits packet headerIndex)
    let payloadSize ← prepended (errorPrefix ++ "data_offset: ") (packetSizeInBits packet (headerIndex + 1))
    let dataOffsetInBits := int32 (size - payloadSize)
    if dataOffsetInBits % 32 ≠ 0 then
      .error (.status (invalidArgument (errorPrefix ++ "data_offset: comuted offset of " ++ decimal dataOffsetInBits ++
        " bits is not a multiple of 32 bits; this indicates that uninterpreted_options is of invalid length")))
    else
      let dataOffset := dataOffsetInBits / 32
      if dataOffset < 5 ∨ dataOffset > 15 then
        .error (.status (invalidArgument ("data_offset: computed offset of " ++ decimal dataOffset ++
          " is outside of legal range [5, 15]; this indicates that uninterpreted_options is of invalid length")))
      else .ok { header with dataOffset := bitsetToHexString 4 dataOffset }
  else .ok header

def updateGreHeader (packet : Packet) (overwrite : Bool) (headerIndex : Nat) (header : GreHeader) : Fallible GreHeader :=
  if header.checksumPresent = "0x1" then do
    let checksum ← checksumOr overwrite (greHeaderChecksum packet headerIndex) header.checksum
    .ok { header with checksum,reserved1 := constantOr overwrite "0x0000" header.reserved1 }
  else .ok header

def updateIpfixHeader (packet : Packet) (overwrite : Bool) (errorPrefix : String) (headerIndex : Nat) (header : IpfixHeader) :
    Fallible IpfixHeader := do
  let length ← computedOr overwrite 16 (prepended (errorPrefix ++ "length: ") (packetSizeInBytes packet headerIndex)) header.length
  .ok { header with length }

def updatePsampHeader (packet : Packet) (overwrite : Bool) (errorPrefix : String) (headerIndex : Nat) (header : PsampHeader) :
    Fallible PsampHeader := do
  let length ← computedOr overwrite 16 (prepended (errorPrefix ++ "length: ") (packetSizeInBytes packet headerIndex)) header.length
  let packetSampledLength ← computedOr overwrite 16
    (prepended (errorPrefix ++ "packet_sampled_length: ") (packetSizeInBytes packet (headerIndex + 1))) header.packetSampledLength
  .ok { header with length,variableLength := constantOr overwrite "0xff" header.variableLength,packetSampledLength }

def updatePtpHeader (packet : Packet) (overwrite : Bool) (errorPrefix : String) (headerIndex : Nat) (header : PtpHeader) :
    Fallible PtpHeader := do
  let messageLength ← computedOr overwrite 16
    (prepended (errorPrefix ++ "length: ") (packetSizeInBytes packet headerIndex)) header.messageLength
  .ok { header with messageLength }

/-- A header with its computed fields, and whether one was computed. -/
def updateHeader (packet : Packet) (overwrite : Bool) (headerIndex : Nat) (header : Header) : Fallible (Header × Bool) :=
  let errorPrefix := headerCaseName header.headerCase ++ ": failed to compute packet.headers[" ++ natText headerIndex ++ "]."
  let computed (fields : List String) : Bool := fields.any (computes overwrite)
  match header with
  | .ethernetHeader h => (updateEthernetHeader packet overwrite headerIndex h).map fun (h,changes) => (.ethernetHeader h,changes)
  | .ipv4Header h => (updateIpv4Header packet overwrite errorPrefix headerIndex h).map fun new =>
      (.ipv4Header new,computed [h.version,h.ihl,h.totalLength,h.checksum])
  | .ipv6Header h => (updateIpv6Header packet overwrite errorPrefix headerIndex h).map fun new =>
      (.ipv6Header new,computed [h.version,h.payloadLength])
  | .hopByHopOptionsHeader h =>
      .ok (.hopByHopOptionsHeader (updateHopByHopOptionsHeader overwrite h),
        computed [h.headerExtensionLength,h.optionsAndPadding])
  | .udpHeader h => (updateUdpHeader packet overwrite errorPrefix headerIndex h).map fun new =>
      (.udpHeader new,computed [h.length,h.checksum])
  | .arpHeader h => .ok (.arpHeader (updateArpHeader overwrite h),
      computed [h.hardwareType,h.protocolType,h.hardwareLength,h.protocolLength])
  | .icmpHeader h => (updateIcmpHeader packet overwrite headerIndex h).map fun new => (.icmpHeader new,computed [h.checksum])
  | .tcpHeader h => (updateTcpHeader packet overwrite errorPrefix headerIndex h).map fun new =>
      (.tcpHeader new,computed [h.dataOffset])
  | .greHeader h => (updateGreHeader packet overwrite headerIndex h).map fun new =>
      (.greHeader new,h.checksumPresent = "0x1" && computed [h.checksum,h.reserved1])
  | .saiP4Bmv2PacketInHeader h => .ok (.saiP4Bmv2PacketInHeader h,false)
  | .ipfixHeader h => (updateIpfixHeader packet overwrite errorPrefix headerIndex h).map fun new =>
      (.ipfixHeader new,computed [h.length])
  | .psampHeader h => (updatePsampHeader packet overwrite errorPrefix headerIndex h).map fun new =>
      (.psampHeader new,computed [h.length,h.variableLength,h.packetSampledLength])
  | .ptpHeader h => (updatePtpHeader packet overwrite errorPrefix headerIndex h).map fun new =>
      (.ptpHeader new,computed [h.messageLength])
  | .vlanHeader h => .ok (.vlanHeader h,false)
  | .csigHeader h => .ok (.csigHeader h,false)
  | .pspHeader h => .ok (.pspHeader h,false)
  | .headerNotSet => .error (.status (invalidArgument "Invalid packet with HEADER_NOT_SET: "))

/-- From the innermost header outwards. -/
def updateHeaders (overwrite : Bool) : Nat → Packet → Bool → Fallible (Packet × Bool)
  | 0,packet,changes => .ok (packet,changes)
  | headerIndex + 1,packet,changes => do
    let header ← headerAt packet headerIndex
    let (new,changed) ← updateHeader packet overwrite headerIndex header
    updateHeaders overwrite headerIndex (setHeader packet headerIndex new) (changes || changed)

/-- The updated packet and whether a field was computed. -/
def updateComputedFields (packet : Packet) (overwrite : Bool) : Fallible (Packet × Bool) :=
  updateHeaders overwrite packet.headers.length packet false

def updateMissingComputedFields (packet : Packet) : Fallible (Packet × Bool) := updateComputedFields packet false
def updateAllComputedFields (packet : Packet) : Fallible (Packet × Bool) := updateComputedFields packet true

end SonicPins.Packetlib
