import DpiEngine.Flow.Key
import DpiEngine.Library.Traced

/-! # The packet parser

A raw frame is parsed through Ethernet, IPv4 or IPv6 with its extension
headers, and TCP, UDP or ICMP. Every header parser returns the extended packet
and the offset behind the header, or rejects the frame. The texts of addresses
are not used by the engine and left out.
-/

namespace DpiEngine

open Traced

namespace EtherType

def IPv4 : ℕ := 0x0800
def IPv6 : ℕ := 0x86DD

end EtherType

namespace Protocol

def ICMP : UInt8 := 1
def TCP : UInt8 := 6
def UDP : UInt8 := 17
def ICMPv6 : UInt8 := 58
def hopByHop : UInt8 := 0
def routing : UInt8 := 43
def fragment : UInt8 := 44
def destOpts : UInt8 := 60
def noNextHdr : UInt8 := 59
def auth : UInt8 := 51

end Protocol

structure RawPacket where
  tsSec : UInt32 := 0
  tsUsec : UInt32 := 0
  data : List UInt8
  deriving DecidableEq, Repr

structure ParsedPacket where
  timestampSec : UInt32 := 0
  timestampUsec : UInt32 := 0
  etherType : ℕ := 0
  hasIp : Bool := false
  ipVersion : UInt8 := 0
  srcIpRaw : UInt32 := 0
  dstIpRaw : UInt32 := 0
  hasIpv6 : Bool := false
  srcIpv6 : IPv6Address := Vector.replicate 16 0
  dstIpv6 : IPv6Address := Vector.replicate 16 0
  ipHopLimit : UInt8 := 0
  ipFlowLabel : UInt32 := 0
  ipTrafficClass : UInt8 := 0
  ipv6ExtUnsupported : Bool := false
  protocol : UInt8 := 0
  ttl : UInt8 := 0
  hasTcp : Bool := false
  hasUdp : Bool := false
  srcPort : UInt16 := 0
  destPort : UInt16 := 0
  tcpFlags : UInt8 := 0
  seqNumber : UInt32 := 0
  ackNumber : UInt32 := 0
  hasIcmp : Bool := false
  hasIcmpv6 : Bool := false
  icmpType : UInt8 := 0
  icmpCode : UInt8 := 0
  hasIpv6HopByHop : Bool := false
  hasIpv6Routing : Bool := false
  hasIpv6Fragment : Bool := false
  hasIpv6DestOpts : Bool := false
  hasIpv6Auth : Bool := false
  payloadLength : ℕ := 0
  /-- The offset in the frame that `payload_data` points to, none for a null pointer. -/
  payloadData : Option ℕ := none

def lowNibble (a : UInt8) : ℕ := a.toNat &&& 0x0F

def highNibble (a : UInt8) : ℕ := a.toNat >>> 4 &&& 0x0F

def readIPv6Address (data : List UInt8) (i : ℕ) : Traced IPv6Address := do
  let bytes ← readBytes data i 16
  pure (Vector.ofFn fun k => bytes.getD k 0)

namespace PacketParser

def parseEthernet (data : List UInt8) (parsed : ParsedPacket) :
    Traced (Option (ParsedPacket × ℕ)) := do
  if data.length < 14 then return none
  let _destMac ← readBytes data 0 6
  let _srcMac ← readBytes data 6 6
  let etherType ← read16 data 12
  pure (some ({ parsed with etherType := etherType }, 14))

def parseIPv4 (data : List UInt8) (parsed : ParsedPacket) (offset : ℕ) :
    Traced (Option (ParsedPacket × ℕ)) := do
  if data.length < offset + 20 then return none
  let versionIhl ← read data offset
  if highNibble versionIhl ≠ 4 then return none
  let ipHdrLen := lowNibble versionIhl * 4
  if ipHdrLen < 20 ∨ data.length < offset + ipHdrLen then return none
  let ttl ← read data (offset + 8)
  let protocol ← read data (offset + 9)
  let srcIpRaw ← read32LE data (offset + 12)
  let dstIpRaw ← read32LE data (offset + 16)
  pure (some ({ parsed with
    ipVersion := 4
    ttl := ttl
    protocol := protocol
    srcIpRaw := srcIpRaw
    dstIpRaw := dstIpRaw
    hasIp := true }, offset + ipHdrLen))

def isExtHeader (nh : UInt8) : Bool :=
  nh = Protocol.hopByHop || nh = Protocol.routing || nh = Protocol.fragment ||
    nh = Protocol.destOpts || nh = Protocol.auth

def markExtHeader (parsed : ParsedPacket) (nextHdr : UInt8) : ParsedPacket :=
  if nextHdr = Protocol.hopByHop then { parsed with hasIpv6HopByHop := true }
  else if nextHdr = Protocol.routing then { parsed with hasIpv6Routing := true }
  else if nextHdr = Protocol.fragment then { parsed with hasIpv6Fragment := true }
  else if nextHdr = Protocol.destOpts then { parsed with hasIpv6DestOpts := true }
  else if nextHdr = Protocol.auth then { parsed with hasIpv6Auth := true }
  else parsed

def extUnsupported (parsed : ParsedPacket) : ParsedPacket :=
  { parsed with ipv6ExtUnsupported := true }

/-- The authentication header counts words of four bytes, the other headers of eight. -/
def extHdrTotal (nextHdr hdrExtLen : UInt8) : ℕ :=
  if nextHdr = Protocol.auth then (hdrExtLen.toNat + 2) * 4 else (hdrExtLen.toNat + 1) * 8

/-- What one round of the walk over the extension headers leads to. -/
inductive WalkStep
  | next (offset : ℕ) (nextHdr : UInt8) (parsed : ParsedPacket)
  | stop (offset : ℕ) (parsed : ParsedPacket)

/-- A fragment header; the walk stops at a fragment that is not the first. -/
def walkFragment (data : List UInt8) (offset : ℕ) (parsed : ParsedPacket) : Traced WalkStep := do
  if offset + 8 > data.length then return .stop offset (extUnsupported parsed)
  let nextNh ← read data offset
  let fragData ← read16 data (offset + 2)
  let fragOffset := (fragData &&& 0xFFF8) >>> 3
  if fragOffset > 0 then
    return .stop (offset + 8) (extUnsupported { parsed with protocol := nextNh })
  pure (.next (offset + 8) nextNh parsed)

/-- An extension header of variable length. -/
def walkVariable (data : List UInt8) (offset : ℕ) (nextHdr : UInt8) (parsed : ParsedPacket) :
    Traced WalkStep := do
  if offset + 2 > data.length then return .stop offset (extUnsupported parsed)
  let nhField ← read data offset
  let hdrExtLen ← read data (offset + 1)
  let hdrTotal := extHdrTotal nextHdr hdrExtLen
  if offset + hdrTotal > data.length ∨ hdrTotal < 8 then
    return .stop offset (extUnsupported parsed)
  pure (.next (offset + hdrTotal) nhField parsed)

def walkHeader (data : List UInt8) (offset : ℕ) (nextHdr : UInt8) (parsed : ParsedPacket) :
    Traced WalkStep :=
  if nextHdr = Protocol.fragment then walkFragment data offset (markExtHeader parsed nextHdr)
  else walkVariable data offset nextHdr (markExtHeader parsed nextHdr)

/-- The loop over at most `count` extension headers: next header, offset and packet behind them. -/
def walkIPv6ExtHeaders (data : List UInt8) : ℕ → ℕ → UInt8 → ParsedPacket →
    Traced (UInt8 × ℕ × ParsedPacket)
  | 0, offset, nextHdr, parsed => pure (nextHdr, offset, parsed)
  | count + 1, offset, nextHdr, parsed =>
    if isExtHeader nextHdr then do
      match ← walkHeader data offset nextHdr parsed with
      | .next offset nextHdr parsed => walkIPv6ExtHeaders data count offset nextHdr parsed
      | .stop offset parsed => pure (Protocol.noNextHdr, offset, parsed)
    else pure (nextHdr, offset, parsed)

def maxExtHeaders : ℕ := 10

def parseIPv6 (data : List UInt8) (parsed : ParsedPacket) (offset : ℕ) :
    Traced (Option (ParsedPacket × ℕ)) := do
  if data.length < offset + 40 then return none
  let b0 ← read data offset
  if highNibble b0 ≠ 6 then return none
  let b1 ← read data (offset + 1)
  let b2 ← read data (offset + 2)
  let b3 ← read data (offset + 3)
  let _payloadLen ← read16 data (offset + 4)
  let nextHdr ← read data (offset + 6)
  let hopLimit ← read data (offset + 7)
  let srcIpv6 ← readIPv6Address data (offset + 8)
  let dstIpv6 ← readIPv6Address data (offset + 24)
  let parsed := { parsed with
    ipTrafficClass := .ofNat (lowNibble b0 <<< 4 ||| highNibble b1)
    ipFlowLabel := .ofNat (lowNibble b1 <<< 16 ||| b2.toNat <<< 8 ||| b3.toNat)
    ipHopLimit := hopLimit
    ttl := hopLimit
    srcIpv6 := srcIpv6
    dstIpv6 := dstIpv6
    ipVersion := 6
    hasIp := true
    hasIpv6 := true }
  let (protocol, offset, parsed) ←
    walkIPv6ExtHeaders data maxExtHeaders (offset + 40) nextHdr parsed
  pure (some ({ parsed with protocol := protocol }, offset))

def parseTCP (data : List UInt8) (parsed : ParsedPacket) (offset : ℕ) :
    Traced (Option (ParsedPacket × ℕ)) := do
  if data.length < offset + 20 then return none
  let srcPort ← read16 data offset
  let destPort ← read16 data (offset + 2)
  let seqNumber ← read32 data (offset + 4)
  let ackNumber ← read32 data (offset + 8)
  let b12 ← read data (offset + 12)
  let dataOffset := highNibble b12
  if dataOffset < 5 ∨ dataOffset > 15 then return none
  let tcpHdrLen := dataOffset * 4
  if data.length < offset + tcpHdrLen then return none
  let tcpFlags ← read data (offset + 13)
  pure (some ({ parsed with
    srcPort := .ofNat srcPort
    destPort := .ofNat destPort
    seqNumber := seqNumber
    ackNumber := ackNumber
    tcpFlags := tcpFlags
    hasTcp := true }, offset + tcpHdrLen))

def parseUDP (data : List UInt8) (parsed : ParsedPacket) (offset : ℕ) :
    Traced (Option (ParsedPacket × ℕ)) := do
  if data.length < offset + 8 then return none
  let srcPort ← read16 data offset
  let destPort ← read16 data (offset + 2)
  let udpLen ← read16 data (offset + 4)
  if udpLen < 8 then return none
  if offset + udpLen > data.length then return none
  pure (some ({ parsed with
    srcPort := .ofNat srcPort
    destPort := .ofNat destPort
    hasUdp := true }, offset + 8))

/-- The common part of `parseICMP` and `parseICMPv6`, which set different flags. -/
def parseICMPHeader (mark : ParsedPacket → ParsedPacket) (data : List UInt8)
    (parsed : ParsedPacket) (offset : ℕ) : Traced (Option (ParsedPacket × ℕ)) := do
  if data.length < offset + 8 then return none
  let icmpType ← read data offset
  let icmpCode ← read data (offset + 1)
  pure (some (mark { parsed with icmpType := icmpType, icmpCode := icmpCode }, offset + 8))

def parseICMP : List UInt8 → ParsedPacket → ℕ → Traced (Option (ParsedPacket × ℕ)) :=
  parseICMPHeader fun parsed => { parsed with hasIcmp := true }

def parseICMPv6 : List UInt8 → ParsedPacket → ℕ → Traced (Option (ParsedPacket × ℕ)) :=
  parseICMPHeader fun parsed => { parsed with hasIcmpv6 := true }

/-- The transport layer, with the ICMP of the IP version. -/
def parseTransport (icmp : UInt8)
    (parseIcmp : List UInt8 → ParsedPacket → ℕ → Traced (Option (ParsedPacket × ℕ)))
    (data : List UInt8) (parsed : ParsedPacket) (offset : ℕ) :
    Traced (Option (ParsedPacket × ℕ)) :=
  if parsed.protocol = Protocol.TCP then parseTCP data parsed offset
  else if parsed.protocol = Protocol.UDP then parseUDP data parsed offset
  else if parsed.protocol = icmp then parseIcmp data parsed offset
  else pure (some (parsed, offset))

/-- The layers above Ethernet. Other ether types are accepted without an IP layer. -/
def parseLayers (data : List UInt8) (parsed : ParsedPacket) (offset : ℕ) :
    Traced (Option (ParsedPacket × ℕ)) :=
  if parsed.etherType = EtherType.IPv4 then do
    match ← parseIPv4 data parsed offset with
    | none => pure none
    | some (parsed, offset) => parseTransport Protocol.ICMP parseICMP data parsed offset
  else if parsed.etherType = EtherType.IPv6 then do
    match ← parseIPv6 data parsed offset with
    | none => pure none
    | some (parsed, offset) => parseTransport Protocol.ICMPv6 parseICMPv6 data parsed offset
  else pure (some (parsed, offset))

def setPayload (parsed : ParsedPacket) (data : List UInt8) (offset : ℕ) : ParsedPacket :=
  if offset < data.length then
    { parsed with payloadLength := data.length - offset, payloadData := some offset }
  else parsed

def parse (raw : RawPacket) : Traced (Option ParsedPacket) := do
  let parsed : ParsedPacket := { timestampSec := raw.tsSec, timestampUsec := raw.tsUsec }
  match ← parseEthernet raw.data parsed with
  | none => pure none
  | some (parsed, offset) =>
    match ← parseLayers raw.data parsed offset with
    | none => pure none
    | some (parsed, offset) => pure (some (setPayload parsed raw.data offset))

end PacketParser

end DpiEngine
