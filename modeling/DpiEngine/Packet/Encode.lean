import DpiEngine.Library.Bytes
import DpiEngine.Packet.Parser

/-! # Reference encoding of frames

Frames as they are put on the wire: Ethernet, IPv4 with options or IPv6 with
extension headers, and TCP, UDP or ICMP. Each header carries the bounds that its
length fields impose.
-/

namespace DpiEngine

open Traced

/-- Options fill up to ten words of four bytes. -/
structure HeaderOptions where
  bytes : List UInt8
  words : ℕ
  length_eq : bytes.length = 4 * words
  words_le : words ≤ 10

instance : Inhabited HeaderOptions := ⟨⟨[], 0, rfl, Nat.zero_le _⟩⟩

def nibbles (high low : ℕ) : UInt8 := .ofNat (high * 16 + low)

structure IPv4Header where
  tos : UInt8 := 0
  totalLength : UInt16
  identification : UInt16 := 0
  fragment : UInt16 := 0
  ttl : UInt8 := 64
  checksum : UInt16 := 0
  /-- The addresses as the memory of the host holds them. -/
  src : UInt32
  dst : UInt32
  options : HeaderOptions := default

namespace IPv4Header

def ihl (h : IPv4Header) : ℕ := 5 + h.options.words

def encode (h : IPv4Header) (protocol : UInt8) : List UInt8 :=
  [nibbles 4 h.ihl, h.tos] ++ bytes16 h.totalLength.toNat ++ bytes16 h.identification.toNat ++
    bytes16 h.fragment.toNat ++ [h.ttl, protocol] ++ bytes16 h.checksum.toNat ++
    bytes32LE h.src ++ bytes32LE h.dst ++ h.options.bytes

def parsed (h : IPv4Header) (protocol : UInt8) (p : ParsedPacket) : ParsedPacket :=
  { p with
    ipVersion := 4
    ttl := h.ttl
    protocol := protocol
    srcIpRaw := h.src
    dstIpRaw := h.dst
    hasIp := true }

end IPv4Header

inductive ExtKind
  | hopByHop
  | routing
  | destOpts
  | auth
  deriving DecidableEq

namespace ExtKind

def code : ExtKind → UInt8
  | hopByHop => 0
  | routing => 43
  | destOpts => 60
  | auth => 51

def size (lengthByte : UInt8) : ExtKind → ℕ
  | auth => 4 * (lengthByte.toNat + 2)
  | hopByHop | routing | destOpts => 8 * (lengthByte.toNat + 1)

end ExtKind

inductive ExtHeader
  | sized (kind : ExtKind) (lengthByte : UInt8) (body : List UInt8)
      (size_eq : 2 + body.length = kind.size lengthByte)
  | fragment (reserved : UInt8) (flags : Fin 8) (identification : UInt32)

namespace ExtHeader

def code : ExtHeader → UInt8
  | sized kind _ _ _ => kind.code
  | fragment _ _ _ => 44

/-- A fragment header has the offset zero above its three lowest bits. -/
def encode (nextHdr : UInt8) : ExtHeader → List UInt8
  | sized _ lengthByte body _ => [nextHdr, lengthByte] ++ body
  | fragment reserved flags identification =>
    [nextHdr, reserved, 0, .ofNat flags] ++ bytes32 identification

end ExtHeader

/-- The code of the header in front of the payload of a chain. -/
def nextHeader (protocol : UInt8) : List ExtHeader → UInt8
  | [] => protocol
  | e :: _ => e.code

def encodeChain (protocol : UInt8) : List ExtHeader → List UInt8
  | [] => []
  | e :: es => e.encode (nextHeader protocol es) ++ encodeChain protocol es

structure IPv6Header where
  trafficClass : UInt8 := 0
  flowLabel : Fin (2 ^ 20) := 0
  payloadLength : UInt16
  hopLimit : UInt8 := 64
  src : IPv6Address
  dst : IPv6Address
  extensions : List ExtHeader := []
  extensions_le : extensions.length ≤ 10 := by decide

namespace IPv6Header

def encode (h : IPv6Header) (protocol : UInt8) : List UInt8 :=
  [nibbles 6 (h.trafficClass.toNat / 16),
    nibbles (h.trafficClass.toNat % 16) (h.flowLabel / 65536)] ++
    bytes16 (h.flowLabel % 65536) ++ bytes16 h.payloadLength.toNat ++
    [nextHeader protocol h.extensions, h.hopLimit] ++ h.src.toList ++ h.dst.toList ++
    encodeChain protocol h.extensions

def has (h : IPv6Header) (code : UInt8) : Bool := h.extensions.any (·.code = code)

def parsed (h : IPv6Header) (protocol : UInt8) (p : ParsedPacket) : ParsedPacket :=
  { p with
    ipVersion := 6
    ttl := h.hopLimit
    ipHopLimit := h.hopLimit
    ipTrafficClass := h.trafficClass
    ipFlowLabel := .ofNat h.flowLabel
    protocol := protocol
    srcIpv6 := h.src
    dstIpv6 := h.dst
    hasIp := true
    hasIpv6 := true
    hasIpv6HopByHop := h.has 0
    hasIpv6Routing := h.has 43
    hasIpv6Fragment := h.has 44
    hasIpv6DestOpts := h.has 60
    hasIpv6Auth := h.has 51 }

end IPv6Header

structure TCPHeader where
  srcPort : UInt16
  destPort : UInt16
  seq : UInt32 := 0
  ack : UInt32 := 0
  reserved : Fin 16 := 0
  flags : UInt8 := 0
  window : UInt16 := 0
  checksum : UInt16 := 0
  urgent : UInt16 := 0
  options : HeaderOptions := default

def TCPHeader.encode (h : TCPHeader) : List UInt8 :=
  bytes16 h.srcPort.toNat ++ bytes16 h.destPort.toNat ++ bytes32 h.seq ++ bytes32 h.ack ++
    [nibbles (5 + h.options.words) h.reserved, h.flags] ++ bytes16 h.window.toNat ++
    bytes16 h.checksum.toNat ++ bytes16 h.urgent.toNat ++ h.options.bytes

def TCPHeader.parsed (h : TCPHeader) (p : ParsedPacket) : ParsedPacket :=
  { p with
    srcPort := h.srcPort
    destPort := h.destPort
    seqNumber := h.seq
    ackNumber := h.ack
    tcpFlags := h.flags
    hasTcp := true }

structure UDPHeader where
  srcPort : UInt16
  destPort : UInt16
  checksum : UInt16 := 0

/-- The length counts the header and the payload. -/
def UDPHeader.encode (h : UDPHeader) (length : ℕ) : List UInt8 :=
  bytes16 h.srcPort.toNat ++ bytes16 h.destPort.toNat ++ bytes16 length ++
    bytes16 h.checksum.toNat

def UDPHeader.parsed (h : UDPHeader) (p : ParsedPacket) : ParsedPacket :=
  { p with
    srcPort := h.srcPort
    destPort := h.destPort
    hasUdp := true }

structure ICMPHeader where
  icmpType : UInt8
  icmpCode : UInt8
  checksum : UInt16 := 0
  rest : UInt32 := 0

def ICMPHeader.encode (h : ICMPHeader) : List UInt8 :=
  [h.icmpType, h.icmpCode] ++ bytes16 h.checksum.toNat ++ bytes32 h.rest

inductive IPHeader
  | v4 (h : IPv4Header)
  | v6 (h : IPv6Header)

/-- A transport header with its payload; a UDP length has to fit its field. -/
inductive TransportSegment
  | tcp (h : TCPHeader) (payload : List UInt8)
  | udp (h : UDPHeader) (payload : List UInt8) (fits : 8 + payload.length < 2 ^ 16)
  | icmp (h : ICMPHeader) (payload : List UInt8)

namespace TransportSegment

def payload : TransportSegment → List UInt8
  | tcp _ payload | udp _ payload _ | icmp _ payload => payload

def header : TransportSegment → List UInt8
  | tcp h _ => h.encode
  | udp h payload _ => h.encode (8 + payload.length)
  | icmp h _ => h.encode

def parsed (ip : IPHeader) (p : ParsedPacket) : TransportSegment → ParsedPacket
  | tcp h _ => h.parsed p
  | udp h _ _ => h.parsed p
  | icmp h _ =>
    match ip with
    | .v4 _ => { p with hasIcmp := true, icmpType := h.icmpType, icmpCode := h.icmpCode }
    | .v6 _ => { p with hasIcmpv6 := true, icmpType := h.icmpType, icmpCode := h.icmpCode }

/-- ICMP has a protocol number of its own in IPv6. -/
def protocol (ip : IPHeader) : TransportSegment → UInt8
  | tcp _ _ => 6
  | udp _ _ _ => 17
  | icmp _ _ =>
    match ip with
    | .v4 _ => 1
    | .v6 _ => 58

end TransportSegment

structure Datagram where
  destMac : Vector UInt8 6 := Vector.replicate 6 0
  srcMac : Vector UInt8 6 := Vector.replicate 6 0
  ip : IPHeader
  segment : TransportSegment

namespace Datagram

def etherType (d : Datagram) : ℕ :=
  match d.ip with
  | .v4 _ => 0x0800
  | .v6 _ => 0x86DD

def ipHeader (d : Datagram) : List UInt8 :=
  match d.ip with
  | .v4 h => h.encode (d.segment.protocol d.ip)
  | .v6 h => h.encode (d.segment.protocol d.ip)

def headers (d : Datagram) : List UInt8 :=
  d.destMac.toList ++ d.srcMac.toList ++ bytes16 d.etherType ++ d.ipHeader ++ d.segment.header

def encode (d : Datagram) : List UInt8 := d.headers ++ d.segment.payload

def layers (d : Datagram) (p : ParsedPacket) : ParsedPacket :=
  match d.ip with
  | .v4 h => d.segment.parsed d.ip (h.parsed (d.segment.protocol d.ip) p)
  | .v6 h => d.segment.parsed d.ip (h.parsed (d.segment.protocol d.ip) p)

def parsed (d : Datagram) (tsSec tsUsec : UInt32) (payload : List UInt8) : ParsedPacket :=
  { d.layers { timestampSec := tsSec, timestampUsec := tsUsec, etherType := d.etherType } with
    payloadLength := payload.length
    payloadData := if payload = [] then none else some d.headers.length }

end Datagram

/-- The bytes that the payload pointer and length of a packet describe. -/
def ParsedPacket.payload (p : ParsedPacket) (data : List UInt8) : List UInt8 :=
  match p.payloadData with
  | none => []
  | some offset => (data.drop offset).take p.payloadLength

end DpiEngine
