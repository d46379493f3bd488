import DpiEngine.FastPath.Model
import DpiEngine.Packet.Frame
import DpiEngine.Packet.Payload
import DpiEngine.Packet.RoundTrip
import DpiEngine.Pipeline.Sequential
import DpiEngine.Traffic.Generator

/-! # The packets of the generator

Every packet that the script writes is the encoding of a datagram. The parser
workers accept it, and its job has the addresses, ports, flags and payload that
the script has put into it.
-/

namespace DpiEngine

open Traced

/-- The job has the content of a frame with these fields. -/
structure PacketJob.Carries (job : PacketJob) (tuple : FiveTuple) (flags : UInt8)
    (payload frame : List UInt8) : Prop where
  isIPv4 : job.IsIPv4
  tuple : job.tuple = tuple
  flags : job.tcpFlags = flags
  payload : job.payload = payload
  data : job.data = frame

namespace Datagram

variable (d : Datagram) {h : IPv4Header}

def ports : UInt16 × UInt16 :=
  match d.segment with
  | .tcp h _ => (h.srcPort, h.destPort)
  | .udp h _ _ => (h.srcPort, h.destPort)
  | .icmp _ _ => (0, 0)

def flags : UInt8 :=
  match d.segment with
  | .tcp h _ => h.flags
  | _ => 0

def Supported (d : Datagram) (h : IPv4Header) : Prop :=
  d.ip = .v4 h ∧ (d.segment.protocol d.ip = 6 ∨ d.segment.protocol d.ip = 17)

theorem parsed_fields (hd : d.Supported h) (tsSec tsUsec : UInt32) (payload : List UInt8) :
    ParserWorker.jobTuple (d.parsed tsSec tsUsec payload) =
        ⟨h.src, h.dst, d.ports.1, d.ports.2, d.segment.protocol d.ip⟩ ∧
      (d.parsed tsSec tsUsec payload).tcpFlags = d.flags ∧
      (d.parsed tsSec tsUsec payload).hasIp = true ∧
      (d.parsed tsSec tsUsec payload).hasIpv6 = false ∧
      ((d.parsed tsSec tsUsec payload).hasTcp = true ∨
        (d.parsed tsSec tsUsec payload).hasUdp = true) := by
  obtain ⟨destMac, srcMac, ip, segment⟩ := d
  obtain ⟨rfl, hprotocol⟩ := hd
  cases segment with
  | tcp tcp data => exact ⟨rfl, rfl, rfl, rfl, .inl rfl⟩
  | udp udp data fits => exact ⟨rfl, rfl, rfl, rfl, .inr rfl⟩
  | icmp icmp data => rcases hprotocol with hprotocol | hprotocol <;> cases hprotocol

theorem exists_job (hd : d.Supported h) (tsSec tsUsec packetId : UInt32) :
    ∃ job, (ParserWorker.parseJob ⟨tsSec, tsUsec, d.encode⟩ packetId).value = some (some job) ∧
      job.Carries ⟨h.src, h.dst, d.ports.1, d.ports.2, d.segment.protocol d.ip⟩ d.flags
        d.segment.payload d.encode := by
  have hparse := PacketParser.parse_encode_append d [] tsSec tsUsec
  have hpayload := payload_parsed d [] tsSec tsUsec
  rw [List.append_nil, List.append_nil] at hparse hpayload
  obtain ⟨htuple, hflags, hip, hv6, htransport⟩ :=
    d.parsed_fields hd tsSec tsUsec d.segment.payload
  generalize d.parsed tsSec tsUsec d.segment.payload = parsed at *
  obtain ⟨protocol, o, o', hheader, hat, hlen, hptr⟩ := PacketParser.parse_some hparse htransport
  have h14 : 14 < d.encode.length := by
    have := hheader.le
    have := hat.header_le
    dsimp only at *
    omega
  rw [hv6] at hheader
  have hleads : LeadsToPayload d.encode protocol o (ihlEnd d.encode) := by
    cases hheader with
    | ipv4 => exact leadsToPayload_self hat
  obtain ⟨offset, hoffset, hend⟩ := (jobPayloadOffset_leads_iff hat).mpr hleads
  have hjob : (ParserWorker.createPacketJob ⟨tsSec, tsUsec, d.encode⟩ parsed packetId).value = _ :=
    value_createPacketJob h14
  rw [hoffset, Option.map_some] at hjob
  have hparseJob : (ParserWorker.parseJob ⟨tsSec, tsUsec, d.encode⟩ packetId).value =
      (ParserWorker.createPacketJob ⟨tsSec, tsUsec, d.encode⟩ parsed packetId).value.map some := by
    rw [ParserWorker.parseJob, value_bind, hparse, Option.bind_some]
    dsimp only
    rw [value_bind, hjob]
    rfl
  refine ⟨_, hparseJob.trans (congrArg (Option.map some) hjob), ⟨?_, ?_⟩, htuple, hflags, ?_, rfl⟩
  · rw [ParserWorker.jobFlowKey, hv6, hip]
    rfl
  · rw [ParserWorker.jobFlowKey, hv6, hip]
    rfl
  · rw [← hpayload, ParsedPacket.payload, hptr, hlen, PacketJob.payload]
    dsimp only at *
    rcases hend with rfl | ⟨rfl, hle⟩
    · split_ifs
      · rfl
      · exact List.take_zero
    · rw [if_neg (by omega), if_neg (by omega), List.take_zero]

end Datagram

namespace TestPcap

variable {ident : UInt16} {srcMac dstMac : MacAddress} {srcIp dstIp : Octets}
  {srcPort dstPort seq ack n : ℕ} {flags : UInt8} {data frame l : List UInt8}

theorem packB_eq_some : packB n = some l ↔ n < 2 ^ 8 ∧ [.ofNat n] = l := by
  simp [packB]

theorem packH_eq_some : packH n = some l ↔ n < 2 ^ 16 ∧ bytes16 n = l := by
  simp [packH]

theorem packI_eq_some : packI n = some l ↔ n < 2 ^ 32 ∧ bytes32 (.ofNat n) = l := by
  simp [packI]

theorem toNat_port (h : n < 2 ^ 16) : (UInt16.ofNat n).toNat = n := by
  rw [UInt16.toNat_ofNat']
  omega

theorem port_ne_http (h : n < 2 ^ 16) (hne : n ≠ 80) : UInt16.ofNat n ≠ 80 := by
  intro hhttp
  have hport := congrArg UInt16.toNat hhttp
  rw [toNat_port h] at hport
  exact hne hport

theorem Octets.bytes_eq (o : Octets) : o.bytes = bytes32LE o.addr := by
  have ha := o.a.toNat_lt
  have hb := o.b.toNat_lt
  have hc := o.c.toNat_lt
  have hd := o.d.toNat_lt
  have hbyte {x y : UInt8} (h : x.toNat = y.toNat) : x = y := UInt8.toNat_inj.mp h
  simp only [bytes, bytes32LE, addr, List.cons.injEq, and_true]
  refine ⟨hbyte ?_, hbyte ?_, hbyte ?_, hbyte ?_⟩ <;>
    simp only [UInt32.toNat_toUInt8, UInt32.toNat_shiftRight, Nat.shiftRight_eq_div_pow,
      toNat_be32, UInt32.reduceToNat, Nat.reduceMod] <;>
    omega

def ipHeader (ident : UInt16) (srcIp dstIp : Octets) (payloadLen : ℕ) : IPv4Header where
  totalLength := .ofNat (20 + payloadLen)
  identification := ident
  fragment := 0x4000
  src := srcIp.addr
  dst := dstIp.addr

theorem createIpHeader_some {protocol : UInt8} {payloadLen : ℕ}
    (h : createIpHeader ident srcIp dstIp protocol payloadLen = some l) :
    20 + payloadLen < 2 ^ 16 ∧ l = (ipHeader ident srcIp dstIp payloadLen).encode protocol := by
  obtain ⟨totalLen, htotal, h⟩ := Option.bind_eq_some_iff.mp h
  obtain ⟨hlen, rfl⟩ := packH_eq_some.mp htotal
  refine ⟨hlen, ?_⟩
  cases h
  rw [IPv4Header.encode, ipHeader, toNat_port hlen, srcIp.bytes_eq, dstIp.bytes_eq]
  rfl

theorem reservedBits_lt : 0 < 16 := by decide

def tcpHeader (srcPort dstPort seq ack : ℕ) (flags : UInt8) : TCPHeader where
  srcPort := .ofNat srcPort
  destPort := .ofNat dstPort
  seq := .ofNat seq
  ack := .ofNat ack
  reserved := ⟨0, reservedBits_lt⟩
  flags := flags
  window := 65535

theorem createTcpHeader_some (h : createTcpHeader srcPort dstPort seq ack flags = some l) :
    dstPort < 2 ^ 16 ∧ l = (tcpHeader srcPort dstPort seq ack flags).encode := by
  obtain ⟨_, hsrc, h⟩ := Option.bind_eq_some_iff.mp h
  obtain ⟨_, hdst, h⟩ := Option.bind_eq_some_iff.mp h
  obtain ⟨_, hseq, h⟩ := Option.bind_eq_some_iff.mp h
  obtain ⟨_, hack, h⟩ := Option.bind_eq_some_iff.mp h
  obtain ⟨hsrcPort, rfl⟩ := packH_eq_some.mp hsrc
  obtain ⟨hdstPort, rfl⟩ := packH_eq_some.mp hdst
  obtain ⟨-, rfl⟩ := packI_eq_some.mp hseq
  obtain ⟨-, rfl⟩ := packI_eq_some.mp hack
  refine ⟨hdstPort, ?_⟩
  cases h
  rw [TCPHeader.encode, tcpHeader, toNat_port hsrcPort,
    toNat_port hdstPort]
  rfl

def tcpTuple (srcIp dstIp : Octets) (srcPort dstPort : ℕ) : FiveTuple :=
  ⟨srcIp.addr, dstIp.addr, .ofNat srcPort, .ofNat dstPort, 6⟩

theorem tcpPacket_job {raw : RawPacketJob} (h : tcpPacket ident srcMac dstMac srcIp dstIp srcPort
    dstPort seq ack flags data = some raw.data) :
    dstPort < 2 ^ 16 ∧ ∃ job, raw.acceptedJob = some job ∧
      job.Carries (tcpTuple srcIp dstIp srcPort dstPort) flags data raw.data := by
  obtain ⟨tcp, htcp, h⟩ := Option.bind_eq_some_iff.mp h
  obtain ⟨ip, hip, h⟩ := Option.bind_eq_some_iff.mp h
  obtain ⟨hdstPort, rfl⟩ := createTcpHeader_some htcp
  obtain ⟨-, rfl⟩ := createIpHeader_some hip
  let d : Datagram := {
    destMac := dstMac
    srcMac := srcMac
    ip := .v4 (ipHeader ident srcIp dstIp
      ((tcpHeader srcPort dstPort seq ack flags).encode.length + data.length))
    segment := .tcp (tcpHeader srcPort dstPort seq ack flags) data }
  have hencode : d.encode = raw.data := Option.some.inj h
  obtain ⟨job, hjob, hcarries⟩ := d.exists_job ⟨rfl, .inl rfl⟩ raw.tsSec raw.tsUsec raw.packetId
  rw [hencode] at hjob hcarries
  refine ⟨hdstPort, job, ?_, hcarries⟩
  rw [RawPacketJob.acceptedJob]
  exact congrArg Option.join hjob

def udpTuple (srcIp dstIp : Octets) (srcPort dstPort : ℕ) : FiveTuple :=
  ⟨srcIp.addr, dstIp.addr, .ofNat srcPort, .ofNat dstPort, 17⟩

theorem createUdpHeader_some (h : createUdpHeader srcPort dstPort n = some l) :
    8 + n < 2 ^ 16 ∧ l =
      ({ srcPort := .ofNat srcPort, destPort := .ofNat dstPort } : UDPHeader).encode (8 + n) := by
  obtain ⟨_, hsrc, h⟩ := Option.bind_eq_some_iff.mp h
  obtain ⟨_, hdst, h⟩ := Option.bind_eq_some_iff.mp h
  obtain ⟨_, hlength, h⟩ := Option.bind_eq_some_iff.mp h
  obtain ⟨hsrcPort, rfl⟩ := packH_eq_some.mp hsrc
  obtain ⟨hdstPort, rfl⟩ := packH_eq_some.mp hdst
  obtain ⟨hlen, rfl⟩ := packH_eq_some.mp hlength
  refine ⟨hlen, ?_⟩
  cases h
  rw [UDPHeader.encode, toNat_port hsrcPort, toNat_port hdstPort]
  rfl

theorem udpPacket_job {raw : RawPacketJob} (h : udpPacket ident srcMac dstMac srcIp dstIp srcPort
    dstPort data = some raw.data) :
    ∃ job, raw.acceptedJob = some job ∧
      job.Carries (udpTuple srcIp dstIp srcPort dstPort) 0 data raw.data := by
  obtain ⟨udp, hudp, h⟩ := Option.bind_eq_some_iff.mp h
  obtain ⟨ip, hip, h⟩ := Option.bind_eq_some_iff.mp h
  obtain ⟨hfits, rfl⟩ := createUdpHeader_some hudp
  obtain ⟨-, rfl⟩ := createIpHeader_some hip
  let d : Datagram := {
    destMac := dstMac
    srcMac := srcMac
    ip := .v4 (ipHeader ident srcIp dstIp
      ((({ srcPort := .ofNat srcPort, destPort := .ofNat dstPort } : UDPHeader).encode
        (8 + data.length)).length + data.length))
    segment := .udp { srcPort := .ofNat srcPort, destPort := .ofNat dstPort } data hfits }
  have hencode : d.encode = raw.data := Option.some.inj h
  obtain ⟨job, hjob, hcarries⟩ := d.exists_job ⟨rfl, .inr rfl⟩ raw.tsSec raw.tsUsec raw.packetId
  rw [hencode] at hjob hcarries
  refine ⟨job, ?_, hcarries⟩
  rw [RawPacketJob.acceptedJob]
  exact congrArg Option.join hjob

end TestPcap

end DpiEngine
