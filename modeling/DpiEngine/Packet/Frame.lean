import DpiEngine.Library.Bytes
import DpiEngine.Packet.Job
import DpiEngine.Packet.Layout

/-! # Accepted frames

A frame that the parser accepts, with the job that a worker builds for it. The
ether type decides which flow key the job has.
-/

namespace DpiEngine

open Traced PacketParser ParserWorker

structure Frame where
  raw : RawPacket
  packetId : UInt32
  job : PacketJob
  built : (parseJob raw packetId).value = some (some job)

def Frame.IsIPv4 (f : Frame) : Prop := wordAt f.raw.data 12 = EtherType.IPv4

theorem createPacketJob_some {raw : RawPacket} {parsed : ParsedPacket} {packetId : UInt32}
    {job : PacketJob} (h : (createPacketJob raw parsed packetId).value = some job) :
    job.tuple = jobTuple parsed ∧ (job.flowKey, job.hasFlowKey) = jobFlowKey parsed ∧
      (job.tsSec, job.tsUsec, job.data) = (raw.tsSec, raw.tsUsec, raw.data) := by
  unfold createPacketJob at h
  dsimp only at h
  split_ifs at h with hlen
  · simp only [value_bind, value_pure, Option.bind_eq_some_iff] at h
    obtain ⟨b, -, payloadOffset, -, h⟩ := h
    cases h
    exact ⟨rfl, rfl, rfl⟩
  · cases h
    exact ⟨rfl, rfl, rfl⟩

theorem parseJob_some {raw : RawPacket} {packetId : UInt32} {job : PacketJob}
    (h : (parseJob raw packetId).value = some (some job)) :
    ∃ parsed, (parse raw).value = some (some parsed) ∧
      (createPacketJob raw parsed packetId).value = some job := by
  unfold parseJob at h
  simp only [value_bind, Option.bind_eq_some_iff] at h
  obtain ⟨_ | parsed, hparse, h⟩ := h
  · cases h
  · simp only [value_bind, value_pure, Option.bind_eq_some_iff] at h
    obtain ⟨job', hjob, h⟩ := h
    cases h
    exact ⟨parsed, hparse, hjob⟩

theorem Frame.isIPv4_job (f : Frame) (h : f.IsIPv4) : f.job.IsIPv4 := by
  obtain ⟨parsed, hparse, hjob⟩ := parseJob_some f.built
  obtain ⟨htuple, hkey, -⟩ := createPacketJob_some hjob
  obtain ⟨hip, hv6⟩ := Prod.mk.inj ((parse_ipFields hparse).1.trans (if_pos h))
  rw [jobFlowKey, hv6, hip] at hkey
  obtain ⟨hkey, hhas⟩ := Prod.mk.inj hkey
  exact ⟨hhas, by rw [hkey, htuple]⟩

theorem Frame.addresses_job (f : Frame) (h : f.IsIPv4) :
    f.job.tuple.srcIp = wordAtLE f.raw.data 26 ∧ f.job.tuple.dstIp = wordAtLE f.raw.data 30 := by
  obtain ⟨parsed, hparse, hjob⟩ := parseJob_some f.built
  rw [(createPacketJob_some hjob).1]
  exact Prod.mk.inj (parse_addresses hparse h)

theorem Frame.key_of_not_isIPv4 (f : Frame) (h : ¬ f.IsIPv4) :
    f.job.hasFlowKey = false ∨ ∃ src dst sport dport proto,
      f.job.flowKey = .fromIPv6 src dst sport dport proto := by
  obtain ⟨parsed, hparse, hjob⟩ := parseJob_some f.built
  obtain ⟨-, hkey, -⟩ := createPacketJob_some hjob
  have hfields := (parse_ipFields hparse).1.trans (if_neg h)
  split_ifs at hfields with h6
  · obtain ⟨-, hv6⟩ := Prod.mk.inj hfields
    rw [jobFlowKey, hv6] at hkey
    exact .inr ⟨_, _, _, _, _, (Prod.mk.inj hkey).1⟩
  · obtain ⟨hip, hv6⟩ := Prod.mk.inj hfields
    rw [jobFlowKey, hv6, hip] at hkey
    exact .inl (Prod.mk.inj hkey).2

def PacketJob.flow (job : PacketJob) : FlowKey :=
  if job.hasFlowKey then job.flowKey.canonical else (FlowKey.fromFiveTuple job.tuple).canonical

structure ParsedFrame where
  raw : RawPacket
  parsed : ParsedPacket
  accepted : (parse raw).value = some (some parsed)

namespace ParsedFrame

def tuple (f : ParsedFrame) : FiveTuple := jobTuple f.parsed

def key (f : ParsedFrame) : FlowKey :=
  if (jobFlowKey f.parsed).2 then (jobFlowKey f.parsed).1 else .fromFiveTuple f.tuple

theorem key_cases (f : ParsedFrame) :
    f.key = .fromFiveTuple f.tuple ∨
      ∃ src dst, f.key = .fromIPv6 src dst f.tuple.srcPort f.tuple.dstPort f.tuple.protocol ∧
        f.tuple.srcIp = 0 ∧ f.tuple.dstIp = 0 := by
  obtain ⟨hversion, haddresses⟩ := parse_ipFields f.accepted
  unfold key jobFlowKey
  by_cases hv6 : f.parsed.hasIpv6
  · right
    have hne : wordAt f.raw.data 12 ≠ EtherType.IPv4 := by
      intro h
      rw [etherIpFields, if_pos h, hv6] at hversion
      exact Bool.noConfusion (Prod.mk.inj hversion).2
    obtain ⟨hsrc, hdst⟩ := Prod.mk.inj (haddresses hne)
    refine ⟨f.parsed.srcIpv6, f.parsed.dstIpv6, ?_, hsrc, hdst⟩
    rw [if_pos hv6]
    rfl
  · left
    rw [if_neg hv6]
    by_cases hip : f.parsed.hasIp
    · rw [if_pos hip]
      rfl
    · rw [if_neg hip]
      rfl

theorem canonical_tuple_eq {f f' : ParsedFrame} (h : f.key.canonical = f'.key.canonical) :
    f.tuple.canonical = f'.tuple.canonical := by
  rcases f.key_cases with hf | ⟨src, dst, hf, hs, hd⟩ <;>
    rcases f'.key_cases with hf' | ⟨src', dst', hf', hs', hd'⟩ <;> rw [hf, hf'] at h
  · exact FiveTuple.canonical_eq h
  · exact absurd h.symm FlowKey.canonical_fromIPv6_ne
  · exact absurd h FlowKey.canonical_fromIPv6_ne
  · have htuple {t : FiveTuple} (hs : t.srcIp = 0) (hd : t.dstIp = 0) :
        t = ⟨0, 0, t.srcPort, t.dstPort, t.protocol⟩ := by
      cases t
      cases hs
      cases hd
      rfl
    rcases FlowKey.eq_or_eq_reverse h with h | h <;>
      obtain ⟨-, -, hsport, hdport, hproto⟩ := FlowKey.mk.inj h
    · rw [htuple hs hd, htuple hs' hd', hsport, hdport, hproto]
    · rw [htuple hs hd, htuple hs' hd', hsport, hdport, hproto]
      exact FiveTuple.canonical_reverse ⟨0, 0, _, _, _⟩

end ParsedFrame

theorem Frame.exists_parsedFrame (f : Frame) :
    ∃ p : ParsedFrame, p.tuple = f.job.tuple ∧ p.key.canonical = f.job.flow := by
  obtain ⟨parsed, hparse, hjob⟩ := parseJob_some f.built
  obtain ⟨htuple, hkey, -⟩ := createPacketJob_some hjob
  refine ⟨⟨f.raw, parsed, hparse⟩, htuple.symm, ?_⟩
  rw [ParsedFrame.key, ParsedFrame.tuple, ← hkey, ← htuple, PacketJob.flow]
  split_ifs <;> rfl

theorem Frame.canonical_tuple_eq {f f' : Frame} (h : f.job.flow = f'.job.flow) :
    f.job.tuple.canonical = f'.job.tuple.canonical := by
  obtain ⟨p, htuple, hflow⟩ := f.exists_parsedFrame
  obtain ⟨p', htuple', hflow'⟩ := f'.exists_parsedFrame
  rw [← htuple, ← htuple']
  exact ParsedFrame.canonical_tuple_eq (by rw [hflow, hflow', h])

/-- A segment from port 1000 of 1.0.0.0 to a port of 2.0.0.0. -/
def segmentFrame (port : UInt16) (seq : UInt32) (tcpFlags : UInt8) (payload : List UInt8) :
    List UInt8 :=
  List.replicate 12 0 ++ [0x08, 0x00, 0x45, 0, 0, 0, 0, 0, 0, 0, 64, 6, 0, 0, 1, 0, 0, 0, 2, 0, 0,
    0, 0x03, 0xE8] ++ bytes16 port.toNat ++ bytes32 seq ++ [0, 0, 0, 0, 0x50, tcpFlags, 0, 0, 0, 0,
    0, 0] ++ payload

def segmentJob (port : UInt16) (seq : UInt32) (tcpFlags : UInt8) (payload : List UInt8) :
    PacketJob where
  tuple := ⟨1, 2, 1000, port, 6⟩
  flowKey := .fromFiveTuple ⟨1, 2, 1000, port, 6⟩
  hasFlowKey := true
  tcpSeqNumber := seq
  data := segmentFrame port seq tcpFlags payload
  ipOffset := 14
  transportOffset := 34
  payloadOffset := 54
  payloadLength := payload.length
  payload_le := by
    right
    simp [segmentFrame, bytes16, bytes32]
    omega
  tcpFlags := tcpFlags

example : (parseJob { data := segmentFrame 443 7 0x10 [0x61, 0x62] } 0).value =
    some (some (segmentJob 443 7 0x10 [0x61, 0x62])) := rfl

end DpiEngine
