import DpiEngine.Packet.Job
import DpiEngine.Packet.Layout

/-! # The payload of a job

The job takes the low half of byte 14 for the length of an IPv4 header, in IPv6
frames too. It finds the payload the parser found in every IPv4 frame, and in an
IPv6 frame only when that half of the traffic class happens to lead there. In an
IPv6 frame with TCP it may also lead so close to the end of the frame that the
byte with the length of the TCP header lies behind it.
-/

namespace DpiEngine

open Traced PacketParser ParserWorker

variable {raw : RawPacket} {parsed : ParsedPacket} {packetId : UInt32} {protocol : UInt8}
  {o o' t : ℕ}

/-- The job has the payload of the parsed packet. -/
def SamePayload (raw : RawPacket) (parsed : ParsedPacket) (x : Traced PacketJob) : Prop :=
  ∃ job, x.value = some job ∧ job.data = raw.data ∧ job.payloadLength = parsed.payloadLength ∧
    (job.payloadLength ≠ 0 →
      parsed.payloadData = some job.payloadOffset ∧ job.getPayload = parsed.payloadData)

def ihlEnd (data : List UInt8) : ℕ := 14 + lowNibble (byteAt data 14) * 4

/--
Reading a transport header at `t` instead of `o` leads to the same payload: the header ends at
the same offset, or the payload is empty and the header does not end before it.
-/
def LeadsToPayload (data : List UInt8) (protocol : UInt8) (o t : ℕ) : Prop :=
  (protocol = Protocol.TCP → t + 12 < data.length) ∧
    (transportEnd data protocol t = transportEnd data protocol o ∨
      transportEnd data protocol o = data.length ∧ data.length ≤ transportEnd data protocol t)

/-- In an IPv6 frame, the offset taken from byte 14 leads to the payload. -/
def IhlLeadsToPayload (data : List UInt8) : Prop :=
  wordAt data 12 = EtherType.IPv6 → ∀ protocol o, ipv6Transport data = some (protocol, o) →
    LeadsToPayload data protocol o (ihlEnd data)

theorem value_jobPayloadOffset (hat : TransportAt raw.data parsed protocol o o') :
    (jobPayloadOffset raw.data parsed t).value =
      if protocol = Protocol.TCP then
        if raw.data.length ≤ t then some 0
        else if t + 12 < raw.data.length then some (transportEnd raw.data protocol t) else none
      else some (transportEnd raw.data protocol t) := by
  unfold jobPayloadOffset
  by_cases htcp : protocol = Protocol.TCP
  · have h6 : parsed.hasTcp = true := hat.hasTcp.mpr htcp
    have h17 : ¬ parsed.hasUdp = true := by rw [hat.hasUdp, htcp]; decide
    rw [if_pos htcp, if_neg h17]
    split_ifs with hlt hle hread hle
    · omega
    · rw [value_read_bind_of_lt hread, transportEnd, if_pos htcp]; rfl
    · rw [value_bind, value_read, List.getElem?_eq_none (by omega), Option.bind_none]
    · rfl
    · exact absurd ⟨h6, by omega⟩ hlt
    · exact absurd ⟨h6, by omega⟩ hlt
  · have h6 : ¬ parsed.hasTcp = true := fun h => htcp (hat.hasTcp.mp h)
    have h17 : parsed.hasUdp = true := hat.hasUdp.mpr (hat.isTransport.resolve_left htcp)
    rw [if_neg (fun h => h6 h.1), if_pos h17, if_neg htcp, transportEnd, if_neg htcp]
    rfl

theorem value_createPacketJob (hlen : 14 < raw.data.length) :
    (createPacketJob raw parsed packetId).value =
      (jobPayloadOffset raw.data parsed (ihlEnd raw.data)).value.map fun payloadOffset =>
        { packetId := packetId
          tsSec := raw.tsSec
          tsUsec := raw.tsUsec
          tuple := jobTuple parsed
          flowKey := (jobFlowKey parsed).1
          hasFlowKey := (jobFlowKey parsed).2
          tcpFlags := parsed.tcpFlags
          tcpSeqNumber := parsed.seqNumber
          data := raw.data
          ethOffset := 0
          ipOffset := 14
          transportOffset := ihlEnd raw.data
          payloadOffset := payloadOffset
          payloadLength :=
            if payloadOffset < raw.data.length then raw.data.length - payloadOffset else 0
          payload_le := jobPayload_le raw.data payloadOffset } := by
  unfold createPacketJob
  simp only [gt_iff_lt, hlen, if_true, value_bind, value_read_of_lt hlen, Option.bind_some]
  cases h : (jobPayloadOffset raw.data parsed (14 + lowNibble (byteAt raw.data 14) * 4)).value with
  | none => rw [ihlEnd, h]; rfl
  | some off => rw [ihlEnd, h]; rfl

theorem samePayload_iff_offset (h14 : 14 < raw.data.length) (hend : o' ≤ raw.data.length)
    (hlen : parsed.payloadLength = raw.data.length - o')
    (hptr : parsed.payloadData = if o' < raw.data.length then some o' else none) :
    SamePayload raw parsed (createPacketJob raw parsed packetId) ↔
      ∃ off, (jobPayloadOffset raw.data parsed (ihlEnd raw.data)).value = some off ∧
        (off = o' ∨ o' = raw.data.length ∧ raw.data.length ≤ off) := by
  rw [SamePayload, value_createPacketJob h14]
  constructor
  · rintro ⟨job, hjob, -, hlen', -⟩
    obtain ⟨off, hval, rfl⟩ := Option.map_eq_some_iff.mp hjob
    refine ⟨off, hval, ?_⟩
    rw [hlen] at hlen'
    dsimp only at hlen'
    split_ifs at hlen' with hlt <;> omega
  · rintro ⟨off, hval, hoff⟩
    refine ⟨_, by rw [hval]; rfl, rfl, ?_, ?_⟩
    · rw [hlen]
      dsimp only
      split_ifs <;> omega
    · intro hne
      dsimp only at hne
      split_ifs at hne with hlt
      · obtain rfl : off = o' := by omega
        refine ⟨by rw [hptr, if_pos hlt], ?_⟩
        rw [hptr, if_pos hlt, PacketJob.getPayload]
        simp only [if_pos hlt, if_neg (not_or.mpr ⟨hne, not_le.mpr hlt⟩)]
      · exact absurd rfl hne

/-- Where the job looks for the payload of a frame with a transport layer. -/
theorem jobPayloadOffset_leads_iff (hat : TransportAt raw.data parsed protocol o o') :
    (∃ off, (jobPayloadOffset raw.data parsed t).value = some off ∧
      (off = o' ∨ o' = raw.data.length ∧ raw.data.length ≤ off)) ↔
      LeadsToPayload raw.data protocol o t := by
  have h8 := hat.header_le
  rw [value_jobPayloadOffset hat, LeadsToPayload, ← hat.end_eq]
  by_cases htcp : protocol = Protocol.TCP
  · have h20 := hat.tcpHeader_le htcp
    rw [if_pos htcp]
    split_ifs with hle hread
    · constructor
      · rintro ⟨off, hoff, h⟩; cases hoff; omega
      · rintro ⟨h, -⟩; exact absurd (h htcp) (by omega)
    · simp [hread]
    · constructor
      · rintro ⟨off, hoff, -⟩; cases hoff
      · rintro ⟨h, -⟩; exact absurd (h htcp) hread
  · rw [if_neg htcp]
    simp [htcp]

theorem leadsToPayload_self (hat : TransportAt raw.data parsed protocol o o') :
    LeadsToPayload raw.data protocol o o := by
  refine ⟨fun htcp => ?_, .inl rfl⟩
  have := hat.tcpHeader_le htcp; have := hat.end_le
  omega

/-- The job has the payload of the parsed frame exactly if byte 14 leads to it. -/
theorem createPacketJob_samePayload_iff (raw : RawPacket) (parsed : ParsedPacket)
    (packetId : UInt32) (h : (parse raw).value = some (some parsed))
    (ht : parsed.hasTcp = true ∨ parsed.hasUdp = true) :
    SamePayload raw parsed (createPacketJob raw parsed packetId) ↔ IhlLeadsToPayload raw.data := by
  obtain ⟨protocol, o, o', hheader, hat, hlen, hptr⟩ := parse_some h ht
  have h14 : 14 < raw.data.length := by have := hheader.le; have := hat.header_le; omega
  rw [samePayload_iff_offset h14 hat.end_le hlen hptr, jobPayloadOffset_leads_iff hat]
  generalize parsed.hasIpv6 = v6 at hheader
  cases hheader with
  | ipv4 _ h4 =>
    refine iff_of_true (leadsToPayload_self hat) fun h6 => ?_
    exact absurd (h4.symm.trans h6) (by decide)
  | ipv6 h6 htransport =>
    constructor
    · rintro hleads - protocol' o'' htransport'
      cases htransport.symm.trans htransport'
      exact hleads
    · intro hleads
      exact hleads h6 protocol o htransport

def udpOverIPv6 (b14 : UInt8) : RawPacket where
  data := List.replicate 12 0 ++ [0x86, 0xDD, b14, 0, 0, 0, 0, 10, 17, 64] ++ List.replicate 32 0 ++
    [0, 9, 0, 9, 0, 10, 0, 0, 1, 2]

/-- A traffic class whose high half is ten leads the job to the payload. -/
theorem createPacketJob_samePayload_trafficClass : ∃ parsed,
    (parse (udpOverIPv6 0x6A)).value = some (some parsed) ∧
      SamePayload (udpOverIPv6 0x6A) parsed (createPacketJob (udpOverIPv6 0x6A) parsed 0) := by
  refine ⟨_, rfl, (createPacketJob_samePayload_iff (udpOverIPv6 0x6A) _ 0 rfl (.inr rfl)).mpr ?_⟩
  intro _ protocol o h
  cases (rfl : ipv6Transport (udpOverIPv6 0x6A).data = some (17, 54)).symm.trans h
  exact ⟨by decide, .inl rfl⟩

/-- The job of an ordinary IPv6 datagram starts its payload inside the IPv6 header. -/
theorem createPacketJob_other_payload : ∃ parsed,
    (parse (udpOverIPv6 0x60)).value = some (some parsed) ∧ parsed.hasUdp = true ∧
      parsed.payloadData = some 62 ∧ parsed.payloadLength = 2 ∧
      (createPacketJob (udpOverIPv6 0x60) parsed 0).value.map PacketJob.getPayload =
        some (some 22) ∧
      ¬ SamePayload (udpOverIPv6 0x60) parsed (createPacketJob (udpOverIPv6 0x60) parsed 0) := by
  refine ⟨_, rfl, rfl, rfl, rfl, rfl, ?_⟩
  rintro ⟨job, hjob, -, hlen, -⟩
  cases hjob
  exact absurd hlen (by decide)

/-- The job is built without a read outside its data, and its payload ends where the data ends. -/
def InBounds (x : Traced PacketJob) : Prop :=
  x.Safe ∧ ∀ job, x.value = some job → 0 < job.payloadLength →
    job.payloadOffset + job.payloadLength = job.data.length

/--
In an IPv6 frame with TCP the offset taken from byte 14 is inside the frame, but the byte with
the length of a TCP header there is not.
-/
def IhlNearEnd (data : List UInt8) (parsed : ParsedPacket) : Prop :=
  parsed.hasIpv6 = true ∧ parsed.hasTcp = true ∧ ihlEnd data < data.length ∧
    data.length ≤ ihlEnd data + 12

theorem jobPayloadOffset_safe_iff (data : List UInt8) (parsed : ParsedPacket) (t : ℕ) :
    (jobPayloadOffset data parsed t).Safe ↔
      (parsed.hasTcp = true → t < data.length → t + 12 < data.length) := by
  unfold jobPayloadOffset
  rw [safe_ite]
  constructor
  · rintro ⟨hread, -⟩ htcp hlt
    exact safe_read.mp (safe_bind.mp (hread ⟨htcp, hlt⟩)).1
  · intro h
    refine ⟨?_, fun _ => ?_⟩
    · rintro ⟨htcp, hlt⟩
      exact safe_read_bind (h htcp hlt) fun _ => safe_pure _
    · split_ifs <;> exact safe_pure _

theorem createPacketJob_safe_iff (raw : RawPacket) (parsed : ParsedPacket) (packetId : UInt32) :
    (createPacketJob raw parsed packetId).Safe ↔
      (jobPayloadOffset raw.data parsed (ihlEnd raw.data)).Safe := by
  unfold createPacketJob
  dsimp only
  split_ifs with hlen
  · constructor
    · intro h
      exact (safe_bind.mp ((safe_bind.mp h).2 _ (value_read_of_lt hlen))).1
    · intro h
      refine (safe_read.mpr hlen).andThen fun b hb => ?_
      cases hb.symm.trans (value_read_of_lt hlen)
      exact Safe.andThen h fun _ _ => safe_pure _
  · -- no byte 14: the offset taken from it is behind the frame too
    refine iff_of_true (safe_pure _) ((jobPayloadOffset_safe_iff _ _ _).mpr fun _ hlt => ?_)
    unfold ihlEnd at hlt
    omega

theorem createPacketJob_payload_end {job : PacketJob}
    (h : (createPacketJob raw parsed packetId).value = some job) (hpos : 0 < job.payloadLength) :
    job.payloadOffset + job.payloadLength = job.data.length := by
  rcases Nat.lt_or_ge 14 raw.data.length with hlen | hlen
  · rw [value_createPacketJob hlen] at h
    obtain ⟨off, -, rfl⟩ := Option.map_eq_some_iff.mp h
    dsimp only at hpos ⊢
    split_ifs at hpos ⊢
    · omega
    · omega
  · unfold createPacketJob at h
    rw [if_neg (not_lt.mpr hlen)] at h
    cases h
    exact absurd hpos (lt_irrefl 0)

/-- The job of an accepted frame is built in bounds unless the offset from byte 14 is near the
end. -/
theorem createPacketJob_inBounds_iff (raw : RawPacket) (parsed : ParsedPacket)
    (packetId : UInt32) (h : (parse raw).value = some (some parsed)) :
    InBounds (createPacketJob raw parsed packetId) ↔ ¬ IhlNearEnd raw.data parsed := by
  have hpayload : InBounds (createPacketJob raw parsed packetId) ↔
      (createPacketJob raw parsed packetId).Safe :=
    and_iff_left fun _ hjob hpos => createPacketJob_payload_end hjob hpos
  rw [hpayload, createPacketJob_safe_iff, jobPayloadOffset_safe_iff]
  constructor
  · rintro hread ⟨-, htcp, hlt, hend⟩
    have := hread htcp hlt
    omega
  · intro hnear htcp hlt
    by_contra hread
    refine hnear ⟨?_, htcp, hlt, by omega⟩
    obtain ⟨protocol, o, o', hheader, hat, -, -⟩ := parse_some h (.inl htcp)
    generalize parsed.hasIpv6 = v6 at hheader ⊢
    cases hheader with
    | ipv4 _ h4 =>
      -- behind an IPv4 header of this length the parser has seen the TCP header
      have h20 := hat.tcpHeader_le (hat.hasTcp.mp htcp)
      have hend := hat.end_le
      unfold ihlEnd at hread
      omega
    | ipv6 h6 htransport => rfl

def tcpOverIPv6 (b14 : UInt8) : RawPacket where
  data := List.replicate 12 0 ++ [0x86, 0xDD, b14, 0, 0, 0, 0, 21, 6, 64] ++ List.replicate 32 0 ++
    [0, 9, 0, 9, 0, 0, 0, 0, 0, 0, 0, 0, 0x50, 0, 0, 0, 0, 0, 0, 0, 1]

theorem createPacketJob_inBounds_trafficClass : ∃ parsed,
    (parse (tcpOverIPv6 0x60)).value = some (some parsed) ∧
      InBounds (createPacketJob (tcpOverIPv6 0x60) parsed 0) := by
  refine ⟨_, rfl, (createPacketJob_inBounds_iff (tcpOverIPv6 0x60) _ 0 rfl).mpr ?_⟩
  rintro ⟨-, -, -, hend⟩
  exact absurd hend (by decide)

/-- With a traffic class of 0xF0 the job looks for a TCP header at the last byte of 75. -/
theorem createPacketJob_reads_outside : ∃ parsed,
    (parse (tcpOverIPv6 0x6F)).value = some (some parsed) ∧
      (tcpOverIPv6 0x6F).data.length = 75 ∧
      .read 86 75 ∈ (createPacketJob (tcpOverIPv6 0x6F) parsed 0).trace :=
  ⟨_, rfl, rfl, by decide⟩

end DpiEngine
