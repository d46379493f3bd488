import DpiEngine.Packet.Parser

/-! # Packet jobs

A parser worker turns a parsed frame into the job that the load balancers and
the fast path processors see. The job finds its payload again from the raw bytes.
-/

namespace DpiEngine

open Traced

structure PacketJob where
  packetId : UInt32 := 0
  tuple : FiveTuple := {}
  flowKey : FlowKey := {}
  hasFlowKey : Bool := false
  tcpSeqNumber : UInt32 := 0
  data : List UInt8 := []
  ethOffset : ℕ := 0
  ipOffset : ℕ := 0
  transportOffset : ℕ := 0
  payloadOffset : ℕ := 0
  payloadLength : ℕ := 0
  tcpFlags : UInt8 := 0
  tsSec : UInt32 := 0
  tsUsec : UInt32 := 0
  /-- The payload lies inside the frame. -/
  payload_le : payloadLength = 0 ∨ payloadOffset + payloadLength ≤ data.length := by exact .inl rfl
  deriving DecidableEq, Repr

/-- The offset of the payload in the data of the job, none for a null pointer. -/
def PacketJob.getPayload (job : PacketJob) : Option ℕ :=
  if job.payloadLength = 0 ∨ job.payloadOffset ≥ job.data.length then none
  else some job.payloadOffset

/-- The flow key of the job is the one of its IPv4 tuple. -/
def PacketJob.IsIPv4 (job : PacketJob) : Prop :=
  job.hasFlowKey = true ∧ job.flowKey = .fromFiveTuple job.tuple

namespace ParserWorker

def jobTuple (parsed : ParsedPacket) : FiveTuple where
  srcIp := parsed.srcIpRaw
  dstIp := parsed.dstIpRaw
  srcPort := parsed.srcPort
  dstPort := parsed.destPort
  protocol := parsed.protocol

/-- The flow key of the job, and whether it has one. -/
def jobFlowKey (parsed : ParsedPacket) : FlowKey × Bool :=
  if parsed.hasIpv6 then
    (.fromIPv6 parsed.srcIpv6 parsed.dstIpv6 parsed.srcPort parsed.destPort parsed.protocol, true)
  else if parsed.hasIp then (.fromFiveTuple (jobTuple parsed), true)
  else ({}, false)

/-- The offset at which the job looks for its payload, found from the raw bytes. -/
def jobPayloadOffset (data : List UInt8) (parsed : ParsedPacket) (transportOffset : ℕ) :
    Traced ℕ :=
  if parsed.hasTcp ∧ data.length > transportOffset then do
    let b ← read data (transportOffset + 12)
    pure (transportOffset + highNibble b * 4)
  else if parsed.hasUdp then pure (transportOffset + 8)
  else pure 0

theorem jobPayload_le (data : List UInt8) (offset : ℕ) :
    (if offset < data.length then data.length - offset else 0) = 0 ∨
      offset + (if offset < data.length then data.length - offset else 0) ≤ data.length := by
  split_ifs <;> omega

def createPacketJob (raw : RawPacket) (parsed : ParsedPacket) (packetId : UInt32) :
    Traced PacketJob :=
  let job : PacketJob := {
    packetId := packetId
    tsSec := raw.tsSec
    tsUsec := raw.tsUsec
    tuple := jobTuple parsed
    flowKey := (jobFlowKey parsed).1
    hasFlowKey := (jobFlowKey parsed).2
    tcpFlags := parsed.tcpFlags
    tcpSeqNumber := parsed.seqNumber
    data := raw.data
    ethOffset := 0
    ipOffset := 14 }
  if raw.data.length > 14 then do
    let b ← read raw.data 14
    let transportOffset := 14 + lowNibble b * 4
    let payloadOffset ← jobPayloadOffset raw.data parsed transportOffset
    pure { job with
      transportOffset := transportOffset
      payloadOffset := payloadOffset
      payloadLength :=
        if payloadOffset < raw.data.length then raw.data.length - payloadOffset else 0
      payload_le := jobPayload_le raw.data payloadOffset }
  else pure job

/-- What a worker does with a frame: parse it and, if it is accepted, build its job. -/
def parseJob (raw : RawPacket) (packetId : UInt32) : Traced (Option PacketJob) := do
  match ← PacketParser.parse raw with
  | none => pure none
  | some parsed =>
    let job ← createPacketJob raw parsed packetId
    pure (some job)

end ParserWorker

end DpiEngine
