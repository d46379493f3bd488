import DpiEngine.FastPath.Replay
import DpiEngine.Pipeline.Metadata
import DpiEngine.Pipeline.Written

/-! # From capture to capture

The reader numbers the packets of a capture, and nothing but the number of a job
depends on its place. What a run writes for a capture in native order is read
back as the contents of the written jobs.
-/

namespace DpiEngine

open Traced

theorem parseJob_unnumbered (raw : RawPacket) (packetId : UInt32) :
    (ParserWorker.parseJob raw packetId).value.map (Option.map PacketJob.unnumbered) =
      (ParserWorker.parseJob raw 0).value := by
  simp only [ParserWorker.parseJob, value_bind]
  rcases (PacketParser.parse raw).value with _ | _ | parsed
  · rfl
  · rfl
  · simp only [Option.bind_some, value_bind, value_pure, ParserWorker.createPacketJob]
    split_ifs with hlen
    · simp only [value_bind, value_pure]
      cases (read raw.data 14).value with
      | none => rfl
      | some b =>
        simp only [Option.bind_some]
        cases (ParserWorker.jobPayloadOffset raw.data parsed (14 + lowNibble b * 4)).value <;> rfl
    · rfl

namespace PcapPacket

variable {p : PcapPacket} {job : PacketJob}

theorem acceptedJob_unnumbered (p : PcapPacket) (packetId : UInt32) :
    (p.toJob packetId).acceptedJob.map PacketJob.unnumbered = (p.toJob 0).acceptedJob := by
  have hparse := parseJob_unnumbered p.raw packetId
  change ((ParserWorker.parseJob p.raw packetId).value.join).map _ =
    (ParserWorker.parseJob p.raw 0).value.join
  rw [← hparse]
  cases (ParserWorker.parseJob p.raw packetId).value <;> rfl

theorem content_of_accepted {packetId : UInt32} (h : (p.toJob packetId).Accepted job) :
    job.content = p.content := by
  obtain ⟨parsed, -, hjob⟩ := parseJob_some h
  exact createPacketJob_content (p := p) hjob

theorem toJob_congr {q : PcapPacket} (h : p.content = q.content) (packetId : UInt32) :
    p.toJob packetId = q.toJob packetId := by
  simp only [content, Prod.mk.injEq] at h
  obtain ⟨hsec, husec, hdata⟩ := h
  simp only [toJob, hsec, husec, hdata]

end PcapPacket

namespace DPIEngine

open Network

variable {cfg : Config} {H : StdHash} {rules : RuleManager} {isOpen : Bool}
  {ls : List (Label (Thread cfg) PacketEnv)} {s : State cfg} {packets : List PcapPacket}
  {job : PacketJob}

theorem map_unnumbered_acceptedJobs (packets : List PcapPacket) :
    (acceptedJobs (readerJobs packets)).map PacketJob.unnumbered =
      packets.filterMap fun p => (p.toJob 0).acceptedJob := by
  have hpackets : packets = packets.zipIdx.map Prod.fst := (List.zipIdx_map_fst ..).symm
  have hjobs : readerJobs packets = packets.zipIdx.map fun x => x.1.toJob (.ofNat x.2) := by
    rw [readerJobs, List.mapIdx_eq_zipIdx_map]
  conv_rhs => rw [hpackets]
  rw [acceptedJobs, hjobs, List.filterMap_map, List.map_filterMap, List.filterMap_map]
  exact List.filterMap_congr fun x _ => x.1.acceptedJob_unnumbered (.ofNat x.2)

theorem exists_written (h : Run (network cfg H rules isOpen).Step
    (start (network cfg H rules isOpen) (readerJobs packets)) ls s) (hjob : job ∈ outputFile s) :
    ∃ p ∈ packets, ∃ n, (p.toJob n).Accepted job := by
  rw [outputFile, file_eq h] at hjob
  obtain ⟨y, hy, rfl⟩ := List.mem_map.mp hjob
  obtain ⟨r, hr, haccepted⟩ := written_isJobOf h hy
  obtain ⟨p, hp, rfl⟩ : ∃ p, packets[y.1]? = some p ∧ p.toJob (.ofNat y.1) = r := by
    simpa [readerJobs] using hr
  exact ⟨p, List.mem_of_getElem? hp, _, haccepted⟩

theorem readBack_outputFile {file : List UInt8} {opened : PcapReader}
    (hopen : PcapReader.openFile {} (some file) = (true, opened))
    (hnative : wordAtLE file 0 = pcapMagicNative) (hread : opened.ReadsToEnd packets)
    (h : Run (network cfg H rules isOpen).Step
      (start (network cfg H rules isOpen) (readerJobs packets)) ls s) :
    ReadBack opened.globalHeader (outputFile s) := by
  have hmagic : opened.globalHeader.magicNumber = pcapMagicNative := by
    obtain ⟨header, rest, hword, ⟨hmagic, rfl⟩ | ⟨hmagic, rfl⟩⟩ := PcapReader.openFile_eq_true hopen
    · exact hmagic
    · exact absurd ((hword.trans hnative).symm.trans hmagic) (by decide)
  refine readBack_native hmagic fun job hjob => ?_
  obtain ⟨p, hp, n, haccepted⟩ := exists_written h hjob
  exact fits_outputPacket (hread.fits_of_open hopen p hp) (PcapPacket.content_of_accepted haccepted)

theorem unnumbered_of_readBack {got : List PcapPacket} (h : Run (network cfg H rules isOpen).Step
    (start (network cfg H rules isOpen) (readerJobs packets)) ls s)
    (hgot : got.map PcapPacket.content = (outputFile s).map PacketJob.content) :
    (acceptedJobs (readerJobs got)).map PacketJob.unnumbered =
      (outputFile s).map PacketJob.unnumbered := by
  let accept (c : UInt32 × UInt32 × List UInt8) : Option PacketJob :=
    RawPacketJob.acceptedJob { tsSec := c.1, tsUsec := c.2.1, data := c.2.2 }
  have haccept : ∀ job ∈ outputFile s, accept job.content = some job.unnumbered := by
    intro job hjob
    obtain ⟨p, -, n, haccepted⟩ := exists_written h hjob
    have hjob := p.acceptedJob_unnumbered n
    rw [RawPacketJob.acceptedJob_eq_some.mpr haccepted] at hjob
    rw [PcapPacket.content_of_accepted haccepted]
    exact hjob.symm
  calc
    (acceptedJobs (readerJobs got)).map PacketJob.unnumbered
    _ = (got.map PcapPacket.content).filterMap accept := by
      rw [map_unnumbered_acceptedJobs, List.filterMap_map]
      rfl
    _ = (outputFile s).filterMap fun job => accept job.content := by
      rw [hgot, List.filterMap_map]
      rfl
    _ = (outputFile s).map PacketJob.unnumbered := by
      rw [← List.filterMap_eq_map]
      exact List.filterMap_congr haccept

end DPIEngine

end DpiEngine
