import DpiEngine.Pcap.Output
import DpiEngine.Pipeline.Output

/-! # The metadata of forwarded records

The reader hands over the times and the data of a packet, and each later stage
makes up both lengths from the data. So the length that the packet had before it
was cut is lost, and everything else is written as it was read.
-/

namespace DpiEngine

/-- `readerThreadFunc` moves the data and the times into a job. -/
def PcapPacket.toJob (packetId : UInt32) (p : PcapPacket) : RawPacketJob where
  packetId := packetId
  tsSec := p.header.tsSec
  tsUsec := p.header.tsUsec
  data := p.data

def RawPacketJob.toPacket (r : RawPacketJob) : PcapPacket where
  header := {
    tsSec := r.tsSec
    tsUsec := r.tsUsec
    inclLen := .ofNat r.data.length
    origLen := .ofNat r.data.length }
  data := r.data

def readerJobs (packets : List PcapPacket) : List RawPacketJob :=
  packets.mapIdx fun n p => p.toJob (.ofNat n)

theorem RawPacketJob.toPacket_raw (r : RawPacketJob) : r.toPacket.raw = r.toRawPacket := rfl

/-- The record of a job is the packet that its parser worker made. -/
theorem RawPacketJob.Accepted.outputPacket_eq {r : RawPacketJob} {job : PacketJob}
    (h : r.Accepted job) : outputPacket job = r.toPacket := by
  obtain ⟨parsed, -, hjob⟩ := parseJob_some h
  have hcontent : job.content = r.toPacket.content := by
    rw [← r.toPacket_raw] at hjob
    exact createPacketJob_content hjob
  simp only [PacketJob.content, PcapPacket.content, Prod.mk.injEq] at hcontent
  obtain ⟨hsec, husec, hdata⟩ := hcontent
  simp only [outputPacket, hsec, husec, hdata]
  rfl

theorem PcapPacket.Fits.toPacket_toJob {p : PcapPacket} {snaplen : UInt32} (hp : p.Fits snaplen)
    (packetId : UInt32) :
    (p.toJob packetId).toPacket = { p with header.origLen := p.header.inclLen } := by
  have hlen : UInt32.ofNat p.data.length = p.header.inclLen := by
    rw [hp.length_eq]
    exact UInt32.ofNat_toNat
  simp only [RawPacketJob.toPacket, toJob, hlen]

theorem PcapPacket.with_origLen_eq_iff (p : PcapPacket) :
    { p with header.origLen := p.header.inclLen } = p ↔ p.header.origLen = p.header.inclLen := by
  obtain ⟨⟨tsSec, tsUsec, inclLen, origLen⟩, data⟩ := p
  constructor
  · intro h
    simp only [PcapPacket.mk.injEq, PcapPacketHeader.mk.injEq, true_and, and_true] at h
    exact h.symm
  · intro h
    simp only at h
    rw [h]

namespace DPIEngine

open Network

variable {cfg : Config} {H : StdHash} {rules : RuleManager} {isOpen : Bool}
  {frames : List RawPacketJob} {ls : List (Label (Thread cfg) PacketEnv)} {s : State cfg}

theorem forwarded_isJobOf (h : Run (network cfg H rules isOpen).Step
    (start (network cfg H rules isOpen) frames) ls s) {n : ℕ} {job : PacketJob}
    (hjob : (n, job) ∈ forwarded s) : IsJobOf frames n job := by
  obtain ⟨⟨w, m, x, out⟩, he, hforwarded⟩ := List.mem_filterMap.mp hjob
  obtain ⟨hway, env, σ, σ', hwork⟩ := (run_onItsWay h).log _ he
  unfold forwardedJob at hforwarded
  split at hforwarded
  · next i j q job' hw hout =>
    cases hforwarded
    cases hw
    cases hout
    obtain ⟨job'', hx, hframe, -, -⟩ := hway
    obtain ⟨job₀, action, rfl, -, -, hout⟩ := Thread.process_some hwork
    obtain ⟨-, -, -, hjob⟩ := handleOutput_some hout.symm
    cases hjob
    cases hx
    exact hframe
  · cases hforwarded

/--
Every forwarded packet of a file that the reader opens, of either byte order, is written with all
fields of its record exactly if its capture was not cut short.
-/
theorem forwarded_metadata_iff {file : List UInt8} {r opened : PcapReader}
    {packets : List PcapPacket} (hopen : r.openFile (some file) = (true, opened))
    (hread : opened.ReadsToEnd packets)
    (h : Run (network cfg H rules isOpen).Step
      (start (network cfg H rules isOpen) (readerJobs packets)) ls s) {n : ℕ} {job : PacketJob}
    (hjob : (n, job) ∈ forwarded s) :
    ∃ p, packets[n]? = some p ∧
      (outputPacket job = p ↔ p.header.origLen = p.header.inclLen) := by
  obtain ⟨raw, hraw, haccepted⟩ := forwarded_isJobOf h hjob
  obtain ⟨p, hp, rfl⟩ : ∃ p, packets[n]? = some p ∧ p.toJob (.ofNat n) = raw := by
    simpa [readerJobs] using hraw
  have hfits : p.Fits opened.globalHeader.snaplen :=
    hread.fits_of_open hopen p (List.mem_of_getElem? hp)
  refine ⟨p, hp, ?_⟩
  rw [haccepted.outputPacket_eq, hfits.toPacket_toJob, p.with_origLen_eq_iff]

def cutSegment : PcapPacket where
  header := { tsSec := 1, tsUsec := 2, inclLen := 55, origLen := 60 }
  data := FastPathProcessor.webFrame TCPFlags.ACK

def cutCapture : List UInt8 := ByteOrder.native.encodeFile { snaplen := 55 } [cutSegment]

theorem openFile_cutCapture : PcapReader.openFile {} (some cutCapture) =
    (true, (PcapReader.openFile {} (some cutCapture)).2) := by
  decide +kernel

theorem readsToEnd_cutCapture :
    (PcapReader.openFile {} (some cutCapture)).2.ReadsToEnd [cutSegment] := by
  decide +kernel

theorem exists_forwarded_cut : ∃ (s : State oneEach) (job : PacketJob),
    Run (processFile oneEach identityHash {}).Step
      (start (processFile oneEach identityHash {}) (readerJobs [cutSegment])) patientRun s ∧
    (0, job) ∈ forwarded s := by
  let N := processFile oneEach identityHash {}
  have hfinal : ((N.runLabels (start N (readerJobs [cutSegment])) patientRun).map fun s =>
      (forwarded s).map Prod.fst) = some [0] := by decide +kernel
  obtain ⟨s, hs, hforwarded⟩ := Option.map_eq_some_iff.mp hfinal
  obtain ⟨⟨n, job⟩, hmem, rfl⟩ := List.mem_map.mp (hforwarded ▸ List.mem_singleton_self 0)
  exact ⟨s, job, run_of_runLabels hs, hmem⟩

theorem forwarded_metadata_iff_cut : ∃ (s : State oneEach) (job : PacketJob),
    (0, job) ∈ forwarded s ∧ ∃ p, [cutSegment][0]? = some p ∧
      (outputPacket job = p ↔ p.header.origLen = p.header.inclLen) := by
  obtain ⟨s, job, hrun, hjob⟩ := exists_forwarded_cut
  exact ⟨s, job, hjob,
    forwarded_metadata_iff openFile_cutCapture readsToEnd_cutCapture hrun hjob⟩

/-- The record of the segment tells 55 bytes as its length before the cut. -/
theorem not_forwarded_metadata : ∃ (s : State oneEach) (job : PacketJob),
    (PcapReader.openFile {} (some cutCapture)).2.ReadsToEnd [cutSegment] ∧
    Run (processFile oneEach identityHash {}).Step
      (start (processFile oneEach identityHash {}) (readerJobs [cutSegment])) patientRun s ∧
    (0, job) ∈ forwarded s ∧ (outputPacket job).header.origLen = 55 ∧
      cutSegment.header.origLen = 60 := by
  obtain ⟨s, job, hrun, hjob⟩ := exists_forwarded_cut
  obtain ⟨raw, hraw, haccepted⟩ := forwarded_isJobOf hrun hjob
  cases hraw
  refine ⟨s, job, readsToEnd_cutCapture, hrun, hjob, ?_, rfl⟩
  rw [haccepted.outputPacket_eq]
  rfl

end DPIEngine

end DpiEngine
