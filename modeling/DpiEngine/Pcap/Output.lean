import DpiEngine.Packet.Frame
import DpiEngine.Pcap.RoundTrip

/-! # The output capture

The engine writes the header object of its reader and then one record for each
forwarded job, all from the memory of the host. The reader has swapped only some
fields of the header, so the output of a swapped file keeps a swapped magic
number in front of native records. Such an output is read back only when no
record notices the order of its bytes.
-/

namespace DpiEngine

open Traced

/-- The output file: none while it is not open, else what has been written. -/
abbrev OutputFile := Option (List UInt8)

def writeOutputHeader (out : OutputFile) (header : PcapGlobalHeader) : Bool × OutputFile :=
  match out with
  | none => (false, none)
  | some bytes => (true, some (bytes ++ header.toMemory))

def outputPacket (job : PacketJob) : PcapPacket where
  header := {
    tsSec := job.tsSec
    tsUsec := job.tsUsec
    inclLen := .ofNat job.data.length
    origLen := .ofNat job.data.length }
  data := job.data

def writeOutputPacket (out : OutputFile) (job : PacketJob) : OutputFile :=
  match out with
  | none => none
  | some bytes => some (bytes ++ (outputPacket job).header.toMemory ++ (outputPacket job).data)

def outputFile (header : PcapGlobalHeader) (jobs : List PacketJob) : OutputFile :=
  jobs.foldl writeOutputPacket (writeOutputHeader (some []) header).2

def PcapPacket.content (p : PcapPacket) : UInt32 × UInt32 × List UInt8 :=
  (p.header.tsSec, p.header.tsUsec, p.data)

def PacketJob.content (job : PacketJob) : UInt32 × UInt32 × List UInt8 :=
  (job.tsSec, job.tsUsec, job.data)

/-- The number is the same in both byte orders. -/
def SameInBothOrders (n : UInt32) : Prop := bytes32 n = bytes32LE n

/-- The job does not notice the byte order: no data, and the same times in both orders. -/
structure PacketJob.Orderless (job : PacketJob) : Prop where
  data_eq : job.data = []
  tsSec : SameInBothOrders job.tsSec
  tsUsec : SameInBothOrders job.tsUsec

/-- The output is opened, and read as the contents of the jobs in their order. -/
def ReadBack (header : PcapGlobalHeader) (jobs : List PacketJob) : Prop :=
  ∃ opened got, PcapReader.openFile {} (outputFile header jobs) = (true, opened) ∧
    opened.ReadsToEnd got ∧ got.map PcapPacket.content = jobs.map PacketJob.content

theorem foldl_writeOutputPacket (bytes : List UInt8) (jobs : List PacketJob) :
    jobs.foldl writeOutputPacket (some bytes) =
      some (bytes ++ Records.encodeAll ByteOrder.native.encodeRecord (jobs.map outputPacket)) := by
  induction jobs generalizing bytes with
  | nil => simp
  | cons job jobs ih =>
    rw [List.foldl_cons, writeOutputPacket, ih]
    simp [ByteOrder.encodeRecord, ByteOrder.field32, PcapPacketHeader.toMemory]

theorem outputFile_eq (header : PcapGlobalHeader) (jobs : List PacketJob) :
    outputFile header jobs = some (header.toMemory ++
      Records.encodeAll ByteOrder.native.encodeRecord (jobs.map outputPacket)) :=
  foldl_writeOutputPacket _ jobs

namespace PcapReader

variable {r : PcapReader} {s : List UInt8}

/-- Every file is read to an end, in one way. -/
theorem existsUnique_readsToEnd (r : PcapReader) (s : List UInt8) :
    ∃! ps, (r.reading s).ReadsToEnd ps := by
  have hread {s p t} (h : r.next s = some (p, t)) : t.length < s.length := by
    rw [next_eq_some_iff] at h
    obtain ⟨t', ht', hlen, -⟩ := readNextPacket_eq_some (congrArg Prod.fst h)
    cases h.symm.trans ht'
    omega
  obtain ⟨ps, hps⟩ := Records.exists_readsAs hread s
  refine ⟨ps, readsToEnd_reading_iff.mpr hps, ?_⟩
  rintro ps' hps'
  exact (readsToEnd_reading_iff.mp hps').unique hps

theorem ReadsToEnd.fits {ps : List PcapPacket} (h : (r.reading s).ReadsToEnd ps) :
    ∀ p ∈ ps, p.Fits r.globalHeader.snaplen := by
  induction ps generalizing s with
  | nil => exact fun _ hp => absurd hp List.not_mem_nil
  | cons p ps ih =>
    obtain ⟨hp, hps⟩ := h
    obtain ⟨t, ht, -, hfits⟩ := readNextPacket_eq_some hp
    rw [ht] at hps
    exact List.forall_mem_cons.mpr ⟨hfits, ih hps⟩

theorem ReadsToEnd.fits_of_open {file : List UInt8} {opened : PcapReader} {ps : List PcapPacket}
    (h : opened.ReadsToEnd ps) (hopen : r.openFile (some file) = (true, opened)) :
    ∀ p ∈ ps, p.Fits opened.globalHeader.snaplen := by
  obtain ⟨header, s, -, ⟨-, rfl⟩ | ⟨-, rfl⟩⟩ := openFile_eq_true hopen
  · exact h.fits
  · exact h.fits

theorem lt_maybeSwap32_length (h : r.needsByteSwap = true) {n : ℕ} (hn : 0 < n)
    (hmax : n ≤ 65535) : 65535 < r.maybeSwap32 (.ofNat n) := by
  have hbytes := bytes32LE_maybeSwap32 h (.ofNat n)
  simp only [bytes32LE, bytes32, List.cons.injEq, and_true] at hbytes
  obtain ⟨-, -, hhigh, htop⟩ := hbytes
  have hhigh := congrArg UInt8.toNat hhigh
  have htop := congrArg UInt8.toNat htop
  simp [Nat.shiftRight_eq_div_pow] at hhigh htop
  rw [UInt32.lt_iff_toNat_lt]
  simp
  omega

theorem maybeSwap32_eq_iff (h : r.needsByteSwap = true) (n : UInt32) :
    r.maybeSwap32 n = n ↔ SameInBothOrders n := by
  rw [SameInBothOrders, ← bytes32LE_maybeSwap32 h]
  exact ⟨fun h => by rw [h], bytes32LE_inj⟩

theorem encodeRecord_native (p : PcapPacket) :
    ByteOrder.native.encodeRecord p = p.header.toMemory ++ p.data := rfl

theorem ofMemory_outputPacket (job : PacketJob) :
    r.swapPacketHeader (.ofMemory (outputPacket job).header.toMemory) =
      r.swapPacketHeader (outputPacket job).header := by
  rw [PcapPacketHeader.ofMemory_toMemory]

theorem next_of_empty {job : PacketJob} (hdata : job.data = []) (t : List UInt8) :
    r.next (ByteOrder.native.encodeRecord (outputPacket job) ++ t) =
      some (⟨r.swapPacketHeader (outputPacket job).header, []⟩, t) := by
  have hzero : (r.swapPacketHeader (outputPacket job).header).inclLen = 0 := by
    simp [swapPacketHeader, outputPacket, hdata, maybeSwap32]
  have hlen : ¬ ((0 : UInt32) > r.globalHeader.snaplen ∨ (0 : UInt32) > 65535) := by simp
  have hdata' : (outputPacket job).data = [] := hdata
  rw [next_eq_some_iff, encodeRecord_native, List.append_assoc,
    readNextPacket_header rfl (ofMemory_outputPacket job), hzero, if_neg hlen, hdata',
    InStream.read_append t (n := (0 : UInt32).toNat) rfl]
  rfl

theorem next_of_data (h : r.needsByteSwap = true) {job : PacketJob} (hdata : job.data ≠ [])
    (hmax : job.data.length ≤ 65535) (t : List UInt8) :
    r.next (ByteOrder.native.encodeRecord (outputPacket job) ++ t) = none := by
  have hlen := lt_maybeSwap32_length h (List.length_pos_iff.mpr hdata) hmax
  rw [next_eq_none_iff, encodeRecord_native, List.append_assoc,
    readNextPacket_header rfl (ofMemory_outputPacket job), if_pos (.inr hlen)]

/-- A reader that swaps reads native records back if and only if they do not notice. The induction
is on the jobs: the first record with data stops the reader. -/
theorem exists_readsAs_iff (h : r.needsByteSwap = true) {jobs : List PacketJob}
    (hmax : ∀ job ∈ jobs, job.data.length ≤ 65535) :
    (∃ got, Records.ReadsAs r.next
        (Records.encodeAll ByteOrder.native.encodeRecord (jobs.map outputPacket)) got ∧
      got.map PcapPacket.content = jobs.map PacketJob.content) ↔
      ∀ job ∈ jobs, job.Orderless := by
  induction jobs with
  | nil =>
    constructor
    · exact fun _ _ hjob => absurd hjob List.not_mem_nil
    · exact fun _ => ⟨[], next_of_none (readNextPacket_short (by decide)), rfl⟩
  | cons job jobs ih =>
    rw [List.forall_mem_cons] at hmax ⊢
    rw [← ih hmax.2, List.map_cons, Records.encodeAll_cons]
    constructor
    · rintro ⟨_ | ⟨p, got⟩, hread, hcontent⟩
      · cases hcontent
      obtain ⟨t, ht, hread⟩ := hread
      obtain ⟨hp, hrest⟩ := List.cons.inj hcontent
      have hdata : job.data = [] := by
        by_contra hdata
        cases (next_of_data h hdata hmax.1 _).symm.trans ht
      cases (next_of_empty hdata _).symm.trans ht
      simp only [PcapPacket.content, PacketJob.content, Prod.mk.injEq] at hp
      exact ⟨⟨hdata, (maybeSwap32_eq_iff h _).mp hp.1, (maybeSwap32_eq_iff h _).mp hp.2.1⟩,
        got, hread, hrest⟩
    · rintro ⟨⟨hdata, hsec, husec⟩, got, hread, hcontent⟩
      refine ⟨_ :: got, ⟨_, next_of_empty hdata _, hread⟩, ?_⟩
      have hp : PcapPacket.content ⟨r.swapPacketHeader (outputPacket job).header, []⟩ =
          job.content := by
        simp only [PcapPacket.content, PacketJob.content, hdata, Prod.mk.injEq, and_true]
        exact ⟨(maybeSwap32_eq_iff h _).mpr hsec, (maybeSwap32_eq_iff h _).mpr husec⟩
      rw [List.map_cons, List.map_cons, hp, hcontent]

end PcapReader

def PcapPacket.raw (p : PcapPacket) : RawPacket where
  tsSec := p.header.tsSec
  tsUsec := p.header.tsUsec
  data := p.data

theorem createPacketJob_content {p : PcapPacket} {parsed : ParsedPacket} {packetId : UInt32}
    {job : PacketJob}
    (h : (ParserWorker.createPacketJob p.raw parsed packetId).value = some job) :
    job.content = p.content :=
  (createPacketJob_some h).2.2

open PcapReader

variable {header : PcapGlobalHeader} {jobs : List PacketJob}

theorem readBack_native (hmagic : header.magicNumber = pcapMagicNative)
    (hfits : ∀ job ∈ jobs, (outputPacket job).Fits header.snaplen) : ReadBack header jobs := by
  have hcodec := isCodec (o := .native) (r := { globalHeader := header }) rfl
  refine ⟨_, jobs.map outputPacket, ?_,
    readsToEnd_reading_iff.mpr (hcodec.readsAs_encodeAll ?_), ?_⟩
  · rw [outputFile_eq, openFile_native hmagic]
  · simpa using hfits
  · rw [List.map_map]
    rfl

theorem readBack_swapped_iff (hmagic : header.magicNumber = pcapMagicSwapped)
    (hmax : ∀ job ∈ jobs, job.data.length ≤ 65535) :
    ReadBack header jobs ↔ ∀ job ∈ jobs, job.Orderless := by
  have hopen := openFile_swapped (r := {}) hmagic
    (Records.encodeAll ByteOrder.native.encodeRecord (jobs.map outputPacket))
  have hiff := exists_readsAs_iff (r := {
    globalHeader := swapGlobalHeader { needsByteSwap := true } header
    needsByteSwap := true }) rfl hmax
  rw [← hiff]
  constructor
  · rintro ⟨opened, got, ho, hread, hcontent⟩
    rw [outputFile_eq, hopen] at ho
    cases ho
    exact ⟨got, readsToEnd_reading_iff.mp hread, hcontent⟩
  · rintro ⟨got, hread, hcontent⟩
    refine ⟨_, got, ?_, readsToEnd_reading_iff.mpr hread, hcontent⟩
    rw [outputFile_eq, hopen]

theorem fits_outputPacket {p : PcapPacket} {snaplen : UInt32} (hp : p.Fits snaplen)
    {job : PacketJob} (h : job.content = p.content) : (outputPacket job).Fits snaplen := by
  have hdata : job.data = p.data := congrArg (fun c => c.2.2) h
  have hlen : (outputPacket job).header.inclLen = p.header.inclLen := by
    simp [outputPacket, hdata, hp.length_eq]
  refine ⟨?_, hlen ▸ hp.le_snaplen, hlen ▸ hp.le_max⟩
  rw [hlen, ← hp.length_eq]
  exact congrArg List.length hdata

/-- Any packets of a file that the reader opens are forwarded. Their output is read back if and
only if the file is in native order or no forwarded job notices the order. -/
theorem readBack_iff {file : List UInt8} {r opened : PcapReader} {packets : List PcapPacket}
    (hopen : r.openFile (some file) = (true, opened)) (hread : opened.ReadsToEnd packets)
    (hjobs : ∀ job ∈ jobs, ∃ p ∈ packets, job.content = p.content) :
    ReadBack opened.globalHeader jobs ↔
      wordAtLE file 0 = pcapMagicNative ∨ ∀ job ∈ jobs, job.Orderless := by
  obtain ⟨header, s, hword, hcases⟩ := openFile_eq_true hopen
  have hne : pcapMagicSwapped ≠ pcapMagicNative := by decide
  have hfits : ∀ job ∈ jobs, (outputPacket job).Fits opened.globalHeader.snaplen := by
    rintro job hjob
    obtain ⟨p, hp, hcontent⟩ := hjobs job hjob
    exact fits_outputPacket (hread.fits_of_open hopen p hp) hcontent
  rw [← hword]
  rcases hcases with ⟨hmagic, rfl⟩ | ⟨hmagic, rfl⟩
  · exact iff_of_true (readBack_native hmagic hfits) (.inl hmagic)
  · have hmax : ∀ job ∈ jobs, job.data.length ≤ 65535 := by
      intro job hjob
      have h := (hfits job hjob).le_max
      have hlen := (hfits job hjob).length_eq
      rw [UInt32.le_iff_toNat_le, ← hlen] at h
      exact h
    rw [hmagic, or_iff_right hne]
    exact readBack_swapped_iff hmagic hmax

def capture (o : ByteOrder) : List UInt8 :=
  o.encodeFile { snaplen := 4 } [⟨⟨1, 2, 1, 1⟩, [7]⟩]

theorem openFile_capture (o : ByteOrder) : PcapReader.openFile {} (some (capture o)) =
    (true, (PcapReader.openFile {} (some (capture o))).2) := by
  cases o <;> exact Prod.ext (by decide) rfl

theorem readsToEnd_capture (o : ByteOrder) :
    (PcapReader.openFile {} (some (capture o))).2.ReadsToEnd [⟨⟨1, 2, 1, 1⟩, [7]⟩] := by
  cases o <;> decide

/-- The packet of a native file is read back. -/
theorem readBack_iff_native :
    ReadBack (PcapReader.openFile {} (some (capture .native))).2.globalHeader
        [{ tsSec := 1, tsUsec := 2, data := [7] }] ↔
      wordAtLE (capture .native) 0 = pcapMagicNative ∨
        ∀ job ∈ [({ tsSec := 1, tsUsec := 2, data := [7] } : PacketJob)], job.Orderless := by
  refine readBack_iff (openFile_capture .native) (readsToEnd_capture .native) ?_
  rintro job hjob
  obtain rfl := List.mem_singleton.mp hjob
  exact ⟨_, List.mem_singleton_self _, rfl⟩

/-- The packet of a swapped file is not read back from the output. -/
theorem not_readBack_swapped :
    ¬ ∀ file opened packets jobs, PcapReader.openFile {} (some file) = (true, opened) →
      opened.ReadsToEnd packets →
      (jobs.map PacketJob.content).Sublist (packets.map PcapPacket.content) →
      ReadBack opened.globalHeader jobs := by
  intro h
  have hback := h (capture .swapped) _ [⟨⟨1, 2, 1, 1⟩, [7]⟩]
    [{ tsSec := 1, tsUsec := 2, data := [7] }] (openFile_capture .swapped)
    (readsToEnd_capture .swapped) (List.Sublist.refl _)
  rw [readBack_swapped_iff (by decide) (by decide)] at hback
  exact absurd (hback _ (List.mem_singleton_self _)).data_eq (by decide)

end DpiEngine
