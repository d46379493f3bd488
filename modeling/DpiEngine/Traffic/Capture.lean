import DpiEngine.Pcap.RoundTrip
import DpiEngine.Traffic.Generator

/-! # The capture of the script

The writer packs the fields in the order of its host, so its file is read back as
the packets that were written, each a second after the one before.
-/

namespace DpiEngine.TestPcap

open PcapReader Traced

variable {tsUsec : ℕ → ℕ} {timestamp : ℕ} {frames : List (List UInt8)} {bytes file : List UInt8}
  {es : List Exchange} {packets : List (List (List UInt8))}

theorem packLE_eq_some {n : ℕ} (h : packLE n = some bytes) : bytes = bytes32LE (.ofNat n) := by
  unfold packLE at h
  split_ifs at h
  exact (Option.some.inj h).symm

namespace PCAPWriter

def captured (tsUsec : ℕ → ℕ) (timestamp : ℕ) : List (List UInt8) → List PcapPacket
  | [] => []
  | data :: frames =>
    let header : PcapPacketHeader := {
      tsSec := .ofNat timestamp
      tsUsec := .ofNat (tsUsec timestamp)
      inclLen := .ofNat data.length
      origLen := .ofNat data.length }
    ⟨header, data⟩ :: captured tsUsec (timestamp + 1) frames

theorem map_data_captured (tsUsec : ℕ → ℕ) (timestamp : ℕ) (frames : List (List UInt8)) :
    (captured tsUsec timestamp frames).map (·.data) = frames := by
  induction frames generalizing timestamp with
  | nil => rfl
  | cons data frames ih => exact congrArg (data :: ·) (ih (timestamp + 1))

theorem captured_fits (hsmall : ∀ data ∈ frames, data.length ≤ 65535) :
    ∀ p ∈ captured tsUsec timestamp frames, p.Fits 65535 := by
  induction frames generalizing timestamp with
  | nil => exact fun p hp => absurd hp List.not_mem_nil
  | cons data frames ih =>
    rw [List.forall_mem_cons] at hsmall
    have hlength : (UInt32.ofNat data.length).toNat = data.length :=
      UInt32.toNat_ofNat_of_lt' (hsmall.1.trans_lt (by decide))
    have hle : UInt32.ofNat data.length ≤ 65535 := by
      rw [UInt32.le_iff_toNat_le, hlength]
      exact hsmall.1
    exact List.forall_mem_cons.mpr ⟨⟨hlength.symm, hle, hle⟩, ih hsmall.2⟩

theorem writePackets_eq_some (h : writePackets tsUsec timestamp frames = some bytes) :
    bytes = Records.encodeAll ByteOrder.native.encodeRecord
      (captured tsUsec timestamp frames) := by
  induction frames generalizing timestamp bytes with
  | nil =>
    cases h
    rfl
  | cons data frames ih =>
    obtain ⟨record, hrecord, h⟩ := Option.bind_eq_some_iff.mp h
    obtain ⟨rest, hrest, h⟩ := Option.bind_eq_some_iff.mp h
    obtain ⟨sec, hsec, hrecord⟩ := Option.bind_eq_some_iff.mp hrecord
    obtain ⟨usec, husec, hrecord⟩ := Option.bind_eq_some_iff.mp hrecord
    obtain ⟨incl, hincl, hrecord⟩ := Option.bind_eq_some_iff.mp hrecord
    obtain ⟨orig, horig, hrecord⟩ := Option.bind_eq_some_iff.mp hrecord
    cases h
    cases hrecord
    rw [packLE_eq_some hsec, packLE_eq_some husec, packLE_eq_some hincl, packLE_eq_some horig,
      ih hrest]
    rfl

/-- Version 2.4, Ethernet. -/
def globalHeader : PcapGlobalHeader where
  versionMajor := 2
  versionMinor := 4
  snaplen := 65535
  network := 1

theorem writeGlobalHeader_eq : writeGlobalHeader = ByteOrder.native.encodeGlobal globalHeader := by
  decide

end PCAPWriter

open PCAPWriter

/-- The file is read back as the packets of all exchanges, if none is longer than the reader
takes. -/
theorem readsToEnd_main (hfile : main es tsUsec = some file)
    (htraffic : traffic 1000 es = some packets)
    (hsmall : ∀ data ∈ packets.flatten, data.length ≤ 65535) :
    ∃ opened, PcapReader.openFile {} (some file) = (true, opened) ∧
      opened.ReadsToEnd (captured tsUsec 1700000000 packets.flatten) := by
  obtain ⟨packets', htraffic', hfile⟩ := Option.bind_eq_some_iff.mp hfile
  cases htraffic.symm.trans htraffic'
  obtain ⟨records, hrecords, hfile⟩ := Option.bind_eq_some_iff.mp hfile
  cases hfile
  have hcodec := isCodec (o := .native)
    (r := { globalHeader := ByteOrder.native.openedHeader globalHeader }) rfl
  refine ⟨_, ?_, readsToEnd_reading_iff.mpr (hcodec.readsAs_encodeAll (captured_fits hsmall))⟩
  rw [writeGlobalHeader_eq, writePackets_eq_some hrecords]
  exact ByteOrder.openFile_encodeGlobal .native globalHeader {} _

end DpiEngine.TestPcap
