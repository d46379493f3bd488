import Mathlib.Tactic.IntervalCases
import DpiEngine.Pcap.Reader

/-! # Capture files are read back

The reference encoding writes every field in the byte order of one host. A cut
of an encoded file is read as the longest list of first records that it contains
as a whole, whichever order the file was written in.
-/

namespace DpiEngine

open Traced

/-- The byte order of the host that writes a file. -/
inductive ByteOrder
  | native
  | swapped
  deriving DecidableEq

namespace ByteOrder

def field16 (n : UInt16) : ByteOrder → List UInt8
  | native => bytes16LE n
  | swapped => bytes16 n.toNat

def field32 (n : UInt32) : ByteOrder → List UInt8
  | native => bytes32LE n
  | swapped => bytes32 n

def needsByteSwap : ByteOrder → Bool
  | native => false
  | swapped => true

def encodeGlobal (o : ByteOrder) (h : PcapGlobalHeader) : List UInt8 :=
  o.field32 pcapMagicNative ++ o.field16 h.versionMajor ++ o.field16 h.versionMinor ++
    o.field32 h.thiszone.toUInt32 ++ o.field32 h.sigfigs ++ o.field32 h.snaplen ++
    o.field32 h.network

def encodeRecord (o : ByteOrder) (p : PcapPacket) : List UInt8 :=
  o.field32 p.header.tsSec ++ o.field32 p.header.tsUsec ++ o.field32 p.header.inclLen ++
    o.field32 p.header.origLen ++ p.data

def encodeFile (o : ByteOrder) (h : PcapGlobalHeader) (records : List PcapPacket) : List UInt8 :=
  o.encodeGlobal h ++ Records.encodeAll o.encodeRecord records

end ByteOrder

/-- The header counts the bytes of the record, within the limits of the file and of the reader. -/
structure PcapPacket.Fits (snaplen : UInt32) (p : PcapPacket) : Prop where
  length_eq : p.data.length = p.header.inclLen.toNat
  le_snaplen : p.header.inclLen ≤ snaplen
  le_max : p.header.inclLen ≤ 65535

namespace PcapReader

variable {r : PcapReader}

theorem maybeSwap32_native (h : r.needsByteSwap = false) (n : UInt32) : r.maybeSwap32 n = n := by
  simp [maybeSwap32, h]

theorem bytes32LE_maybeSwap32 (h : r.needsByteSwap = true) (n : UInt32) :
    bytes32LE (r.maybeSwap32 n) = bytes32 n := by
  simp only [bytes32LE, bytes32, List.cons.injEq, and_true, maybeSwap32, h, Bool.not_true,
    Bool.false_eq_true, if_false]
  refine ⟨?_, ?_, ?_, ?_⟩
  all_goals
    apply UInt8.toBitVec_inj.mp
    ext i hi
    interval_cases i <;> simp

theorem bytes16_eq (n : UInt16) : bytes16 n.toNat = [(n >>> 8).toUInt8, n.toUInt8] := by
  have hhigh : UInt8.ofNat (n.toNat / 256) = (n >>> 8).toUInt8 := by
    apply UInt8.toNat_inj.mp
    simp [Nat.shiftRight_eq_div_pow]
  rw [bytes16, hhigh]
  rfl

theorem bytes16LE_maybeSwap16 (h : r.needsByteSwap = true) (n : UInt16) :
    bytes16LE (r.maybeSwap16 n) = bytes16 n.toNat := by
  simp only [bytes16LE, bytes16_eq, List.cons.injEq, and_true, maybeSwap16, h,
    Bool.not_true, Bool.false_eq_true, if_false]
  constructor
  all_goals
    apply UInt8.toBitVec_inj.mp
    ext i hi
    interval_cases i <;> simp

theorem bytes32LE_inj {m n : UInt32} (h : bytes32LE m = bytes32LE n) : m = n := by
  rw [← wordAtLE_eq (w := m) [] [] rfl rfl, h, wordAtLE_eq (w := n) [] [] rfl rfl]

theorem bytes16LE_inj {m n : UInt16} (h : bytes16LE m = bytes16LE n) : m = n := by
  rw [← halfAtLE_eq (w := m) [] [] rfl rfl, h, halfAtLE_eq (w := n) [] [] rfl rfl]

@[simp] theorem maybeSwap32_maybeSwap32 (n : UInt32) : r.maybeSwap32 (r.maybeSwap32 n) = n := by
  cases h : r.needsByteSwap with
  | false => simp only [maybeSwap32_native h]
  | true =>
    have hreverse (m : UInt32) : bytes32 m = (bytes32LE m).reverse := rfl
    apply bytes32LE_inj
    rw [bytes32LE_maybeSwap32 h, hreverse, bytes32LE_maybeSwap32 h, hreverse, List.reverse_reverse]

@[simp] theorem maybeSwap16_maybeSwap16 (n : UInt16) : r.maybeSwap16 (r.maybeSwap16 n) = n := by
  cases h : r.needsByteSwap with
  | false => simp [maybeSwap16, h]
  | true =>
    have hreverse (m : UInt16) : bytes16 m.toNat = (bytes16LE m).reverse := bytes16_eq m
    apply bytes16LE_inj
    rw [bytes16LE_maybeSwap16 h, hreverse, bytes16LE_maybeSwap16 h, hreverse, List.reverse_reverse]

/-! ### What the encoded fields are to the reader -/

section Fields

variable {o : ByteOrder}

theorem field32_eq (h : r.needsByteSwap = o.needsByteSwap) (n : UInt32) :
    o.field32 n = bytes32LE (r.maybeSwap32 n) := by
  cases o with
  | native => rw [maybeSwap32_native h]; rfl
  | swapped => exact (bytes32LE_maybeSwap32 h n).symm

theorem field16_eq (h : r.needsByteSwap = o.needsByteSwap) (n : UInt16) :
    o.field16 n = bytes16LE (r.maybeSwap16 n) := by
  cases o with
  | native =>
    have h' : r.needsByteSwap = false := h
    simp [maybeSwap16, h', ByteOrder.field16]
  | swapped => exact (bytes16LE_maybeSwap16 h n).symm

theorem encodeRecord_eq (h : r.needsByteSwap = o.needsByteSwap) (p : PcapPacket) :
    o.encodeRecord p = (r.swapPacketHeader p.header).toMemory ++ p.data := by
  simp only [ByteOrder.encodeRecord, field32_eq h]
  rfl

end Fields

/-! ### One record -/

@[simp] theorem swapPacketHeader_swapPacketHeader (header : PcapPacketHeader) :
    r.swapPacketHeader (r.swapPacketHeader header) = header := by
  simp only [swapPacketHeader, maybeSwap32_maybeSwap32]

/-- The reader with `s` left of its file. -/
def reading (r : PcapReader) (s : List UInt8) : PcapReader := { r with file := some { rest := s } }

def next (r : PcapReader) (s : List UInt8) : Option (PcapPacket × List UInt8) :=
  match (r.reading s).readNextPacket with
  | (some p, r') => r'.file.map fun f => (p, f.rest)
  | (none, _) => none

variable {s : List UInt8}

theorem readNextPacket_short (h : s.length < 16) : (r.reading s).readNextPacket.1 = none := by
  simp only [readNextPacket, reading, InStream.read_short h]

theorem readNextPacket_header {b : List UInt8} (hb : b.length = 16) {header : PcapPacketHeader}
    (hheader : r.swapPacketHeader (.ofMemory b) = header) (s : List UInt8) :
    (r.reading (b ++ s)).readNextPacket =
      if header.inclLen > r.globalHeader.snaplen ∨ header.inclLen > 65535 then (none, r.reading s)
      else match InStream.read { rest := s } header.inclLen.toNat with
        | (none, file) => (none, { r with file := some file })
        | (some data, file) => (some ⟨header, data⟩, { r with file := some file }) := by
  subst hheader
  obtain ⟨file, global, swapped⟩ := r
  simp only [readNextPacket, reading, InStream.read_append s hb]
  cases swapped <;> rfl

theorem readNextPacket_eq_some {p : PcapPacket} (h : (r.reading s).readNextPacket.1 = some p) :
    ∃ t, (r.reading s).readNextPacket = (some p, r.reading t) ∧ t.length + 16 ≤ s.length ∧
      p.Fits r.globalHeader.snaplen := by
  rcases Nat.lt_or_ge s.length 16 with hs | hs
  · cases (readNextPacket_short hs).symm.trans h
  have hb : (s.take 16).length = 16 := by simpa using hs
  have hread := readNextPacket_header (r := r) hb rfl (s.drop 16)
  rw [List.take_append_drop] at hread
  rw [hread] at h ⊢
  by_cases hlen : (r.swapPacketHeader (.ofMemory (s.take 16))).inclLen > r.globalHeader.snaplen ∨
      (r.swapPacketHeader (.ofMemory (s.take 16))).inclLen > 65535
  · rw [if_pos hlen] at h
    cases h
  rw [if_neg hlen] at h ⊢
  rw [not_or, gt_iff_lt, gt_iff_lt, UInt32.not_lt, UInt32.not_lt] at hlen
  rcases Nat.lt_or_ge (s.drop 16).length _ with hd | hd
  · rw [InStream.read_short hd] at h
    cases h
  · rw [InStream.read, if_pos ⟨rfl, hd⟩] at h ⊢
    obtain rfl := Option.some.inj h
    refine ⟨_, rfl, ?_, ⟨?_, hlen.1, hlen.2⟩⟩
    · simp only [List.length_drop]
      omega
    · simpa using hd

theorem swapPacketHeader_ofMemory (header : PcapPacketHeader) :
    r.swapPacketHeader (.ofMemory (r.swapPacketHeader header).toMemory) = header := by
  rw [PcapPacketHeader.ofMemory_toMemory, swapPacketHeader_swapPacketHeader]

theorem readNextPacket_record {p : PcapPacket} (hp : p.Fits r.globalHeader.snaplen)
    (t : List UInt8) :
    (r.reading ((r.swapPacketHeader p.header).toMemory ++ (p.data ++ t))).readNextPacket =
      (some p, r.reading t) := by
  have hlen : ¬ (p.header.inclLen > r.globalHeader.snaplen ∨ p.header.inclLen > 65535) := by
    rintro (h | h)
    · exact absurd hp.le_snaplen (UInt32.not_le.mpr h)
    · exact absurd hp.le_max (UInt32.not_le.mpr h)
  rw [readNextPacket_header rfl (swapPacketHeader_ofMemory _), if_neg hlen,
    InStream.read_append t hp.length_eq]
  rfl

theorem readNextPacket_cut {header : PcapPacketHeader} (h : s.length < header.inclLen.toNat) :
    (r.reading ((r.swapPacketHeader header).toMemory ++ s)).readNextPacket.1 = none := by
  rw [readNextPacket_header rfl (swapPacketHeader_ofMemory _), InStream.read_short h]
  split <;> rfl

theorem next_of_none (h : (r.reading s).readNextPacket.1 = none) : r.next s = none := by
  rw [next]
  rcases hr : (r.reading s).readNextPacket with ⟨_ | p, r'⟩
  · rfl
  · rw [hr] at h
    cases h

theorem next_of_some {p : PcapPacket} {t : List UInt8}
    (h : (r.reading s).readNextPacket = (some p, r.reading t)) : r.next s = some (p, t) := by
  rw [next, h]
  rfl

theorem next_eq_none_iff : r.next s = none ↔ (r.reading s).readNextPacket.1 = none := by
  constructor
  · intro h
    cases hp : (r.reading s).readNextPacket.1 with
    | none => rfl
    | some p =>
      obtain ⟨t, ht, -⟩ := readNextPacket_eq_some hp
      cases h.symm.trans (next_of_some ht)
  · exact next_of_none

theorem next_eq_some_iff {p : PcapPacket} {t : List UInt8} :
    r.next s = some (p, t) ↔ (r.reading s).readNextPacket = (some p, r.reading t) := by
  constructor
  · intro h
    cases hp : (r.reading s).readNextPacket.1 with
    | none => cases h.symm.trans (next_of_none hp)
    | some p' =>
      obtain ⟨t', ht', -⟩ := readNextPacket_eq_some hp
      cases h.symm.trans (next_of_some ht')
      exact ht'
  · exact next_of_some

/-- The calls of the reader take one record after another from the file. -/
theorem readsToEnd_reading_iff {ps : List PcapPacket} :
    (r.reading s).ReadsToEnd ps ↔ Records.ReadsAs r.next s ps := by
  induction ps generalizing s with
  | nil => exact next_eq_none_iff.symm
  | cons p ps ih =>
    constructor
    · rintro ⟨hp, hps⟩
      obtain ⟨t, ht, -⟩ := readNextPacket_eq_some hp
      rw [ht] at hps
      exact ⟨t, next_eq_some_iff.mpr ht, ih.mp hps⟩
    · rintro ⟨t, ht, hps⟩
      rw [next_eq_some_iff] at ht
      rw [ReadsToEnd, ht]
      exact ⟨rfl, ih.mpr hps⟩

/-- The reader takes back the records of a file in the byte order it expects. -/
theorem isCodec {o : ByteOrder} (h : r.needsByteSwap = o.needsByteSwap) :
    Records.IsCodec o.encodeRecord r.next (PcapPacket.Fits r.globalHeader.snaplen) where
  read_append := by
    intro p t hp
    rw [encodeRecord_eq h, List.append_assoc, next_eq_some_iff, readNextPacket_record hp]
  read_cut := by
    intro p s hp hs hne
    rw [next_eq_none_iff]
    have hlen : s.length < (o.encodeRecord p).length := by
      by_contra hge
      exact hne (hs.eq_of_length_le (not_lt.mp hge))
    rw [encodeRecord_eq h] at hs hlen
    rcases Nat.lt_or_ge s.length 16 with hshort | hshort
    · exact readNextPacket_short hshort
    · obtain ⟨t, rfl⟩ := List.prefix_of_prefix_length_le (List.prefix_append _ _) hs hshort
      apply readNextPacket_cut
      rw [← hp.length_eq]
      simpa using hlen
  read_nil := next_eq_none_iff.mpr (readNextPacket_short (by decide))

/-! ### The global header -/

theorem openFile_short {bytes : List UInt8} (h : bytes.length < 24) :
    (r.openFile (some bytes)).1 = false := by
  simp only [openFile, InStream.read_short h]

theorem openFile_header {b : List UInt8} (hb : b.length = 24) {header : PcapGlobalHeader}
    (hheader : .ofMemory b = header) (s : List UInt8) :
    r.openFile (some (b ++ s)) =
      if header.magicNumber = pcapMagicNative then
        (true, reading { globalHeader := header } s)
      else if header.magicNumber = pcapMagicSwapped then
        (true, reading { globalHeader := swapGlobalHeader { needsByteSwap := true } header,
                         needsByteSwap := true } s)
      else (false, { globalHeader := header }) := by
  subst hheader
  simp only [openFile, InStream.read_append s hb]
  rfl

theorem openFile_native {header : PcapGlobalHeader} (h : header.magicNumber = pcapMagicNative)
    (s : List UInt8) :
    r.openFile (some (header.toMemory ++ s)) = (true, reading { globalHeader := header } s) := by
  rw [openFile_header rfl header.ofMemory_toMemory, if_pos h]

theorem openFile_swapped {header : PcapGlobalHeader} (h : header.magicNumber = pcapMagicSwapped)
    (s : List UInt8) :
    r.openFile (some (header.toMemory ++ s)) =
      (true, reading { globalHeader := swapGlobalHeader { needsByteSwap := true } header,
                       needsByteSwap := true } s) := by
  have hne : pcapMagicSwapped ≠ pcapMagicNative := by decide
  rw [openFile_header rfl header.ofMemory_toMemory, h, if_neg hne, if_pos rfl]

theorem openFile_eq_true {bytes : List UInt8} {opened : PcapReader}
    (h : r.openFile (some bytes) = (true, opened)) :
    ∃ header s, header.magicNumber = wordAtLE bytes 0 ∧
      (header.magicNumber = pcapMagicNative ∧ opened = reading { globalHeader := header } s ∨
        header.magicNumber = pcapMagicSwapped ∧
          opened = reading { globalHeader := swapGlobalHeader { needsByteSwap := true } header,
                             needsByteSwap := true } s) := by
  rcases Nat.lt_or_ge bytes.length 24 with hlen | hlen
  · cases (congrArg Prod.fst h).symm.trans (openFile_short hlen)
  have hb : (bytes.take 24).length = 24 := by simpa using hlen
  have hmagic : wordAtLE (bytes.take 24) 0 = wordAtLE bytes 0 := by
    simp [wordAtLE, byteAt]
  rw [← List.take_append_drop 24 bytes, openFile_header hb rfl] at h
  refine ⟨.ofMemory (bytes.take 24), bytes.drop 24, hmagic, ?_⟩
  by_cases hnative : (PcapGlobalHeader.ofMemory (bytes.take 24)).magicNumber = pcapMagicNative
  · rw [if_pos hnative] at h
    exact .inl ⟨hnative, (congrArg Prod.snd h).symm⟩
  rw [if_neg hnative] at h
  by_cases hswapped : (PcapGlobalHeader.ofMemory (bytes.take 24)).magicNumber = pcapMagicSwapped
  · rw [if_pos hswapped] at h
    exact .inr ⟨hswapped, (congrArg Prod.snd h).symm⟩
  · rw [if_neg hswapped] at h
    cases congrArg Prod.fst h

end PcapReader

/-! ### Whole files -/

namespace ByteOrder

open PcapReader

def reader (o : ByteOrder) : PcapReader := { needsByteSwap := o.needsByteSwap }

def openedHeader (o : ByteOrder) (h : PcapGlobalHeader) : PcapGlobalHeader :=
  { h with
    magicNumber := o.reader.maybeSwap32 pcapMagicNative
    thiszone := (o.reader.maybeSwap32 h.thiszone.toUInt32).toInt32
    sigfigs := o.reader.maybeSwap32 h.sigfigs }

/-- What the memory of the reader holds of the header, before it swaps any field. -/
def fileHeader (o : ByteOrder) (h : PcapGlobalHeader) : PcapGlobalHeader :=
  o.reader.swapGlobalHeader (o.openedHeader h)

variable (o : ByteOrder) (h : PcapGlobalHeader)

theorem encodeGlobal_eq : o.encodeGlobal h = (o.fileHeader h).toMemory := by
  have hr : o.reader.needsByteSwap = o.needsByteSwap := rfl
  simp only [encodeGlobal, field32_eq hr, field16_eq hr]
  rfl

@[simp] theorem length_encodeGlobal : (o.encodeGlobal h).length = 24 := by
  rw [encodeGlobal_eq, PcapGlobalHeader.length_toMemory]

theorem openFile_encodeGlobal (r : PcapReader) (s : List UInt8) :
    r.openFile (some (o.encodeGlobal h ++ s)) =
      (true, PcapReader.reading { globalHeader := o.openedHeader h,
                                  needsByteSwap := o.needsByteSwap } s) := by
  rw [encodeGlobal_eq]
  cases o with
  | native => exact openFile_native rfl s
  | swapped =>
    have hback (r : PcapReader) : r.swapGlobalHeader (r.swapGlobalHeader (swapped.openedHeader h)) =
        swapped.openedHeader h := by
      simp only [swapGlobalHeader, maybeSwap16_maybeSwap16, maybeSwap32_maybeSwap32]
    have hmagic : (swapped.fileHeader h).magicNumber = pcapMagicSwapped := rfl
    rw [openFile_swapped hmagic s]
    exact congrArg
      (fun g => (true, PcapReader.reading { globalHeader := g, needsByteSwap := true } s))
      (hback _)

/-- A file cut anywhere behind its global header is read as the longest list of first records that
the cut contains as a whole, and then the reader returns false. -/
theorem readsToEnd_take {records : List PcapPacket} (hfits : ∀ p ∈ records, p.Fits h.snaplen)
    {k : ℕ} (hk : 24 ≤ k) (r : PcapReader) :
    ∃ opened got,
      r.openFile (some ((o.encodeFile h records).take k)) = (true, opened) ∧
      opened.ReadsToEnd got ∧
      got <+: records ∧
      o.encodeFile h got <+: (o.encodeFile h records).take k ∧
      (∀ first, first <+: records → o.encodeFile h first <+: (o.encodeFile h records).take k →
        first <+: got) ∧
      opened.globalHeader.versionMajor = h.versionMajor ∧
      opened.globalHeader.versionMinor = h.versionMinor ∧
      opened.globalHeader.snaplen = h.snaplen ∧
      opened.globalHeader.network = h.network := by
  have hcut : (o.encodeFile h records).take k =
      o.encodeGlobal h ++ (Records.encodeAll o.encodeRecord records).take (k - 24) := by
    rw [encodeFile, List.take_append, length_encodeGlobal,
      List.take_of_length_le (by simpa using hk)]
  have hcodec := isCodec (o := o)
    (r := { globalHeader := o.openedHeader h, needsByteSwap := o.needsByteSwap }) rfl
  have hopen := o.openFile_encodeGlobal h r
    ((Records.encodeAll o.encodeRecord records).take (k - 24))
  obtain ⟨got, hread, hlong⟩ := hcodec.exists_longest hfits (List.take_prefix (k - 24) _)
  rw [hcut]
  refine ⟨_, got, hopen, readsToEnd_reading_iff.mpr hread, hlong.isPrefix,
    (List.prefix_append_right_inj _).mpr hlong.contained, ?_, rfl, rfl, rfl, rfl⟩
  rintro first hfirst hs
  exact hlong.longest first hfirst ((List.prefix_append_right_inj _).mp hs)

/-- A file from a host of the other order that ends inside its second record. -/
theorem readsToEnd_take_swapped :
    ∃ opened got,
      PcapReader.openFile {} (some ((swapped.encodeFile { snaplen := 4 }
        [⟨⟨1, 2, 0, 0⟩, []⟩, ⟨⟨3, 4, 1, 1⟩, [7]⟩]).take 56)) = (true, opened) ∧
      opened.ReadsToEnd got ∧
      got <+: [⟨⟨1, 2, 0, 0⟩, []⟩, ⟨⟨3, 4, 1, 1⟩, [7]⟩] ∧
      swapped.encodeFile { snaplen := 4 } got <+: (swapped.encodeFile { snaplen := 4 }
        [⟨⟨1, 2, 0, 0⟩, []⟩, ⟨⟨3, 4, 1, 1⟩, [7]⟩]).take 56 ∧
      (∀ first, first <+: [⟨⟨1, 2, 0, 0⟩, []⟩, ⟨⟨3, 4, 1, 1⟩, [7]⟩] →
        swapped.encodeFile { snaplen := 4 } first <+: (swapped.encodeFile { snaplen := 4 }
          [⟨⟨1, 2, 0, 0⟩, []⟩, ⟨⟨3, 4, 1, 1⟩, [7]⟩]).take 56 → first <+: got) ∧
      opened.globalHeader.versionMajor = 0 ∧
      opened.globalHeader.versionMinor = 0 ∧
      opened.globalHeader.snaplen = 4 ∧
      opened.globalHeader.network = 0 := by
  refine swapped.readsToEnd_take { snaplen := 4 } ?_ (by decide) {}
  rintro p hp
  rcases List.mem_pair.mp hp with rfl | rfl
  · exact ⟨rfl, by decide, by decide⟩
  · exact ⟨rfl, by decide, by decide⟩

end ByteOrder

end DpiEngine
