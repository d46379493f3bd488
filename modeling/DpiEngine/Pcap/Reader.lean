import DpiEngine.Library.Bytes
import DpiEngine.Library.Records

/-! # Reading capture files

A capture file is a global header and then records, each with a header of its
own. The reader takes the byte order of the host that wrote the file from the
magic number and swaps the fields it uses.
-/

namespace DpiEngine

open Traced

structure PcapGlobalHeader where
  magicNumber : UInt32 := 0
  versionMajor : UInt16 := 0
  versionMinor : UInt16 := 0
  thiszone : Int32 := 0
  sigfigs : UInt32 := 0
  snaplen : UInt32 := 0
  network : UInt32 := 0
  deriving DecidableEq, Repr

structure PcapPacketHeader where
  tsSec : UInt32
  tsUsec : UInt32
  inclLen : UInt32
  origLen : UInt32
  deriving DecidableEq, Repr

/-- The `RawPacket` of the reader, with its header. -/
structure PcapPacket where
  header : PcapPacketHeader
  data : List UInt8
  deriving DecidableEq, Repr

def pcapMagicNative : UInt32 := 0xa1b2c3d4

def pcapMagicSwapped : UInt32 := 0xd4c3b2a1

/-- The header whose memory was read from the file. -/
def PcapGlobalHeader.ofMemory (b : List UInt8) : PcapGlobalHeader where
  magicNumber := wordAtLE b 0
  versionMajor := halfAtLE b 4
  versionMinor := halfAtLE b 6
  thiszone := (wordAtLE b 8).toInt32
  sigfigs := wordAtLE b 12
  snaplen := wordAtLE b 16
  network := wordAtLE b 20

def PcapGlobalHeader.toMemory (h : PcapGlobalHeader) : List UInt8 :=
  bytes32LE h.magicNumber ++ bytes16LE h.versionMajor ++ bytes16LE h.versionMinor ++
    bytes32LE h.thiszone.toUInt32 ++ bytes32LE h.sigfigs ++ bytes32LE h.snaplen ++
    bytes32LE h.network

def PcapPacketHeader.ofMemory (b : List UInt8) : PcapPacketHeader where
  tsSec := wordAtLE b 0
  tsUsec := wordAtLE b 4
  inclLen := wordAtLE b 8
  origLen := wordAtLE b 12

def PcapPacketHeader.toMemory (h : PcapPacketHeader) : List UInt8 :=
  bytes32LE h.tsSec ++ bytes32LE h.tsUsec ++ bytes32LE h.inclLen ++ bytes32LE h.origLen

namespace PcapGlobalHeader

@[simp] theorem length_toMemory (h : PcapGlobalHeader) : h.toMemory.length = 24 := rfl

@[simp] theorem ofMemory_toMemory (h : PcapGlobalHeader) : .ofMemory h.toMemory = h := by
  simp [ofMemory, toMemory, wordAtLE, halfAtLE, byteAt, bytes32LE, bytes16LE, be32_bytes,
    be16_bytesLE]

end PcapGlobalHeader

namespace PcapPacketHeader

@[simp] theorem length_toMemory (h : PcapPacketHeader) : h.toMemory.length = 16 := rfl

@[simp] theorem ofMemory_toMemory (h : PcapPacketHeader) : .ofMemory h.toMemory = h := by
  simp [ofMemory, toMemory, wordAtLE, byteAt, bytes32LE, be32_bytes]

end PcapPacketHeader

/-- An open `std::ifstream`: what is left of the file, and whether no read has failed yet. -/
structure InStream where
  rest : List UInt8
  good : Bool := true
  deriving DecidableEq, Repr

/-- Reads exactly `n` bytes, or fails and takes what is left. -/
def InStream.read (f : InStream) (n : ℕ) : Option (List UInt8) × InStream :=
  if f.good = true ∧ n ≤ f.rest.length then
    (some (f.rest.take n), { f with rest := f.rest.drop n })
  else (none, { rest := [], good := false })

theorem InStream.read_append {b : List UInt8} {n : ℕ} (rest : List UInt8) (h : b.length = n) :
    InStream.read { rest := b ++ rest } n = (some b, { rest := rest }) := by
  subst h
  simp [InStream.read]

theorem InStream.read_short {rest : List UInt8} {n : ℕ} (h : rest.length < n) :
    InStream.read { rest := rest } n = (none, { rest := [], good := false }) := by
  simp [InStream.read, h]

structure PcapReader where
  /-- None while no file is open. -/
  file : Option InStream := none
  globalHeader : PcapGlobalHeader := {}
  needsByteSwap : Bool := false
  deriving DecidableEq, Repr

namespace PcapReader

def close (r : PcapReader) : PcapReader := { r with file := none, needsByteSwap := false }

def maybeSwap16 (r : PcapReader) (value : UInt16) : UInt16 :=
  if !r.needsByteSwap then value
  else ((value &&& 0xFF00) >>> 8) ||| ((value &&& 0x00FF) <<< 8)

def maybeSwap32 (r : PcapReader) (value : UInt32) : UInt32 :=
  if !r.needsByteSwap then value
  else ((value &&& 0xFF000000) >>> 24) ||| ((value &&& 0x00FF0000) >>> 8) |||
    ((value &&& 0x0000FF00) <<< 8) ||| ((value &&& 0x000000FF) <<< 24)

/-- The header fields that a file in the other byte order has swapped. -/
def swapGlobalHeader (r : PcapReader) (h : PcapGlobalHeader) : PcapGlobalHeader :=
  { h with
    versionMajor := r.maybeSwap16 h.versionMajor
    versionMinor := r.maybeSwap16 h.versionMinor
    snaplen := r.maybeSwap32 h.snaplen
    network := r.maybeSwap32 h.network }

def openFile (r : PcapReader) (disk : Option (List UInt8)) : Bool × PcapReader :=
  let r := r.close
  match disk with
  | none => (false, r)
  | some bytes =>
    match InStream.read { rest := bytes } 24 with
    | (none, _) => (false, r)
    | (some b, file) =>
      let header := PcapGlobalHeader.ofMemory b
      let r : PcapReader := { r with file := some file, globalHeader := header }
      if header.magicNumber = pcapMagicNative then (true, { r with needsByteSwap := false })
      else if header.magicNumber = pcapMagicSwapped then
        let r : PcapReader := { r with needsByteSwap := true }
        (true, { r with globalHeader := r.swapGlobalHeader header })
      else (false, r.close)

def swapPacketHeader (r : PcapReader) (h : PcapPacketHeader) : PcapPacketHeader where
  tsSec := r.maybeSwap32 h.tsSec
  tsUsec := r.maybeSwap32 h.tsUsec
  inclLen := r.maybeSwap32 h.inclLen
  origLen := r.maybeSwap32 h.origLen

def readNextPacket (r : PcapReader) : Option PcapPacket × PcapReader :=
  match r.file with
  | none => (none, r)
  | some file =>
    match file.read 16 with
    | (none, file) => (none, { r with file := some file })
    | (some b, file) =>
      let header := PcapPacketHeader.ofMemory b
      let header := if r.needsByteSwap then r.swapPacketHeader header else header
      -- a length out of range is left behind its header, with the stream still good
      if header.inclLen > r.globalHeader.snaplen ∨ header.inclLen > 65535 then
        (none, { r with file := some file })
      else
        match file.read header.inclLen.toNat with
        | (none, file) => (none, { r with file := some file })
        | (some data, file) => (some ⟨header, data⟩, { r with file := some file })

/-- Successive calls of `readNextPacket` return the packets, and then false. -/
def ReadsToEnd : PcapReader → List PcapPacket → Prop
  | r, [] => r.readNextPacket.1 = none
  | r, p :: ps => r.readNextPacket.1 = some p ∧ ReadsToEnd r.readNextPacket.2 ps

instance ReadsToEnd.decidable : (r : PcapReader) → (ps : List PcapPacket) →
    Decidable (ReadsToEnd r ps)
  | _, [] => inferInstanceAs (Decidable (_ = _))
  | _, _ :: ps => @instDecidableAnd _ _ _ (ReadsToEnd.decidable _ ps)

end PcapReader

end DpiEngine
