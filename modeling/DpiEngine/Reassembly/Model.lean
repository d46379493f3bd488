import DpiEngine.Library.Machine
import DpiEngine.Library.Search
import DpiEngine.Library.Traced

/-! # The TCP reassembler

In-order bytes are appended to a contiguous buffer, segments beyond a gap are
kept sorted by sequence number until the gap closes. The server name of a
complete TLS ClientHello is read from the contiguous buffer.
-/

namespace DpiEngine

open Machine

structure ReassemblerConfig where
  maxBufferBytes : ℕ := 16 * 1024
  deriving DecidableEq, Repr

structure Segment where
  seq : UInt32
  data : List UInt8
  deriving DecidableEq, Repr

structure TCPReassembler where
  config : ReassemblerConfig := {}
  buffer : List UInt8 := []
  expectedSeq : UInt32 := 0
  expectedSeqInitialized : Bool := false
  outOfOrder : List Segment := []
  currentMemoryUsage : ℕ := 0
  failed : Bool := false
  deriving DecidableEq, Repr

/-- Positive if `s₁` is after `s₂`, negative if it is before, with wraparound. -/
def seqDiff (s₁ s₂ : UInt32) : Int32 := serialDiff s₁ s₂

def Segment.lt (s t : Segment) : Bool := (seqDiff s.seq t.seq).toInt < 0

namespace TCPReassembler

def fresh (config : ReassemblerConfig) : TCPReassembler := { config := config }

def clear (r : TCPReassembler) : TCPReassembler :=
  { r with buffer := [], outOfOrder := [], currentMemoryUsage := 0, failed := false }

def fail (r : TCPReassembler) : TCPReassembler := { r.clear with failed := true }

/-- The loop of `mergeOutOfOrder` over the stored segments. -/
def mergeLoop (r : TCPReassembler) : List Segment → TCPReassembler
  | [] => { r with outOfOrder := [] }
  | s :: rest =>
    let diff := seqDiff s.seq r.expectedSeq
    if diff.toInt ≤ 0 then
      let overlapBytes := sizeOfInt32 (-diff)
      if overlapBytes < s.data.length then
        let newBytes := s.data.length - overlapBytes
        if r.buffer.length + newBytes > r.config.maxBufferBytes then r.fail
        else mergeLoop { r with
          buffer := r.buffer ++ s.data.drop overlapBytes
          expectedSeq := r.expectedSeq + .ofNat newBytes
          currentMemoryUsage := sizeSub r.currentMemoryUsage s.data.length } rest
      else mergeLoop { r with
        currentMemoryUsage := sizeSub r.currentMemoryUsage s.data.length } rest
    else { r with outOfOrder := s :: rest }

def mergeOutOfOrder (r : TCPReassembler) : TCPReassembler := r.mergeLoop r.outOfOrder

def appendContiguous (r : TCPReassembler) (payload : List UInt8) : TCPReassembler :=
  mergeOutOfOrder { r with
    buffer := r.buffer ++ payload
    currentMemoryUsage := sizeAdd r.currentMemoryUsage payload.length
    expectedSeq := r.expectedSeq + .ofNat payload.length }

/-- Store a segment beyond a gap; the flag is false for a duplicate of a stored one. -/
def insertOutOfOrder (r : TCPReassembler) (seq : UInt32) (payload : List UInt8) :
    TCPReassembler × Bool :=
  let newSeg : Segment := ⟨seq, payload⟩
  let it := Search.lowerBound Segment.lt r.outOfOrder newSeg
  match r.outOfOrder[it]? with
  | some old =>
    if old.seq = seq then
      if payload.length ≤ old.data.length then (r, false)
      else ({ r with
        outOfOrder := r.outOfOrder.set it newSeg
        currentMemoryUsage := sizeAdd (sizeSub r.currentMemoryUsage old.data.length)
          payload.length }, true)
    else ({ r with
      outOfOrder := r.outOfOrder.insertIdx it newSeg
      currentMemoryUsage := sizeAdd r.currentMemoryUsage payload.length }, true)
  | none => ({ r with
      outOfOrder := r.outOfOrder.insertIdx it newSeg
      currentMemoryUsage := sizeAdd r.currentMemoryUsage payload.length }, true)

section InsertOutOfOrder

variable {r : TCPReassembler} {seq : UInt32} {payload : List UInt8} {it : ℕ} {old : Segment}

theorem insertOutOfOrder_duplicate
    (hit : Search.lowerBound Segment.lt r.outOfOrder ⟨seq, payload⟩ = it)
    (hold : r.outOfOrder[it]? = some old) (hseq : old.seq = seq)
    (hle : payload.length ≤ old.data.length) : r.insertOutOfOrder seq payload = (r, false) := by
  simp only [insertOutOfOrder, hit, hold, if_pos hseq, if_pos hle]

theorem insertOutOfOrder_replace
    (hit : Search.lowerBound Segment.lt r.outOfOrder ⟨seq, payload⟩ = it)
    (hold : r.outOfOrder[it]? = some old) (hseq : old.seq = seq)
    (hlt : old.data.length < payload.length) : r.insertOutOfOrder seq payload =
      ({ r with
        outOfOrder := r.outOfOrder.set it ⟨seq, payload⟩
        currentMemoryUsage := sizeAdd (sizeSub r.currentMemoryUsage old.data.length)
          payload.length }, true) := by
  simp only [insertOutOfOrder, hit, hold, if_pos hseq, if_neg (Nat.not_le.mpr hlt)]

theorem insertOutOfOrder_absent
    (hit : Search.lowerBound Segment.lt r.outOfOrder ⟨seq, payload⟩ = it)
    (hseq : ∀ old, r.outOfOrder[it]? = some old → old.seq ≠ seq) : r.insertOutOfOrder seq payload =
      ({ r with
        outOfOrder := r.outOfOrder.insertIdx it ⟨seq, payload⟩
        currentMemoryUsage := sizeAdd r.currentMemoryUsage payload.length }, true) := by
  cases hold : r.outOfOrder[it]? with
  | none => simp only [insertOutOfOrder, hit, hold]
  | some old => simp only [insertOutOfOrder, hit, hold, if_neg (hseq old hold)]

end InsertOutOfOrder

def placeSegment (r : TCPReassembler) (seq : UInt32) (payload : List UInt8) (diff : Int32) :
    TCPReassembler × Bool :=
  if sizeAdd r.currentMemoryUsage payload.length > r.config.maxBufferBytes then (r.fail, false)
  else if diff.toInt = 0 then (r.appendContiguous payload, true)
  else r.insertOutOfOrder seq payload

/-- The first payload of a direction fixes the expected sequence number. -/
def initExpectedSeq (r : TCPReassembler) (seq : UInt32) : TCPReassembler :=
  if r.expectedSeqInitialized then r
  else { r with expectedSeq := seq, expectedSeqInitialized := true }

/-- `tryExtractSNI` up to the extraction; the flag tells whether control reaches it. -/
def bufferSegment (r : TCPReassembler) (seq : UInt32) (payload : List UInt8) :
    TCPReassembler × Bool :=
  if r.failed || payload.isEmpty then (r, false)
  else
    let r := r.initExpectedSeq seq
    let diff := seqDiff seq r.expectedSeq
    if diff.toInt < 0 then
      let overlapBytes := sizeOfInt32 (-diff)
      if overlapBytes ≥ payload.length then (r, false)
      else r.placeSegment (seq + .ofNat overlapBytes) (payload.drop overlapBytes) 0
    else r.placeSegment seq payload diff

end TCPReassembler

namespace ClientHello

open Traced

def scanServerName (buf : List UInt8) (p extDataLen : ℕ) : Traced (Option (List UInt8)) :=
  if extDataLen ≥ 5 then do
    let listLen ← read16 buf p
    if listLen ≥ 3 then
      let nameType ← read buf (p + 2)
      if nameType = 0x00 then
        let nameLen ← read16 buf (p + 3)
        if 5 + nameLen ≤ extDataLen then
          let sni ← readBytes buf (p + 5) nameLen
          pure (some sni)
        else pure none
      else pure none
    else pure none
  else pure none

def scanExtension (buf : List UInt8) (extEnd p extType extDataLen : ℕ) :
    Traced (Option (List UInt8)) :=
  if extType = 0x0000 ∧ p + extDataLen ≤ extEnd then scanServerName buf p extDataLen else pure none

def scanExtensions (buf : List UInt8) (extEnd : ℕ) : ℕ → ℕ → Traced (Option (List UInt8))
  | 0, _ => pure none
  | fuel + 1, p =>
    if p + 4 ≤ extEnd then do
      let extType ← read16 buf p
      let extDataLen ← read16 buf (p + 2)
      let name ← scanExtension buf extEnd (p + 4) extType extDataLen
      match name with
      | some sni => pure (some sni)
      | none => scanExtensions buf extEnd fuel (p + 4 + extDataLen)
    else pure none

/-- The extension block: its length is cut at the end of the buffer. -/
def scanExtensionBlock (buf : List UInt8) (p remaining : ℕ) : Traced (Option (List UInt8)) :=
  if remaining > 2 then do
    let extLen ← read16 buf p
    let p := p + 2
    let remaining ← sub remaining 2
    let extEnd := p + min extLen remaining
    scanExtensions buf extEnd extEnd p
  else pure none

def scanCompressionMethods (buf : List UInt8) (p remaining : ℕ) :
    Traced (Option (List UInt8)) :=
  if remaining > 1 then do
    let cmLen ← read buf p
    let remaining ← sub remaining (1 + cmLen.toNat)
    scanExtensionBlock buf (p + (1 + cmLen.toNat)) remaining
  else pure none

def scanCipherSuites (buf : List UInt8) (p remaining : ℕ) : Traced (Option (List UInt8)) :=
  if remaining > 2 then do
    let csLen ← read16 buf p
    let remaining ← sub remaining (2 + csLen)
    scanCompressionMethods buf (p + (2 + csLen)) remaining
  else pure none

def scanSessionId (buf : List UInt8) (p remaining : ℕ) : Traced (Option (List UInt8)) :=
  if remaining > 0 then do
    let sidLen ← read buf p
    let remaining ← sub remaining (1 + sidLen.toNat)
    scanCipherSuites buf (p + (1 + sidLen.toNat)) remaining
  else pure none

def scanHandshake (buf : List UInt8) (p remaining : ℕ) : Traced (Option (List UInt8)) :=
  if remaining > 4 then do
    let handshakeType ← read buf p
    if handshakeType = 0x01 ∧ remaining > 4 + 2 + 32 then
      let remaining ← sub remaining 38
      scanSessionId buf (p + 38) remaining
    else pure none
  else pure none

/-- The scan of the contiguous buffer for a complete TLS record with a ClientHello. -/
def scan (buf : List UInt8) : Traced (Option (List UInt8)) :=
  if buf.length ≥ 5 then do
    let contentType ← read buf 0
    if contentType = 0x16 then
      let major ← read buf 1
      if major = 0x03 then
        let tlsLen ← read16 buf 3
        if buf.length ≥ 5 + tlsLen then
          let remaining ← sub buf.length 5
          scanHandshake buf 5 remaining
        else pure none
      else pure none
    else pure none
  else pure none

end ClientHello

namespace TCPReassembler

/--
The state after the call and the server name found. The result of the QUIC extractor is
not used by the source and left out.
-/
def tryExtractSNI (r : TCPReassembler) (seq : UInt32) (payload : List UInt8) :
    TCPReassembler × Traced (Option (List UInt8)) :=
  let (r, proceed) := r.bufferSegment seq payload
  if proceed && !r.buffer.isEmpty then (r, ClientHello.scan r.buffer) else (r, pure none)

@[simp] theorem tryExtractSNI_fst (r : TCPReassembler) (seq : UInt32) (payload : List UInt8) :
    (r.tryExtractSNI seq payload).1 = (r.bufferSegment seq payload).1 := by
  unfold tryExtractSNI; split; split <;> simp_all

def feed (r : TCPReassembler) : List Segment → TCPReassembler
  | [] => r
  | s :: segments => feed (r.tryExtractSNI s.seq s.data).1 segments

@[simp] theorem feed_cons (r : TCPReassembler) (s : Segment) (segments : List Segment) :
    r.feed (s :: segments) = (r.bufferSegment s.seq s.data).1.feed segments := by
  rw [feed, tryExtractSNI_fst]

end TCPReassembler

end DpiEngine
