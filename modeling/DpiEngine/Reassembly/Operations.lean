import DpiEngine.Library.Logged
import DpiEngine.Reassembly.Model

/-! # The operations of a call

What a call of `tryExtractSNI` computes with numbers from the network: it negates
distances, cuts the start of a segment off, starts a copy inside a stored segment,
searches the stored segments and takes stored bytes from the counter. The logged
functions follow the source and their values are those of the model.
-/

namespace DpiEngine

open Machine Logged

inductive Operation
  /-- `-diff` on signed 32-bit numbers. -/
  | negate (diff : Int32)
  /-- The new segment loses its first bytes. -/
  | trim (bytes length : ℕ)
  /-- `it->data.begin() + overlap_bytes`. -/
  | mergeFrom (bytes size : ℕ)
  /-- `std::lower_bound` over the stored segments. -/
  | search (stored : List Segment) (newSeg : Segment)
  /-- A stored segment is taken from `current_memory_usage_`. -/
  | uncount (usage bytes : ℕ)

namespace TCPReassembler

/-- `overlap_bytes` of a negative distance. -/
def overlap (diff : Int32) : Logged Operation ℕ :=
  perform (.negate diff) (sizeOfInt32 (-diff))

def uncount (r : TCPReassembler) (bytes : ℕ) : Logged Operation TCPReassembler :=
  perform (.uncount r.currentMemoryUsage bytes)
    { r with currentMemoryUsage := sizeSub r.currentMemoryUsage bytes }

def mergeLoopLogged (r : TCPReassembler) : List Segment → Logged Operation TCPReassembler
  | [] => pure { r with outOfOrder := [] }
  | s :: rest =>
    let diff := seqDiff s.seq r.expectedSeq
    if diff.toInt ≤ 0 then do
      let overlapBytes ← overlap diff
      if overlapBytes < s.data.length then
        let newBytes := s.data.length - overlapBytes
        if r.buffer.length + newBytes > r.config.maxBufferBytes then pure r.fail
        else do
          let data ← perform (.mergeFrom overlapBytes s.data.length) (s.data.drop overlapBytes)
          let r ← uncount { r with
            buffer := r.buffer ++ data
            expectedSeq := r.expectedSeq + .ofNat newBytes } s.data.length
          mergeLoopLogged r rest
      else do
        let r ← uncount r s.data.length
        mergeLoopLogged r rest
    else pure { r with outOfOrder := s :: rest }

def appendContiguousLogged (r : TCPReassembler) (payload : List UInt8) :
    Logged Operation TCPReassembler :=
  mergeLoopLogged { r with
    buffer := r.buffer ++ payload
    currentMemoryUsage := sizeAdd r.currentMemoryUsage payload.length
    expectedSeq := r.expectedSeq + .ofNat payload.length } r.outOfOrder

def insertOutOfOrderLogged (r : TCPReassembler) (seq : UInt32) (payload : List UInt8) :
    Logged Operation (TCPReassembler × Bool) := do
  let newSeg : Segment := ⟨seq, payload⟩
  let it ← perform (.search r.outOfOrder newSeg) (Search.lowerBound Segment.lt r.outOfOrder newSeg)
  match r.outOfOrder[it]? with
  | some old =>
    if old.seq = seq then
      if payload.length ≤ old.data.length then pure (r, false)
      else do
        let r ← uncount r old.data.length
        pure ({ r with
          outOfOrder := r.outOfOrder.set it newSeg
          currentMemoryUsage := sizeAdd r.currentMemoryUsage payload.length }, true)
    else pure ({ r with
      outOfOrder := r.outOfOrder.insertIdx it newSeg
      currentMemoryUsage := sizeAdd r.currentMemoryUsage payload.length }, true)
  | none => pure ({ r with
      outOfOrder := r.outOfOrder.insertIdx it newSeg
      currentMemoryUsage := sizeAdd r.currentMemoryUsage payload.length }, true)

def placeSegmentLogged (r : TCPReassembler) (seq : UInt32) (payload : List UInt8) (diff : Int32) :
    Logged Operation (TCPReassembler × Bool) :=
  if sizeAdd r.currentMemoryUsage payload.length > r.config.maxBufferBytes then pure (r.fail, false)
  else if diff.toInt = 0 then do
    let r ← r.appendContiguousLogged payload
    pure (r, true)
  else r.insertOutOfOrderLogged seq payload

def bufferSegmentLogged (r : TCPReassembler) (seq : UInt32) (payload : List UInt8) :
    Logged Operation (TCPReassembler × Bool) :=
  if r.failed || payload.isEmpty then pure (r, false)
  else
    let r := r.initExpectedSeq seq
    let diff := seqDiff seq r.expectedSeq
    if diff.toInt < 0 then do
      let overlapBytes ← overlap diff
      if overlapBytes ≥ payload.length then pure (r, false)
      else do
        let payload ← perform (.trim overlapBytes payload.length) (payload.drop overlapBytes)
        r.placeSegmentLogged (seq + .ofNat overlapBytes) payload 0
    else r.placeSegmentLogged seq payload diff

/-! ## The values are those of the model -/

variable (r : TCPReassembler)

@[simp] theorem value_overlap (diff : Int32) : (overlap diff).value = sizeOfInt32 (-diff) := rfl

@[simp] theorem value_uncount (bytes : ℕ) : (r.uncount bytes).value =
    { r with currentMemoryUsage := sizeSub r.currentMemoryUsage bytes } := rfl

@[simp] theorem value_mergeLoopLogged (l : List Segment) :
    (r.mergeLoopLogged l).value = r.mergeLoop l := by
  induction l generalizing r with
  | nil => rfl
  | cons s l ih =>
    simp only [mergeLoopLogged, mergeLoop, value_ite, value_bind, ih]
    rfl

@[simp] theorem value_insertOutOfOrderLogged (seq : UInt32) (payload : List UInt8) :
    (r.insertOutOfOrderLogged seq payload).value = r.insertOutOfOrder seq payload := by
  simp only [insertOutOfOrderLogged, insertOutOfOrder, value_bind, value_perform]
  cases r.outOfOrder[Search.lowerBound Segment.lt r.outOfOrder ⟨seq, payload⟩]? with
  | none => rfl
  | some old => simp only [value_ite, value_bind, value_uncount, value_pure]

@[simp] theorem value_placeSegmentLogged (seq : UInt32) (payload : List UInt8) (diff : Int32) :
    (r.placeSegmentLogged seq payload diff).value = r.placeSegment seq payload diff := by
  simp only [placeSegmentLogged, placeSegment, appendContiguousLogged, appendContiguous,
    mergeOutOfOrder, value_ite, value_bind, value_pure, value_mergeLoopLogged,
    value_insertOutOfOrderLogged]

@[simp] theorem value_bufferSegmentLogged (seq : UInt32) (payload : List UInt8) :
    (r.bufferSegmentLogged seq payload).value = r.bufferSegment seq payload := by
  simp only [bufferSegmentLogged, bufferSegment, value_ite, value_bind, value_placeSegmentLogged]
  rfl

/-! ## Where the operations of a call come from -/

variable {r} {P : Operation → Prop} {seq : UInt32} {payload : List UInt8}

theorem bufferSegmentLogged_of_skip (h : r.failed = true ∨ payload = []) :
    Always P (r.bufferSegmentLogged seq payload) := by
  have hskip : (r.failed || payload.isEmpty) = true := by
    rcases h with h | rfl
    · simp [h]
    · simp
  rw [bufferSegmentLogged, if_pos hskip]
  exact always_pure _

theorem bufferSegmentLogged_always (hinit : r.initExpectedSeq seq = r)
    (hnegate : (seqDiff seq r.expectedSeq).toInt < 0 → P (.negate (seqDiff seq r.expectedSeq)))
    (htrim : (seqDiff seq r.expectedSeq).toInt < 0 →
      sizeOfInt32 (-seqDiff seq r.expectedSeq) < payload.length →
      P (.trim (sizeOfInt32 (-seqDiff seq r.expectedSeq)) payload.length))
    (happend : ∀ data : List UInt8, data.length ≤ payload.length →
      sizeAdd r.currentMemoryUsage data.length ≤ r.config.maxBufferBytes →
      Always P (r.appendContiguousLogged data))
    (hinsert : 0 < (seqDiff seq r.expectedSeq).toInt →
      sizeAdd r.currentMemoryUsage payload.length ≤ r.config.maxBufferBytes →
      Always P (r.insertOutOfOrderLogged seq payload)) :
    Always P (r.bufferSegmentLogged seq payload) := by
  have hplace (s : UInt32) (data : List UInt8) (diff : Int32) (hdata : data.length ≤ payload.length)
      (hinsert : diff.toInt ≠ 0 → sizeAdd r.currentMemoryUsage data.length ≤
        r.config.maxBufferBytes → Always P (r.insertOutOfOrderLogged s data)) :
      Always P (r.placeSegmentLogged s data diff) := by
    refine always_ite (fun _ => always_pure _) fun hroom => ?_
    refine always_ite (fun _ => ?_) fun hdiff => hinsert hdiff (not_lt.mp hroom)
    exact (happend data hdata (not_lt.mp hroom)).andThen (always_pure _)
  unfold bufferSegmentLogged
  refine always_ite (fun _ => always_pure _) fun _ => ?_
  rw [hinit]
  refine always_ite (fun hbehind => ?_) fun hahead => ?_
  · refine always_perform_bind.mpr ⟨hnegate hbehind, ?_⟩
    refine always_ite (fun _ => always_pure _) fun hnew => ?_
    refine always_perform_bind.mpr ⟨htrim hbehind (Nat.lt_of_not_le hnew), ?_⟩
    refine hplace _ _ _ ?_ fun hzero => absurd (by decide) hzero
    exact (List.drop_sublist _ _).length_le
  · exact hplace seq payload _ le_rfl fun hdiff => hinsert (by omega)

theorem bufferSegmentLogged_of_live (h : r.failed = false → payload ≠ [] →
    Always P ((r.initExpectedSeq seq).bufferSegmentLogged seq payload)) :
    Always P (r.bufferSegmentLogged seq payload) := by
  by_cases hskip : r.failed = true ∨ payload = []
  · exact bufferSegmentLogged_of_skip hskip
  · obtain ⟨hf, hp⟩ := not_or.mp hskip
    have hf : r.failed = false := by simpa using hf
    have hinit : r.bufferSegmentLogged seq payload =
        (r.initExpectedSeq seq).bufferSegmentLogged seq payload := by
      cases hi : r.expectedSeqInitialized <;>
        simp [bufferSegmentLogged, initExpectedSeq, hi, hf, hp]
    rw [hinit]
    exact h hf hp

variable (r) in
def merged (s : Segment) (buffer : List UInt8) : TCPReassembler :=
  { r with
    buffer := buffer
    expectedSeq := r.expectedSeq +
      .ofNat (s.data.length - sizeOfInt32 (-seqDiff s.seq r.expectedSeq))
    currentMemoryUsage := sizeSub r.currentMemoryUsage s.data.length }

theorem merged_of_old {s : Segment}
    (h : s.data.length ≤ sizeOfInt32 (-seqDiff s.seq r.expectedSeq)) :
    r.merged s r.buffer =
      { r with currentMemoryUsage := sizeSub r.currentMemoryUsage s.data.length } := by
  rw [merged, Nat.sub_eq_zero_of_le h]
  simp

theorem mergeLoopLogged_cons {s : Segment} {l : List Segment}
    (hnegate : (seqDiff s.seq r.expectedSeq).toInt ≤ 0 → P (.negate (seqDiff s.seq r.expectedSeq)))
    (hmerge : sizeOfInt32 (-seqDiff s.seq r.expectedSeq) < s.data.length →
      P (.mergeFrom (sizeOfInt32 (-seqDiff s.seq r.expectedSeq)) s.data.length))
    (huncount : P (.uncount r.currentMemoryUsage s.data.length))
    (hrest : (seqDiff s.seq r.expectedSeq).toInt ≤ 0 →
      ∀ buffer, Always P ((r.merged s buffer).mergeLoopLogged l)) :
    Always P (r.mergeLoopLogged (s :: l)) := by
  refine always_ite (fun hreach => ?_) fun _ => always_pure _
  refine always_perform_bind.mpr ⟨hnegate hreach, ?_⟩
  refine always_ite (fun hnew => ?_) fun hold => ?_
  · refine always_ite (fun _ => always_pure _) fun _ => ?_
    refine always_perform_bind.mpr ⟨hmerge hnew, always_perform_bind.mpr ⟨huncount, ?_⟩⟩
    exact hrest hreach _
  · refine always_perform_bind.mpr ⟨huncount, ?_⟩
    rw [← merged_of_old (not_lt.mp hold)]
    exact hrest hreach r.buffer

/-- A round of the merge fails, goes on or stops at a segment that is not reached. -/
theorem mergeLoop_cons {s : Segment} {l : List Segment} :
    r.mergeLoop (s :: l) = r.fail ∨
    ((seqDiff s.seq r.expectedSeq).toInt ≤ 0 ∧
      ∃ buffer, r.mergeLoop (s :: l) = (r.merged s buffer).mergeLoop l) ∨
    (0 < (seqDiff s.seq r.expectedSeq).toInt ∧
      r.mergeLoop (s :: l) = { r with outOfOrder := s :: l }) := by
  rw [mergeLoop]
  dsimp only
  split_ifs with hreach hnew hfull
  · exact .inl rfl
  · exact .inr (.inl ⟨hreach, _, rfl⟩)
  · refine .inr (.inl ⟨hreach, r.buffer, ?_⟩)
    rw [merged_of_old (not_lt.mp hnew)]
  · exact .inr (.inr ⟨not_le.mp hreach, rfl⟩)

theorem insertOutOfOrderLogged_always (hsearch : P (.search r.outOfOrder ⟨seq, payload⟩))
    (huncount : ∀ old ∈ r.outOfOrder, P (.uncount r.currentMemoryUsage old.data.length)) :
    Always P (r.insertOutOfOrderLogged seq payload) := by
  refine always_perform_bind.mpr ⟨hsearch, ?_⟩
  split
  case h_1 old hold =>
    refine always_ite (fun _ => ?_) fun _ => always_pure _
    refine always_ite (fun _ => always_pure _) fun _ => ?_
    exact always_perform_bind.mpr ⟨huncount old (List.mem_of_getElem? hold), always_pure _⟩
  case h_2 => exact always_pure _

variable (r) in
def operations (seq : UInt32) (payload : List UInt8) : List Operation :=
  (r.bufferSegmentLogged seq payload).log

end TCPReassembler

end DpiEngine
