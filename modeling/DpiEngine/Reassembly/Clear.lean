import DpiEngine.Reassembly.Stream

/-! # What `clear` does not reset

`clear` drops the bytes of a reassembler and its failure, but keeps the expected
sequence number. The first segment after it is compared with the number the
cleared stream ended at, so the reassembler behaves like a new one only if the
segment continues there.
-/

namespace DpiEngine

open Machine

/-- The number of bytes of the segment from the sequence number `e` on. -/
def Segment.newLength (s : Segment) (e : UInt32) : ℕ :=
  if (seqDiff s.seq e).toInt < 0 then s.data.length - sizeOfInt32 (-seqDiff s.seq e)
  else s.data.length

theorem Segment.newLength_self (s : Segment) : s.newLength s.seq = s.data.length := by
  have hd : (seqDiff s.seq s.seq).toInt = 0 := by simp [seqDiff, serialDiff]
  rw [newLength, if_neg (by omega)]

theorem Segment.newLength_le (s : Segment) (e : UInt32) : s.newLength e ≤ s.data.length := by
  unfold newLength
  split_ifs
  · exact Nat.sub_le _ _
  · exact le_rfl

theorem Segment.newLength_lt {s : Segment} {e : UInt32} (hs : s.data ≠ [])
    (hd : (seqDiff s.seq e).toInt < 0) : s.newLength e < s.data.length := by
  have hpos : 0 < s.data.length := List.length_pos_iff.mpr hs
  have hover : 0 < sizeOfInt32 (-seqDiff s.seq e) := by
    by_contra hzero
    have hz : sizeOfInt32 (-seqDiff s.seq e) = 0 := by omega
    have he := add_sizeOfInt32_neg_serialDiff (s := s.seq) (t := e) hd.le
      (show sizeOfInt32 (-seqDiff s.seq e) < 2 ^ 31 by omega)
    rw [show sizeOfInt32 (-serialDiff s.seq e) = 0 from hz] at he
    have hsame : s.seq = e := (UInt32.add_zero s.seq).symm.trans he
    rw [hsame] at hd
    simp [seqDiff, serialDiff] at hd
  rw [newLength, if_pos hd]
  omega

namespace TCPReassembler

variable {config : ReassemblerConfig} {e : UInt32}

/-- What the caller can see of each call of a run: its result, the buffer and `isFailed`. -/
def observe (r : TCPReassembler) : List Segment → List (Option (Option Name) × List UInt8 × Bool)
  | [] => []
  | s :: segments =>
    let (r', result) := r.tryExtractSNI s.seq s.data
    (result.value, r'.buffer, r'.failed) :: observe r' segments

theorem observe_cons (r : TCPReassembler) (s : Segment) (segments : List Segment) :
    r.observe (s :: segments) =
      ((r.tryExtractSNI s.seq s.data).2.value, (r.bufferSegment s.seq s.data).1.buffer,
        (r.bufferSegment s.seq s.data).1.failed) ::
      (r.bufferSegment s.seq s.data).1.observe segments := by
  rw [observe, ← tryExtractSNI_fst]

/-- The segment is over the limit, and so are its bytes from `e` on. -/
def Oversized (config : ReassemblerConfig) (e : UInt32) (s : Segment) : Prop :=
  config.maxBufferBytes < sizeAdd 0 s.data.length ∧
    config.maxBufferBytes < sizeAdd 0 (s.newLength e)

/-- The first segment with bytes starts at `e`, or is too large wherever it starts. -/
def StartsAt (config : ReassemblerConfig) (e : UInt32) (segments : List Segment) : Prop :=
  ∀ s, segments.find? (fun t => !t.data.isEmpty) = some s → s.seq = e ∨ Oversized config e s

theorem clear_of_initialized {r : TCPReassembler} (hi : r.expectedSeqInitialized = true) :
    r.clear = (fresh r.config).initExpectedSeq r.expectedSeq := by
  simp [clear, fresh, initExpectedSeq, hi]

theorem observe_of_failed {r r' : TCPReassembler} (hf : r.failed = true) (hf' : r'.failed = true)
    (hb : r.buffer = r'.buffer) (segments : List Segment) :
    r.observe segments = r'.observe segments := by
  induction segments with
  | nil => rfl
  | cons s segments ih =>
    have hskip {r : TCPReassembler} (hf : r.failed = true) :
        r.bufferSegment s.seq s.data = (r, false) := by simp [bufferSegment, hf]
    simp only [observe_cons, tryExtractSNI, hskip hf, hskip hf', hf, hf', hb, Bool.false_and,
      Bool.false_eq_true, if_false, ih]

theorem tryExtractSNI_of_buffer_nil {r : TCPReassembler} {seq : UInt32} {payload : List UInt8}
    (h : (r.bufferSegment seq payload).1.buffer = []) :
    (r.tryExtractSNI seq payload).2.value = some none := by
  simp [tryExtractSNI, h]

theorem bufferSegment_empty (r : TCPReassembler) (seq : UInt32) :
    r.bufferSegment seq [] = (r, false) := by
  simp [bufferSegment]

theorem placeSegment_started (seq : UInt32) (payload : List UInt8) (diff : Int32) :
    ((((fresh config).initExpectedSeq e).placeSegment seq payload diff).1.buffer,
      (((fresh config).initExpectedSeq e).placeSegment seq payload diff).1.failed) =
    if config.maxBufferBytes < sizeAdd 0 payload.length then ([], true)
    else if diff.toInt = 0 then (payload, false) else ([], false) := by
  have hmem : ((fresh config).initExpectedSeq e).currentMemoryUsage = 0 := rfl
  have hmax : ((fresh config).initExpectedSeq e).config = config := rfl
  rw [placeSegment, hmem, hmax]
  split_ifs
  · rfl
  · rfl
  · obtain ⟨l, usage, h⟩ := ((fresh config).initExpectedSeq e).insertOutOfOrder_frame seq payload
    rw [h]
    rfl

theorem bufferSegment_started (config : ReassemblerConfig) (e : UInt32) {s : Segment}
    (hs : s.data ≠ []) :
    ((((fresh config).initExpectedSeq e).bufferSegment s.seq s.data).1.buffer,
      (((fresh config).initExpectedSeq e).bufferSegment s.seq s.data).1.failed) =
    if config.maxBufferBytes < sizeAdd 0 (s.newLength e) then ([], true)
    else if 0 < (seqDiff s.seq e).toInt then ([], false)
    else (s.data.drop (s.data.length - s.newLength e), false) := by
  have hne : s.data.isEmpty = false := List.isEmpty_eq_false_iff.mpr hs
  have hinit : ((fresh config).initExpectedSeq e).initExpectedSeq s.seq =
      (fresh config).initExpectedSeq e := rfl
  have hexp : ((fresh config).initExpectedSeq e).expectedSeq = e := rfl
  have hfailed : ((fresh config).initExpectedSeq e).failed = false := rfl
  simp only [bufferSegment, hinit, hexp, hfailed, hne, Bool.or_self, Bool.false_eq_true, if_false]
  rcases lt_or_ge (seqDiff s.seq e).toInt 0 with hneg | hpos
  · rw [if_pos hneg, Segment.newLength, if_pos hneg]
    by_cases hold : sizeOfInt32 (-seqDiff s.seq e) ≥ s.data.length
    · -- the segment ends at `e` or before it
      have hzero : s.data.length - sizeOfInt32 (-seqDiff s.seq e) = 0 := by omega
      rw [if_pos hold, hzero, if_neg (by simp [sizeAdd]), if_neg (by omega), Nat.sub_zero,
        List.drop_length]
      rfl
    · have hdrop : s.data.length - (s.data.length - sizeOfInt32 (-seqDiff s.seq e)) =
          sizeOfInt32 (-seqDiff s.seq e) := by omega
      have hdiff : Int32.toInt 0 = 0 := by decide
      rw [if_neg hold, placeSegment_started, hdrop, List.length_drop, if_pos hdiff,
        if_neg (show ¬ 0 < (seqDiff s.seq e).toInt by omega)]
  · have hnew : s.newLength e = s.data.length := if_neg (not_lt.mpr hpos)
    rw [if_neg (not_lt.mpr hpos), placeSegment_started, hnew, Nat.sub_self, List.drop_zero]
    by_cases hzero : (seqDiff s.seq e).toInt = 0
    · rw [if_pos hzero, if_neg (show ¬ 0 < (seqDiff s.seq e).toInt by omega)]
    · rw [if_neg hzero, if_pos (show 0 < (seqDiff s.seq e).toInt by omega)]

theorem bufferSegment_started_ne {s : Segment} (hs : s.data ≠ []) (hseq : s.seq ≠ e)
    (hsize : ¬ Oversized config e s) :
    ((((fresh config).initExpectedSeq e).bufferSegment s.seq s.data).1.buffer,
      (((fresh config).initExpectedSeq e).bufferSegment s.seq s.data).1.failed) ≠
    ((((fresh config).initExpectedSeq s.seq).bufferSegment s.seq s.data).1.buffer,
      (((fresh config).initExpectedSeq s.seq).bufferSegment s.seq s.data).1.failed) := by
  have hself : ¬ 0 < (seqDiff s.seq s.seq).toInt := by simp [seqDiff, serialDiff]
  have hpos : 0 < s.data.length := List.length_pos_iff.mpr hs
  rw [bufferSegment_started config e hs, bufferSegment_started config s.seq hs,
    Segment.newLength_self, Nat.sub_self, List.drop_zero, if_neg hself]
  by_cases hnew : config.maxBufferBytes < sizeAdd 0 (s.newLength e)
  · have hall : ¬ config.maxBufferBytes < sizeAdd 0 s.data.length := fun h => hsize ⟨h, hnew⟩
    simp [if_pos hnew, if_neg hall]
  · rw [if_neg hnew]
    by_cases hall : config.maxBufferBytes < sizeAdd 0 s.data.length
    · rw [if_pos hall]
      split_ifs <;> simp
    · rw [if_neg hall]
      intro heq
      have hlen := congrArg (fun p => p.1.length) heq
      have hzero : (seqDiff s.seq e).toInt ≠ 0 := fun h => hseq (eq_of_serialDiff_eq_zero h)
      split_ifs at hlen with hd
      · exact hpos.ne hlen
      · have hlt := Segment.newLength_lt hs (show (seqDiff s.seq e).toInt < 0 by omega)
        have hle := s.newLength_le e
        simp only [List.length_drop] at hlen
        omega

/-- A reassembler that expects `e` shows the runs of a new one exactly on streams from `e`. -/
theorem observe_started_iff (segments : List Segment) :
    ((fresh config).initExpectedSeq e).observe segments = (fresh config).observe segments ↔
      StartsAt config e segments := by
  induction segments with
  | nil => simp [observe, StartsAt]
  | cons s segments ih =>
    by_cases hs : s.data = []
    · -- both ignore a segment without bytes
      have hfind : (s :: segments).find? (fun t => !t.data.isEmpty) =
          segments.find? (fun t => !t.data.isEmpty) := by simp [hs]
      rw [StartsAt, hfind, ← StartsAt, ← ih, observe_cons, observe_cons, hs]
      simp only [tryExtractSNI, bufferSegment_empty, Bool.false_and, Bool.false_eq_true, if_false]
      have hbuffer : ((fresh config).initExpectedSeq e).buffer = (fresh config).buffer := rfl
      have hfailed : ((fresh config).initExpectedSeq e).failed = (fresh config).failed := rfl
      rw [hbuffer, hfailed, List.cons.injEq, and_iff_right rfl]
    · have hfirst : (fresh config).bufferSegment s.seq s.data =
          ((fresh config).initExpectedSeq s.seq).bufferSegment s.seq s.data :=
        bufferSegment_initExpectedSeq rfl hs s.seq
      have hstart : StartsAt config e (s :: segments) ↔ s.seq = e ∨ Oversized config e s := by
        simp [StartsAt, hs]
      rw [hstart]
      constructor
      · intro h
        by_contra hn
        obtain ⟨hseq, hsize⟩ := not_or.mp hn
        refine bufferSegment_started_ne hs hseq hsize ?_
        rw [observe_cons, observe_cons, List.cons.injEq, hfirst] at h
        exact congrArg Prod.snd h.1
      · rintro (hseq | hsize)
        · rw [observe_cons, observe_cons, tryExtractSNI, tryExtractSNI, hfirst, hseq]
        · have hc := bufferSegment_started config e hs
          have hf := bufferSegment_started config s.seq hs
          rw [Segment.newLength_self, if_pos hsize.1, Prod.mk.injEq] at hf
          rw [if_pos hsize.2, Prod.mk.injEq] at hc
          rw [observe_cons, observe_cons, tryExtractSNI_of_buffer_nil hc.1, hfirst,
            tryExtractSNI_of_buffer_nil (hfirst ▸ hf.1), hc.1, hc.2, hf.1, hf.2,
            observe_of_failed hc.2 hf.2 (hc.1.trans hf.1.symm)]

theorem feed_config (r : TCPReassembler) (history : List Segment) :
    (r.feed history).config = r.config := by
  induction history generalizing r with
  | nil => rfl
  | cons s history ih => rw [feed_cons, ih, (bufferSegment_frame r s.seq s.data).1]

theorem feed_of_initialized {r : TCPReassembler} (hi : r.expectedSeqInitialized = true)
    (history : List Segment) : (r.feed history).expectedSeqInitialized = true := by
  induction history generalizing r with
  | nil => exact hi
  | cons s history ih =>
    rw [feed_cons]
    exact ih ((bufferSegment_frame r s.seq s.data).2.mpr (.inl hi))

theorem feed_initialized {r : TCPReassembler} (hf : r.failed = false) {history : List Segment}
    (h : ∃ s ∈ history, s.data ≠ []) : (r.feed history).expectedSeqInitialized = true := by
  induction history with
  | nil => simp at h
  | cons s history ih =>
    rw [feed_cons]
    by_cases hs : s.data = []
    · rw [hs, bufferSegment_empty]
      exact ih (by simpa [hs] using h)
    · exact feed_of_initialized ((bufferSegment_frame r s.seq s.data).2.mpr (.inr ⟨hf, hs⟩)) history

theorem feed_empty (r : TCPReassembler) {history : List Segment} (h : ∀ s ∈ history, s.data = []) :
    r.feed history = r := by
  induction history with
  | nil => rfl
  | cons s history ih =>
    obtain ⟨hs, h⟩ := List.forall_mem_cons.mp h
    rw [feed_cons, hs, bufferSegment_empty]
    exact ih h

/--
The runs after `clear` are those of a new reassembler exactly if nothing with bytes came before
it, or what comes after it starts where the history ended.
-/
theorem observe_clear_iff (config : ReassemblerConfig) (history segments : List Segment) :
    ((fresh config).feed history).clear.observe segments = (fresh config).observe segments ↔
      (∀ s ∈ history, s.data = []) ∨
        StartsAt config ((fresh config).feed history).expectedSeq segments := by
  by_cases hempty : ∀ s ∈ history, s.data = []
  · rw [feed_empty _ hempty]
    exact ⟨fun _ => .inl hempty, fun _ => rfl⟩
  · have hi : ((fresh config).feed history).expectedSeqInitialized = true :=
      feed_initialized rfl (by simpa using hempty)
    rw [clear_of_initialized hi, feed_config, or_iff_right hempty]
    exact observe_started_iff segments

/-- A stream from 10 after one that ended at 101: its byte counts as received before. -/
theorem observe_clear_ne : ((fresh {}).feed [⟨100, [1]⟩]).clear.observe [⟨10, [2]⟩] ≠
    (fresh {}).observe [⟨10, [2]⟩] := by
  decide

end TCPReassembler

end DpiEngine
