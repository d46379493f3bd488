import DpiEngine.Reassembly.Stream

/-! # Sequence numbers are relative

The reassembler only compares sequence numbers by their distance on the circle.
Moving all of them by the same amount moves the numbers it stores, and changes
neither the bytes it holds nor what its calls return.
-/

namespace DpiEngine

open Machine

def Segment.shift (k : UInt32) (s : Segment) : Segment := { s with seq := s.seq + k }

@[simp] theorem Segment.shift_data (k : UInt32) (s : Segment) : (s.shift k).data = s.data := rfl

theorem seqDiff_shift (s t k : UInt32) : seqDiff (s + k) (t + k) = seqDiff s t :=
  serialDiff_add_right s t k

theorem Segment.lt_shift (k : UInt32) (s t : Segment) : (s.shift k).lt (t.shift k) = s.lt t := by
  simp only [Segment.lt, Segment.shift, seqDiff_shift]

namespace TCPReassembler

variable {k : UInt32}

/-- The reassembler with every sequence number it stores moved by `k`. -/
def shift (k : UInt32) (r : TCPReassembler) : TCPReassembler :=
  { r with expectedSeq := r.expectedSeq + k, outOfOrder := r.outOfOrder.map (Segment.shift k) }

@[simp] theorem shift_buffer (r : TCPReassembler) : (r.shift k).buffer = r.buffer := rfl

@[simp] theorem shift_config (r : TCPReassembler) : (r.shift k).config = r.config := rfl

@[simp] theorem shift_failed (r : TCPReassembler) : (r.shift k).failed = r.failed := rfl

@[simp] theorem shift_currentMemoryUsage (r : TCPReassembler) :
    (r.shift k).currentMemoryUsage = r.currentMemoryUsage := rfl

theorem shift_fail (r : TCPReassembler) : r.fail.shift k = (r.shift k).fail := rfl

theorem mergeLoop_shift (l : List Segment) (r : TCPReassembler) :
    (r.shift k).mergeLoop (l.map (Segment.shift k)) = (r.mergeLoop l).shift k := by
  induction l generalizing r with
  | nil => rfl
  | cons s l ih =>
    have hdiff : seqDiff (s.shift k).seq (r.shift k).expectedSeq =
        seqDiff s.seq r.expectedSeq := seqDiff_shift _ _ k
    have hseq (n : UInt32) : r.expectedSeq + k + n = r.expectedSeq + n + k := by
      rw [UInt32.add_assoc, UInt32.add_comm k, ← UInt32.add_assoc]
    simp only [List.map_cons, mergeLoop, hdiff, shift_buffer, shift_config,
      shift_currentMemoryUsage, Segment.shift_data]
    split_ifs
    · rfl
    · -- the segment has bytes beyond the expected sequence number
      rw [← ih]
      simp only [shift, hseq]
    · rw [← ih]
      rfl
    · rfl

theorem appendContiguous_shift (r : TCPReassembler) (payload : List UInt8) :
    (r.shift k).appendContiguous payload = (r.appendContiguous payload).shift k := by
  have hseq (n : UInt32) : r.expectedSeq + k + n = r.expectedSeq + n + k := by
    rw [UInt32.add_assoc, UInt32.add_comm k, ← UInt32.add_assoc]
  simp only [appendContiguous, mergeOutOfOrder, ← mergeLoop_shift]
  simp only [shift, hseq]

theorem insertOutOfOrder_shift (r : TCPReassembler) (seq : UInt32) (payload : List UInt8) :
    (r.shift k).insertOutOfOrder (seq + k) payload =
      ((r.insertOutOfOrder seq payload).1.shift k, (r.insertOutOfOrder seq payload).2) := by
  have hit : Search.lowerBound Segment.lt (r.shift k).outOfOrder ⟨seq + k, payload⟩ =
      Search.lowerBound Segment.lt r.outOfOrder ⟨seq, payload⟩ :=
    Search.lowerBound_map fun s => Segment.lt_shift k s ⟨seq, payload⟩
  have hget : (r.shift k).outOfOrder[Search.lowerBound Segment.lt r.outOfOrder ⟨seq, payload⟩]? =
      r.outOfOrder[Search.lowerBound Segment.lt r.outOfOrder ⟨seq, payload⟩]?.map
        (Segment.shift k) := List.getElem?_map
  generalize hl : Search.lowerBound Segment.lt r.outOfOrder ⟨seq, payload⟩ = it at hit hget
  by_cases hsame : ∃ old, r.outOfOrder[it]? = some old ∧ old.seq = seq
  · obtain ⟨old, hold, hseq⟩ := hsame
    have hold' : (r.shift k).outOfOrder[it]? = some (old.shift k) := by rw [hget, hold]; rfl
    have hseq' : (old.shift k).seq = seq + k := congrArg (· + k) hseq
    rcases Nat.lt_or_ge old.data.length payload.length with hlt | hle
    · rw [insertOutOfOrder_replace hit hold' hseq' hlt, insertOutOfOrder_replace hl hold hseq hlt]
      simp only [shift, Segment.shift, List.map_set]
    · rw [insertOutOfOrder_duplicate hit hold' hseq' hle,
        insertOutOfOrder_duplicate hl hold hseq hle]
  · have habsent : ∀ old, r.outOfOrder[it]? = some old → old.seq ≠ seq :=
      fun old hold hseq => hsame ⟨old, hold, hseq⟩
    have habsent' : ∀ old, (r.shift k).outOfOrder[it]? = some old → old.seq ≠ seq + k := by
      rw [hget]
      rintro old hold hseq
      obtain ⟨t, ht, rfl⟩ := Option.map_eq_some_iff.mp hold
      exact habsent t ht ((UInt32.add_left_inj k).mp hseq)
    rw [insertOutOfOrder_absent hit habsent', insertOutOfOrder_absent hl habsent]
    simp only [shift, Segment.shift, List.map_insertIdx]

theorem placeSegment_shift (r : TCPReassembler) (seq : UInt32) (payload : List UInt8)
    (diff : Int32) : (r.shift k).placeSegment (seq + k) payload diff =
      ((r.placeSegment seq payload diff).1.shift k, (r.placeSegment seq payload diff).2) := by
  by_cases hmax : sizeAdd r.currentMemoryUsage payload.length > r.config.maxBufferBytes
  · rw [placeSegment, placeSegment, shift_currentMemoryUsage, shift_config, if_pos hmax,
      if_pos hmax, shift_fail]
  · rw [placeSegment, placeSegment, shift_currentMemoryUsage, shift_config, if_neg hmax,
      if_neg hmax]
    split_ifs
    · rw [appendContiguous_shift]
    · exact insertOutOfOrder_shift r seq payload

theorem bufferSegment_shift {r : TCPReassembler} (hi : r.expectedSeqInitialized = true)
    (seq : UInt32) (payload : List UInt8) : (r.shift k).bufferSegment (seq + k) payload =
      ((r.bufferSegment seq payload).1.shift k, (r.bufferSegment seq payload).2) := by
  have hinit : r.initExpectedSeq seq = r := if_pos hi
  have hinit' : (r.shift k).initExpectedSeq (seq + k) = r.shift k := if_pos hi
  have hdiff : seqDiff (seq + k) (r.shift k).expectedSeq = seqDiff seq r.expectedSeq :=
    seqDiff_shift _ _ k
  have hseq (n : UInt32) : seq + k + n = seq + n + k := by
    rw [UInt32.add_assoc, UInt32.add_comm k, ← UInt32.add_assoc]
  simp only [bufferSegment, shift_failed, hinit, hinit', hdiff, hseq]
  split_ifs
  · rfl
  · rfl
  · exact placeSegment_shift r _ _ _
  · exact placeSegment_shift r _ _ _

theorem tryExtractSNI_shift {r : TCPReassembler} (hi : r.expectedSeqInitialized = true)
    (seq : UInt32) (payload : List UInt8) : (r.shift k).tryExtractSNI (seq + k) payload =
      ((r.tryExtractSNI seq payload).1.shift k, (r.tryExtractSNI seq payload).2) := by
  simp only [tryExtractSNI, bufferSegment_shift hi, shift_buffer]
  split_ifs <;> rfl

theorem run_shift {r : TCPReassembler} (hi : r.expectedSeqInitialized = true)
    (segments : List Segment) :
    (r.shift k).results (segments.map (Segment.shift k)) = r.results segments ∧
      (r.shift k).feed (segments.map (Segment.shift k)) = (r.feed segments).shift k := by
  induction segments generalizing r with
  | nil => exact ⟨rfl, rfl⟩
  | cons s segments ih =>
    have hcall : (r.shift k).tryExtractSNI (s.shift k).seq (s.shift k).data =
        ((r.tryExtractSNI s.seq s.data).1.shift k, (r.tryExtractSNI s.seq s.data).2) :=
      tryExtractSNI_shift hi s.seq s.data
    have hi' : (r.tryExtractSNI s.seq s.data).1.expectedSeqInitialized = true := by
      rw [tryExtractSNI_fst, (bufferSegment_frame r s.seq s.data).2]
      exact .inl hi
    obtain ⟨hresults, hfeed⟩ := ih hi'
    constructor
    · rw [List.map_cons, results, results, hcall, hresults]
    · rw [List.map_cons, feed, feed, hcall, hfeed]

theorem tryExtractSNI_fresh_shift (config : ReassemblerConfig) (seq : UInt32)
    {payload : List UInt8} (hp : payload ≠ []) : (fresh config).tryExtractSNI (seq + k) payload =
      (((fresh config).tryExtractSNI seq payload).1.shift k,
        ((fresh config).tryExtractSNI seq payload).2) := by
  have hfirst (q : UInt32) : (fresh config).tryExtractSNI q payload =
      ((fresh config).initExpectedSeq q).tryExtractSNI q payload := by
    rw [tryExtractSNI, tryExtractSNI, bufferSegment_initExpectedSeq rfl hp]
  have hmove : (fresh config).initExpectedSeq (seq + k) =
      ((fresh config).initExpectedSeq seq).shift k := rfl
  rw [hfirst, hfirst, hmove]
  exact tryExtractSNI_shift rfl seq payload

/--
Two fresh reassemblers that are fed the same segments at sequence numbers `k` apart return the
same at every call, and the one ends in the state of the other moved by `k`.
-/
theorem fresh_run_shift (config : ReassemblerConfig) (k : UInt32) {s : Segment}
    {segments : List Segment} (hne : ∀ t ∈ s :: segments, t.data ≠ []) :
    (fresh config).results ((s :: segments).map (Segment.shift k)) =
        (fresh config).results (s :: segments) ∧
      (fresh config).feed ((s :: segments).map (Segment.shift k)) =
        ((fresh config).feed (s :: segments)).shift k := by
  have hs : s.data ≠ [] := hne s List.mem_cons_self
  have hcall := tryExtractSNI_fresh_shift (k := k) config s.seq hs
  have hi : ((fresh config).tryExtractSNI s.seq s.data).1.expectedSeqInitialized = true := by
    rw [tryExtractSNI_fst, (bufferSegment_frame _ s.seq s.data).2]
    exact .inr ⟨rfl, hs⟩
  obtain ⟨hresults, hfeed⟩ := run_shift (k := k) hi segments
  constructor
  · rw [List.map_cons, results, results, Segment.shift_data, Segment.shift, hcall, hresults]
  · rw [List.map_cons, feed, feed, Segment.shift_data, Segment.shift, hcall, hfeed]

/-- The second of three segments waits for the third, which wraps around. -/
def wrapSegments : List Segment := [⟨0xFFFFFFFE, [1, 2]⟩, ⟨3, [6]⟩, ⟨0, [3, 4, 5]⟩]

theorem fresh_run_shift_wrap :
    (fresh {}).results (wrapSegments.map (Segment.shift 7)) = (fresh {}).results wrapSegments ∧
      (fresh {}).feed (wrapSegments.map (Segment.shift 7)) =
        ((fresh {}).feed wrapSegments).shift 7 :=
  fresh_run_shift {} 7 (by decide)

end TCPReassembler

end DpiEngine
