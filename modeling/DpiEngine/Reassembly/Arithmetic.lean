import DpiEngine.Reassembly.Window

/-! # The arithmetic of the reassembler

Distances to the expected number are negated to count the bytes before it. In
the merge a stored segment has fallen behind by less than the length of the one
before it. A segment from the network may start at the opposite point of the
circle, whose distance has no negation. The counter covers the stored segments,
so it never wraps.
-/

namespace DpiEngine

open Machine Logged

/--
The negation is representable, some but not all bytes are cut, and a merge starts inside the
stored segment. Subtractions of counters are unsigned and always defined.
-/
def Operation.Defined : Operation → Prop
  | .negate diff => -2 ^ 31 ≤ -diff.toInt ∧ -diff.toInt < 2 ^ 31
  | .trim bytes length => 1 ≤ bytes ∧ bytes < length
  | .mergeFrom bytes size => bytes < size
  | _ => True

/-- What is taken from the counter is not larger than the counter. -/
def Operation.Covered : Operation → Prop
  | .uncount usage bytes => bytes ≤ usage
  | _ => True

namespace TCPReassembler

variable {config : ReassemblerConfig} {r : TCPReassembler} {seq : UInt32} {payload : List UInt8}

/-- The stored segments are in the window, none of them longer than a TCP payload. -/
structure Waiting (r : TCPReassembler) : Prop where
  queued : Queued r.expectedSeq r.outOfOrder
  sizes : ∀ s ∈ r.outOfOrder, s.data.length ≤ 65535
  started : r.expectedSeqInitialized = false → r.outOfOrder = []

theorem Waiting.of_nil (h : r.outOfOrder = []) : Waiting r := by
  refine ⟨?_, ?_, fun _ => h⟩
  · rw [h]
    exact queued_nil _
  · simp [h]

theorem Waiting.initExpectedSeq (h : Waiting r) (seq : UInt32) :
    Waiting (r.initExpectedSeq seq) := by
  unfold TCPReassembler.initExpectedSeq
  split_ifs with hi
  · exact h
  · exact .of_nil (h.started (by simpa using hi))

theorem merged_window {s : Segment} {l : List Segment}
    (hw : Window (-65536) r.expectedSeq (s :: l)) (hlen : s.data.length ≤ 65535)
    (hreach : (seqDiff s.seq r.expectedSeq).toInt ≤ 0) (buffer : List UInt8) :
    Window (-65536) (r.merged s buffer).expectedSeq l := by
  have hbound : -65536 < (seqDiff s.seq r.expectedSeq).toInt := hw.above s List.mem_cons_self
  have htail : Window (seqDiff s.seq r.expectedSeq).toInt r.expectedSeq l :=
    ⟨(List.pairwise_cons.mp hw.increasing).1, hw.tail.increasing⟩
  have hover := sizeOfInt32_neg hreach (by omega)
  exact (htail.advance (by omega) (by omega)).mono (by omega)

/-- The merge negates small distances only: each segment starts after the one merged before it. -/
theorem mergeLoopLogged_defined {l : List Segment} (hw : Window (-65536) r.expectedSeq l)
    (hs : ∀ s ∈ l, s.data.length ≤ 65535) : Always Operation.Defined (r.mergeLoopLogged l) := by
  induction l generalizing r with
  | nil => exact always_pure _
  | cons s l ih =>
    obtain ⟨hlen, hs⟩ := List.forall_mem_cons.mp hs
    have hbound : -65536 < (seqDiff s.seq r.expectedSeq).toInt := hw.above s List.mem_cons_self
    refine mergeLoopLogged_cons ?_ ?_ trivial ?_
    · exact fun hreach => ⟨by omega, by omega⟩
    · exact fun hnew => hnew
    · exact fun hreach buffer => ih (merged_window hw hlen hreach buffer) hs

theorem mergeLoop_waiting {l : List Segment} (hw : Window (-65536) r.expectedSeq l)
    (hs : ∀ s ∈ l, s.data.length ≤ 65535) (hi : r.expectedSeqInitialized = true) :
    Waiting (r.mergeLoop l) := by
  induction l generalizing r with
  | nil => exact .of_nil rfl
  | cons s l ih =>
    obtain ⟨hlen, hs'⟩ := List.forall_mem_cons.mp hs
    rcases mergeLoop_cons (r := r) (s := s) (l := l) with
      heq | ⟨hreach, buffer, heq⟩ | ⟨hpos, heq⟩
    · rw [heq]
      exact .of_nil rfl
    · rw [heq]
      exact ih (merged_window hw hlen hreach buffer) hs' hi
    · rw [heq]
      refine ⟨?_, hs, fun h => absurd (hi.symm.trans h) (by decide)⟩
      have habove := (List.pairwise_cons.mp hw.increasing).1
      refine Window.queued ⟨?_, hw.increasing⟩
      exact List.forall_mem_cons.mpr ⟨hpos, fun t ht => hpos.trans (habove t ht)⟩

theorem Waiting.append_window (h : Waiting r) (hsize : payload.length ≤ 65535) :
    Window (-65536) (r.expectedSeq + .ofNat payload.length) r.outOfOrder :=
  (h.queued.window.advance (by omega) (by omega)).mono (by omega)

theorem Waiting.insert (h : Waiting r) (hi : r.expectedSeqInitialized = true)
    (hahead : 0 < (seqDiff seq r.expectedSeq).toInt) (hsize : payload.length ≤ 65535)
    {l₁ l₂ : List Segment} (hsub : (l₁ ++ l₂).Sublist r.outOfOrder)
    (h₁ : ∀ s ∈ l₁, offset r.expectedSeq s.seq < offset r.expectedSeq seq)
    (h₂ : ∀ s ∈ l₂, offset r.expectedSeq seq < offset r.expectedSeq s.seq) (usage : ℕ) :
    Waiting { r with outOfOrder := l₁ ++ ⟨seq, payload⟩ :: l₂, currentMemoryUsage := usage } := by
  obtain ⟨hpos, hlt⟩ := serialDiff_pos_iff.mp hahead
  refine ⟨h.queued.insert hsub h₁ h₂ hpos hlt, ?_, fun hn => absurd (hi.symm.trans hn) (by decide)⟩
  have hsizes (s) (hs : s ∈ l₁ ++ l₂) : s.data.length ≤ 65535 := h.sizes s (hsub.subset hs)
  intro s hs
  rcases List.mem_append.mp hs with hs | hs
  · exact hsizes s (List.mem_append_left _ hs)
  · rcases List.mem_cons.mp hs with rfl | hs
    · exact hsize
    · exact hsizes s (List.mem_append_right _ hs)

theorem insertOutOfOrder_waiting (h : Waiting r) (hi : r.expectedSeqInitialized = true)
    (hahead : 0 < (seqDiff seq r.expectedSeq).toInt) (hsize : payload.length ≤ 65535) :
    Waiting (r.insertOutOfOrder seq payload).1 := by
  obtain ⟨-, hlt⟩ := serialDiff_pos_iff.mp hahead
  obtain ⟨l₁, l₂, h₁, h₂, hl⟩ :=
    Search.exists_split_lt h.queued.sorted (offset r.expectedSeq seq)
  have hle₂ (s) (hs : s ∈ l₂) := (h₂ s hs).le
  rcases hl with hl | ⟨old, hoffset, hl⟩
  · have hit : Search.lowerBound Segment.lt r.outOfOrder ⟨seq, payload⟩ = l₁.length :=
      lowerBound_eq h.queued hl h₁ hle₂ hlt
    rw [insertOutOfOrder_absent hit, hl, Search.insertIdx_length_append]
    · exact h.insert hi hahead hsize (hl ▸ .refl _) h₁ h₂ _
    · rintro old hold rfl
      rw [hl, List.getElem?_append_right le_rfl, Nat.sub_self, ← List.head?_eq_getElem?] at hold
      exact (h₂ old (List.mem_of_mem_head? hold)).false
  · have hold : old.seq = seq := by
      rw [← add_offset r.expectedSeq old.seq, hoffset, add_offset]
    have hit : Search.lowerBound Segment.lt r.outOfOrder ⟨seq, payload⟩ = l₁.length :=
      lowerBound_eq h.queued hl h₁ (List.forall_mem_cons.mpr ⟨hoffset.ge, hle₂⟩) hlt
    have hget : r.outOfOrder[l₁.length]? = some old := by
      rw [hl, List.getElem?_append_right le_rfl, Nat.sub_self, List.getElem?_cons_zero]
    rcases Nat.lt_or_ge old.data.length payload.length with hlonger | hdup
    · rw [insertOutOfOrder_replace hit hget hold hlonger, hl, Search.set_length_append]
      have hsub : (l₁ ++ l₂).Sublist r.outOfOrder := by
        rw [hl]
        exact (List.Sublist.refl l₁).append (List.sublist_cons_self old l₂)
      exact h.insert hi hahead hsize hsub h₁ h₂ _
    · rw [insertOutOfOrder_duplicate hit hget hold hdup]
      exact h

theorem placeSegment_waiting (h : Waiting r) (hi : r.expectedSeqInitialized = true)
    {diff : Int32} (hahead : diff.toInt ≠ 0 → 0 < (seqDiff seq r.expectedSeq).toInt)
    (hsize : payload.length ≤ 65535) : Waiting (r.placeSegment seq payload diff).1 := by
  unfold placeSegment
  split_ifs with hfull hzero
  · exact .of_nil rfl
  · exact mergeLoop_waiting (h.append_window hsize) h.sizes hi
  · exact insertOutOfOrder_waiting h hi (hahead hzero) hsize

theorem bufferSegment_waiting (h : Waiting r) (seq : UInt32) (hsize : payload.length ≤ 65535) :
    Waiting (r.bufferSegment seq payload).1 := by
  by_cases hskip : r.failed = true ∨ payload = []
  · have hsame : r.bufferSegment seq payload = (r, false) := by
      rcases hskip with hf | rfl <;> simp [bufferSegment, *]
    rw [hsame]
    exact h
  · obtain ⟨hf, hp⟩ := not_or.mp hskip
    have hf : r.failed = false := by simpa using hf
    rw [bufferSegment_initExpectedSeq hf hp]
    obtain ⟨hi, hf', -⟩ := initExpectedSeq_frame r seq
    rcases bufferSegment_cases hi (hf'.trans hf) seq hp (by omega) with
      ⟨hpos, heq⟩ | ⟨-, heq | ⟨k, hk, he, heq⟩⟩
    · rw [heq]
      exact placeSegment_waiting (h.initExpectedSeq seq) hi (fun _ => hpos) hsize
    · rw [heq]
      exact h.initExpectedSeq seq
    · rw [heq]
      refine placeSegment_waiting (h.initExpectedSeq seq) hi (fun h => absurd (by decide) h) ?_
      rw [List.length_drop]
      omega

theorem run_waiting (h : Waiting r) (calls : List Call) : Waiting (calls.foldl call r) := by
  induction calls generalizing r with
  | nil => exact h
  | cons c calls ih =>
    refine ih ?_
    cases c with
    | clear => exact .of_nil rfl
    | tryExtractSNI seq payload =>
      rw [call, tryExtractSNI_fst]
      exact bufferSegment_waiting h seq payload.length_le

/-- A segment for a live reassembler that starts half the circle from the expected number. -/
def Opposite (r : TCPReassembler) (seq : UInt32) : Prop :=
  r.failed = false ∧ r.expectedSeqInitialized = true ∧ seq = r.expectedSeq + .ofNat (2 ^ 31)

theorem bufferSegmentLogged_defined (h : Waiting r) (hsize : payload.length ≤ 65535)
    (hopp : ¬ r.Opposite seq) : Always Operation.Defined (r.bufferSegmentLogged seq payload) := by
  refine bufferSegmentLogged_of_live fun hf _ => ?_
  obtain ⟨hi, -, -⟩ := initExpectedSeq_frame r seq
  have hwait := h.initExpectedSeq seq
  have hmin : (seqDiff seq (r.initExpectedSeq seq).expectedSeq).toInt ≠ -2 ^ 31 := by
    intro hd
    have hseq := serialDiff_eq_min_iff.mp hd
    cases hinit : r.expectedSeqInitialized with
    | true =>
      rw [TCPReassembler.initExpectedSeq, if_pos hinit] at hseq
      exact hopp ⟨hf, hinit, hseq⟩
    | false =>
      have hself : (r.initExpectedSeq seq).expectedSeq = seq := by
        simp [TCPReassembler.initExpectedSeq, hinit]
      rw [hself] at hd
      simp [seqDiff, serialDiff] at hd
  have hlow := (seqDiff seq (r.initExpectedSeq seq).expectedSeq).le_toInt
  refine bufferSegmentLogged_always (if_pos hi) ?_ ?_ ?_ ?_
  · exact fun hbehind => ⟨by omega, by omega⟩
  · intro hbehind hnew
    have hover := sizeOfInt32_neg hbehind.le hmin
    exact ⟨by omega, hnew⟩
  · intro data hdata _
    exact mergeLoopLogged_defined (hwait.append_window (hdata.trans hsize)) hwait.sizes
  · exact fun _ _ => insertOutOfOrderLogged_always trivial fun _ _ => trivial

theorem not_bufferSegmentLogged_defined (hp : payload ≠ []) (hopp : r.Opposite seq) :
    ¬ Always Operation.Defined (r.bufferSegmentLogged seq payload) := by
  obtain ⟨hf, hinit, hseq⟩ := hopp
  have hd : (seqDiff seq r.expectedSeq).toInt = -2 ^ 31 := serialDiff_eq_min_iff.mpr hseq
  have hsame : r.initExpectedSeq seq = r := if_pos hinit
  intro halways
  unfold bufferSegmentLogged at halways
  rw [if_neg (by simp [hf, hp]), hsame, if_pos (by omega), overlap, always_perform_bind] at halways
  have hneg : -(seqDiff seq r.expectedSeq).toInt < 2 ^ 31 := halways.1.2
  omega

/--
In every reachable state the arithmetic of the next call is defined unless the segment starts
half the circle from the expected number.
-/
theorem arithmetic_defined_iff (config : ReassemblerConfig) (calls : List Call) (seq : UInt32)
    {payload : Payload} (hne : payload.bytes ≠ []) :
    (∀ op ∈ (calls.foldl call (fresh config)).operations seq payload.bytes, op.Defined) ↔
      ¬ (calls.foldl call (fresh config)).Opposite seq := by
  have hw := run_waiting (r := fresh config) (.of_nil rfl) calls
  constructor
  · exact fun h hopp => not_bufferSegmentLogged_defined hne hopp h
  · exact fun hopp => bufferSegmentLogged_defined hw payload.length_le hopp

theorem arithmetic_defined_iff_inOrder :
    (∀ op ∈ ((fresh {}).call (.tryExtractSNI 7 ⟨[1, 2, 3], by decide⟩)).operations 10 [4],
      op.Defined) ↔
    ¬ ((fresh {}).call (.tryExtractSNI 7 ⟨[1, 2, 3], by decide⟩)).Opposite 10 :=
  @arithmetic_defined_iff {} [.tryExtractSNI 7 ⟨[1, 2, 3], by decide⟩] 10 ⟨[4], by decide⟩
    (by decide)

/-- After one byte at 0 a segment at `1 + 2 ^ 31` makes the call negate the smallest number. -/
theorem negate_min :
    ¬ ∀ op ∈ ((fresh {}).call (.tryExtractSNI 0 ⟨[0], by decide⟩)).operations 2147483649 [0],
      op.Defined := by
  refine not_bufferSegmentLogged_defined (by decide) ⟨?_, ?_, ?_⟩
  · decide
  · decide
  · decide

/-! ## The counter -/

theorem mergeLoopLogged_covered {l : List Segment} (h : storedBytes l ≤ r.currentMemoryUsage) :
    Always Operation.Covered (r.mergeLoopLogged l) := by
  induction l generalizing r with
  | nil => exact always_pure _
  | cons s l ih =>
    rw [storedBytes_cons] at h
    have hsub := sizeSub_eq (a := r.currentMemoryUsage) (b := s.data.length) (by omega)
    refine mergeLoopLogged_cons ?_ ?_ ?_ fun _ _ => ih ?_
    · exact fun _ => trivial
    · exact fun _ => trivial
    · exact (Nat.le_add_right _ _).trans h
    · rw [merged, hsub]
      exact Nat.le_sub_of_add_le' h

theorem bufferSegmentLogged_covered (h : Ordered r) (hmax : r.config.maxBufferBytes < 2 ^ 31)
    (seq : UInt32) (hsize : payload.length ≤ 65535) :
    Always Operation.Covered (r.bufferSegmentLogged seq payload) := by
  refine bufferSegmentLogged_of_live fun _ _ => ?_
  obtain ⟨hi, -, hconfig⟩ := initExpectedSeq_frame r seq
  have hinit := h.initExpectedSeq seq
  have hle := hinit.le_max
  have hstored := hinit.stored_le
  rw [hconfig] at hle
  refine bufferSegmentLogged_always (if_pos hi) ?_ ?_ ?_ ?_
  · exact fun _ => trivial
  · exact fun _ _ => trivial
  · intro data hdata _
    apply mergeLoopLogged_covered
    have hadd := sizeAdd_eq (a := (r.initExpectedSeq seq).currentMemoryUsage) (b := data.length)
      (by omega)
    simp only [hadd]
    omega
  · intro _ _
    refine insertOutOfOrderLogged_always trivial fun old hold => ?_
    obtain ⟨i, hi⟩ := List.getElem?_of_mem hold
    have hsplit := storedBytes_split hi
    have hcovered : old.data.length ≤ (r.initExpectedSeq seq).currentMemoryUsage := by omega
    exact hcovered

/--
After every run of calls the counter covers the stored segments, and every subtraction of the
next call, also of one whose merge fails, leaves a counter that has not wrapped.
-/
theorem counter_covers (calls : List Call) :
    storedBytes (calls.foldl call (fresh {})).outOfOrder ≤
        (calls.foldl call (fresh {})).currentMemoryUsage ∧
      ∀ seq (payload : Payload),
        ∀ op ∈ (calls.foldl call (fresh {})).operations seq payload.bytes, op.Covered := by
  obtain ⟨hord, hconfig⟩ := run_ordered (ordered_fresh {}) (by decide) calls
  refine ⟨hord.stored_le, fun seq payload => ?_⟩
  refine bufferSegmentLogged_covered hord ?_ seq payload.length_le
  rw [hconfig]
  decide

end TCPReassembler

end DpiEngine
