import DpiEngine.Library.Coverage
import DpiEngine.Reassembly.Model

/-! # Reassembly computes the stream prefix

A reassembler that is fed segments of one stream represents the abstract
receiver of their spans: its buffer is the received prefix and its stored
segments are the held spans. The prefix of the receiver is exact, so the buffer
is the longest prefix of the stream that the delivered segments cover.
-/

namespace DpiEngine

open Machine Coverage

variable {S : List UInt8} {b : UInt32}

def segmentOf (S : List UInt8) (b : UInt32) (s : Span) : Segment := ⟨b + .ofNat s.start, slice S s⟩

theorem segmentOf_lt {s t : Span} (hs : s.start < 2 ^ 31) (ht : t.start < 2 ^ 31) :
    (segmentOf S b s).lt (segmentOf S b t) = decide (s.start < t.start) := by
  have h := serialDiff_add b hs ht
  simp only [Segment.lt, seqDiff, segmentOf, h, decide_eq_decide]
  omega

namespace TCPReassembler

variable {r : TCPReassembler} {rcv : Receiver}

/-- The reassembler holds what the receiver has received of the stream `S`. -/
structure Represents (S : List UInt8) (b : UInt32) (rcv : Receiver) (r : TCPReassembler) :
    Prop where
  initialized : r.expectedSeqInitialized = true
  next_le : rcv.next ≤ S.length
  buffer : r.buffer = S.take rcv.next
  expectedSeq : r.expectedSeq = b + .ofNat rcv.next
  outOfOrder : r.outOfOrder = rcv.held.map (segmentOf S b)
  held_le : ∀ s ∈ rcv.held, s.stop ≤ S.length

theorem mergeLoop_absorb (hS : S.length < 2 ^ 31) {n : ℕ} (hn : n ≤ S.length) {l : List Span}
    (hl : ∀ s ∈ l, s.stop ≤ S.length) (hb : r.buffer = S.take n)
    (he : r.expectedSeq = b + .ofNat n)
    (hf : (r.mergeLoop (l.map (segmentOf S b))).failed = false) :
    (absorb n l).1 ≤ S.length ∧
      (r.mergeLoop (l.map (segmentOf S b))).buffer = S.take (absorb n l).1 ∧
      (r.mergeLoop (l.map (segmentOf S b))).expectedSeq = b + .ofNat (absorb n l).1 ∧
      (r.mergeLoop (l.map (segmentOf S b))).outOfOrder =
        (absorb n l).2.map (segmentOf S b) ∧
      (r.mergeLoop (l.map (segmentOf S b))).expectedSeqInitialized =
        r.expectedSeqInitialized := by
  induction l generalizing r n with
  | nil => exact ⟨hn, hb, he, rfl, rfl⟩
  | cons s l ih =>
    obtain ⟨hs, hl⟩ := List.forall_mem_cons.mp hl
    have hstart : s.start < 2 ^ 31 := by unfold Span.stop at hs; omega
    have hd := serialDiff_add b hstart (show n < 2 ^ 31 by omega)
    simp only [List.map_cons, mergeLoop, he, seqDiff, segmentOf, length_slice hs, absorb] at hf ⊢
    by_cases h : s.start ≤ n
    · rw [if_pos h]
      rw [if_pos (by omega), sizeOfInt32_neg_serialDiff b h (by omega)] at hf ⊢
      by_cases h' : n - s.start < s.len
      · have hm : max n s.stop = s.stop := by unfold Span.stop; omega
        rw [hm]
        rw [if_pos h'] at hf ⊢
        split_ifs at hf ⊢ with hmax
        · simp [fail] at hf
        · refine ih hs hl ?_ ?_ hf
          · rw [hb]
            exact take_append_drop_slice h (by unfold Span.stop; omega)
          · have hsum : n + (s.len - (n - s.start)) = s.stop := by unfold Span.stop; omega
            simp only [add_ofNat_add, hsum]
      · have hm : max n s.stop = n := by unfold Span.stop; omega
        rw [hm]
        rw [if_neg h'] at hf ⊢
        exact ih hn hl hb rfl hf
    · rw [if_neg h, if_neg (by omega)]
      exact ⟨hn, hb, rfl, rfl, rfl⟩

theorem appendContiguous_represents (hS : S.length < 2 ^ 31) (hr : Represents S b rcv r)
    {s : Span} (hs : s.stop ≤ S.length) (hle : s.start ≤ rcv.next) (hlt : rcv.next < s.stop)
    (hf : (r.appendContiguous ((slice S s).drop (rcv.next - s.start))).failed = false) :
    Represents S b (rcv.deliver s)
      (r.appendContiguous ((slice S s).drop (rcv.next - s.start))) := by
  have hlen : rcv.next + ((slice S s).drop (rcv.next - s.start)).length = s.stop := by
    rw [List.length_drop, length_slice hs]; unfold Span.stop at *; omega
  simp only [appendContiguous, mergeOutOfOrder, hr.outOfOrder, hr.expectedSeq, add_ofNat_add,
    hlen] at hf ⊢
  have hbuf : r.buffer ++ (slice S s).drop (rcv.next - s.start) = S.take s.stop := by
    rw [hr.buffer]; exact take_append_drop_slice hle hlt.le
  obtain ⟨h₁, h₂, h₃, h₄, h₅⟩ := mergeLoop_absorb hS hs hr.held_le hbuf rfl hf
  have hd : rcv.deliver s = ⟨(absorb s.stop rcv.held).1, (absorb s.stop rcv.held).2,
      rcv.sorted.sublist (absorb_suffix _ _).sublist, absorb_beyond rcv.sorted⟩ := by
    rw [Receiver.deliver, if_neg (by omega), dif_pos hle]
  rw [hd]
  exact ⟨h₅.trans hr.initialized, h₁, h₂, h₃, h₄,
    fun t ht => hr.held_le t ((absorb_suffix _ _).subset ht)⟩

theorem insertOutOfOrder_frame (r : TCPReassembler) (seq : UInt32) (payload : List UInt8) :
    ∃ l usage, (r.insertOutOfOrder seq payload).1 =
      { r with outOfOrder := l, currentMemoryUsage := usage } := by
  unfold insertOutOfOrder
  dsimp only
  split
  · split_ifs
    · exact ⟨_, _, rfl⟩
    · exact ⟨_, _, rfl⟩
    · exact ⟨_, _, rfl⟩
  · exact ⟨_, _, rfl⟩

theorem mergeLoop_frame (l : List Segment) (r : TCPReassembler) :
    (r.mergeLoop l).config = r.config ∧
      (r.mergeLoop l).expectedSeqInitialized = r.expectedSeqInitialized := by
  induction l generalizing r with
  | nil => exact ⟨rfl, rfl⟩
  | cons s l ih =>
    simp only [mergeLoop]
    split_ifs
    · exact ⟨rfl, rfl⟩
    · exact ih _
    · exact ih _
    · exact ⟨rfl, rfl⟩

theorem placeSegment_frame (r : TCPReassembler) (seq : UInt32) (payload : List UInt8)
    (diff : Int32) : (r.placeSegment seq payload diff).1.config = r.config ∧
      (r.placeSegment seq payload diff).1.expectedSeqInitialized = r.expectedSeqInitialized := by
  unfold placeSegment
  split_ifs
  · exact ⟨rfl, rfl⟩
  · exact mergeLoop_frame _ _
  · obtain ⟨l, usage, h⟩ := r.insertOutOfOrder_frame seq payload
    rw [h]
    exact ⟨rfl, rfl⟩

theorem initExpectedSeq_frame (r : TCPReassembler) (seq : UInt32) :
    (r.initExpectedSeq seq).expectedSeqInitialized = true ∧
      (r.initExpectedSeq seq).failed = r.failed ∧ (r.initExpectedSeq seq).config = r.config := by
  unfold initExpectedSeq
  split_ifs with hi
  · exact ⟨hi, rfl, rfl⟩
  · exact ⟨rfl, rfl, rfl⟩

theorem bufferSegment_frame (r : TCPReassembler) (seq : UInt32) (payload : List UInt8) :
    (r.bufferSegment seq payload).1.config = r.config ∧
      ((r.bufferSegment seq payload).1.expectedSeqInitialized = true ↔
        r.expectedSeqInitialized = true ∨ r.failed = false ∧ payload ≠ []) := by
  obtain ⟨hinit, -, hconfig⟩ := initExpectedSeq_frame r seq
  unfold bufferSegment
  dsimp only
  split_ifs with hskip
  · simp only [Bool.or_eq_true, List.isEmpty_iff] at hskip
    refine ⟨rfl, .inl, ?_⟩
    rintro (hi | ⟨hf, hp⟩)
    · exact hi
    · rcases hskip with h | h
      · exact absurd (hf.symm.trans h) (by decide)
      · exact absurd h hp
  all_goals
    have hnew : r.failed = false ∧ payload ≠ [] := by simpa using hskip
  · exact ⟨hconfig, fun _ => .inr hnew, fun _ => hinit⟩
  · obtain ⟨hc, hi⟩ := placeSegment_frame (r.initExpectedSeq seq)
      (seq + .ofNat (sizeOfInt32 (-seqDiff seq (r.initExpectedSeq seq).expectedSeq)))
      (payload.drop (sizeOfInt32 (-seqDiff seq (r.initExpectedSeq seq).expectedSeq))) 0
    exact ⟨hc.trans hconfig, fun _ => .inr hnew, fun _ => hi.trans hinit⟩
  · obtain ⟨hc, hi⟩ := placeSegment_frame (r.initExpectedSeq seq) seq payload
      (seqDiff seq (r.initExpectedSeq seq).expectedSeq)
    exact ⟨hc.trans hconfig, fun _ => .inr hnew, fun _ => hi.trans hinit⟩

def keepLonger (new : Segment) : List Segment → List Segment
  | [] => [new]
  | old :: l =>
    if old.seq = new.seq then (if new.data.length ≤ old.data.length then old :: l else new :: l)
    else new :: old :: l

theorem insertOutOfOrder_outOfOrder {seq : UInt32} {payload : List UInt8} {l₁ l₂ : List Segment}
    (hl : r.outOfOrder = l₁ ++ l₂)
    (hit : Search.lowerBound Segment.lt r.outOfOrder ⟨seq, payload⟩ = l₁.length) :
    (r.insertOutOfOrder seq payload).1.outOfOrder = l₁ ++ keepLonger ⟨seq, payload⟩ l₂ := by
  rw [hl] at hit
  unfold insertOutOfOrder
  simp only [hl, hit]
  cases l₂ with
  | nil => simp [keepLonger]
  | cons old l =>
    simp only [List.getElem?_append_right le_rfl, Nat.sub_self, List.getElem?_cons_zero,
      keepLonger]
    split_ifs
    · exact hl
    · exact Search.set_length_append l₁ l old _
    · exact Search.insertIdx_length_append l₁ (old :: l) _

theorem insertOutOfOrder_insertSpan (hS : S.length < 2 ^ 31) {s : Span} {l : List Span}
    (ho : r.outOfOrder = l.map (segmentOf S b)) (hl : l.Pairwise (·.start < ·.start))
    (hle : ∀ t ∈ l, t.stop ≤ S.length) (hs : s.stop ≤ S.length) :
    (r.insertOutOfOrder (b + .ofNat s.start) (slice S s)).1.outOfOrder =
      (insertSpan s l).map (segmentOf S b) := by
  have hstart : ∀ t : Span, t.stop ≤ S.length → t.start < 2 ^ 31 := fun t ht => by
    unfold Span.stop at ht; omega
  obtain ⟨l₁, l₂, rfl, h₁, h₂⟩ := Search.exists_split hl s.start
  have hit : Search.lowerBound Segment.lt r.outOfOrder (segmentOf S b s) =
      (l₁.map (segmentOf S b)).length := by
    rw [ho, List.map_append]
    apply Search.lowerBound_append <;> rw [List.forall_mem_map] <;> intro t ht
    · rw [segmentOf_lt (hstart t (hle t (by simp [ht]))) (hstart s hs), decide_eq_true (h₁ t ht)]
    · rw [segmentOf_lt (hstart t (hle t (by simp [ht]))) (hstart s hs),
        decide_eq_false (Nat.not_lt.mpr (h₂ t ht))]
  rw [insertOutOfOrder_outOfOrder (by rw [ho, List.map_append]) hit, insertSpan_append h₁,
    List.map_append]
  congr 1
  cases l₂ with
  | nil => rfl
  | cons t l =>
    have ht : t.stop ≤ S.length := hle t (by simp)
    have heq := add_ofNat_inj b (hstart t ht) (hstart s hs)
    have hge := h₂ t (by simp)
    simp only [insertSpan, keepLonger, List.map_cons, segmentOf, heq, length_slice ht,
      length_slice hs]
    rw [if_neg (show ¬ t.start < s.start by omega)]
    split_ifs <;> rfl

theorem insertOutOfOrder_represents (hS : S.length < 2 ^ 31) (hr : Represents S b rcv r)
    {s : Span} (hs : s.stop ≤ S.length) (hlt : rcv.next < s.start) :
    Represents S b (rcv.deliver s) (r.insertOutOfOrder (b + .ofNat s.start) (slice S s)).1 := by
  have ho := insertOutOfOrder_insertSpan hS hr.outOfOrder rcv.sorted hr.held_le hs
  obtain ⟨l, usage, hu⟩ := r.insertOutOfOrder_frame (b + .ofNat s.start) (slice S s)
  have hd : rcv.deliver s = ⟨rcv.next, insertSpan s rcv.held, insertSpan_sorted rcv.sorted,
      fun t ht => (mem_insertSpan ht).elim (fun h => h ▸ hlt) (rcv.beyond t)⟩ := by
    rw [Receiver.deliver, if_neg (by unfold Span.stop; omega), dif_neg (by omega)]
  rw [hu] at ho ⊢
  rw [hd]
  refine ⟨hr.initialized, hr.next_le, hr.buffer, hr.expectedSeq, ho, fun t ht => ?_⟩
  rcases mem_insertSpan ht with rfl | ht
  · exact hs
  · exact hr.held_le t ht

/-- A segment that starts at the expected sequence number or before it adds what is new of it. -/
theorem bufferSegment_behind (hi : r.expectedSeqInitialized = true) (hf : r.failed = false)
    {seq : UInt32} {payload : List UInt8} (hp : payload ≠ []) {k : ℕ} (hk : k < 2 ^ 31)
    (he : r.expectedSeq = seq + .ofNat k) : r.bufferSegment seq payload =
      if payload.length ≤ k then (r, false)
      else r.placeSegment r.expectedSeq (payload.drop k) 0 := by
  have hp' : payload.isEmpty = false := List.isEmpty_eq_false_iff.mpr hp
  have hinit : r.initExpectedSeq seq = r := by rw [initExpectedSeq, if_pos hi]
  have hseq : seq + .ofNat 0 = seq := UInt32.add_zero seq
  have hd := serialDiff_add seq (m := 0) (n := k) (by omega) hk
  have hover := sizeOfInt32_neg_serialDiff seq (m := 0) (n := k) (by omega) hk
  rw [hseq, ← he] at hd hover
  simp only [bufferSegment, hf, hp', hinit, seqDiff, Bool.or_self, Bool.false_eq_true, if_false]
  by_cases hzero : k = 0
  · subst hzero
    have hdiff : serialDiff seq r.expectedSeq = 0 := Int32.toInt_inj.mp (by simpa using hd)
    rw [if_neg (by omega), if_neg (by simpa using hp), hdiff, he, hseq, List.drop_zero]
  · rw [if_pos (by omega), hover, Nat.sub_zero, he]

theorem bufferSegment_represents (hS : S.length < 2 ^ 31) (hr : Represents S b rcv r)
    {s : Span} (hs : s.stop ≤ S.length) (hpos : 0 < s.len)
    (hf : (r.bufferSegment (b + .ofNat s.start) (slice S s)).1.failed = false) :
    Represents S b (rcv.deliver s) (r.bufferSegment (b + .ofNat s.start) (slice S s)).1 := by
  have hnext : rcv.next < 2 ^ 31 := by have := hr.next_le; omega
  have hlen := length_slice hs
  have hne := slice_ne_nil hs hpos
  cases hfr : r.failed with
  | true =>
    rw [bufferSegment, hfr, Bool.true_or, if_pos rfl] at hf
    exact absurd (hfr.symm.trans hf) (by decide)
  | false =>
    by_cases hle : s.start ≤ rcv.next
    · -- the segment starts in the prefix or at its end
      have he : r.expectedSeq = b + .ofNat s.start + .ofNat (rcv.next - s.start) := by
        rw [hr.expectedSeq, add_ofNat_add, Nat.add_sub_cancel' hle]
      rw [bufferSegment_behind hr.initialized hfr hne (by omega) he, hlen] at hf ⊢
      by_cases hdup : s.stop ≤ rcv.next
      · rw [if_pos (by unfold Span.stop at hdup; omega), Receiver.deliver, if_pos hdup]
        exact hr
      · rw [if_neg (by unfold Span.stop at hdup; omega), placeSegment] at hf ⊢
        split_ifs at hf ⊢ with hmem hz
        · cases hf
        · exact appendContiguous_represents hS hr hs hle (by omega) hf
        · exact absurd (by decide) hz
    · have hd := serialDiff_add b (m := s.start) (by unfold Span.stop at hs; omega) hnext
      have hinit : r.initExpectedSeq (b + .ofNat s.start) = r := by
        rw [initExpectedSeq, if_pos hr.initialized]
      simp only [bufferSegment, hfr, List.isEmpty_eq_false_iff.mpr hne, hinit, hr.expectedSeq,
        seqDiff, Bool.or_self, Bool.false_eq_true, if_false] at hf ⊢
      rw [if_neg (by omega), placeSegment] at hf ⊢
      split_ifs at hf ⊢ with hmem hz
      · cases hf
      · omega
      · exact insertOutOfOrder_represents hS hr hs (by omega)

theorem bufferSegment_of_failed (h : r.failed = true) (seq : UInt32) (payload : List UInt8) :
    (r.bufferSegment seq payload).1 = r := by
  simp [bufferSegment, h]

theorem bufferSegment_initExpectedSeq (hf : r.failed = false) {payload : List UInt8}
    (hp : payload ≠ []) (seq : UInt32) :
    r.bufferSegment seq payload = (r.initExpectedSeq seq).bufferSegment seq payload := by
  have hi : (r.initExpectedSeq seq).initExpectedSeq seq = r.initExpectedSeq seq := by
    unfold initExpectedSeq; split_ifs <;> simp_all
  have hf' : (r.initExpectedSeq seq).failed = false := by
    unfold initExpectedSeq; split_ifs <;> exact hf
  have hp' : payload.isEmpty = false := List.isEmpty_eq_false_iff.mpr hp
  simp [bufferSegment, hf, hf', hp', hi]

theorem feed_of_failed (h : r.failed = true) (segments : List Segment) :
    (r.feed segments).failed = true := by
  induction segments generalizing r with
  | nil => exact h
  | cons s segments ih =>
    rw [feed_cons, bufferSegment_of_failed h]
    exact ih h

theorem not_failed_of_feed {s : Segment} {segments : List Segment}
    (h : (r.feed (s :: segments)).failed = false) :
    (r.bufferSegment s.seq s.data).1.failed = false := by
  by_contra hn
  rw [feed_cons, feed_of_failed (by simpa using hn)] at h
  cases h

/-- A relation between receiver and reassembler that each segment keeps is kept by a run; the
receiver may get another span than the reassembler. -/
theorem feed_relates {R : Receiver → TCPReassembler → Prop} {f : Span → Span}
    (hstep : ∀ {rcv r s}, R rcv r → 0 < s.len → s.stop ≤ S.length →
      (r.bufferSegment (b + .ofNat s.start) (slice S s)).1.failed = false →
        R (rcv.deliver (f s)) (r.bufferSegment (b + .ofNat s.start) (slice S s)).1)
    {l : List Span} (hl : ∀ s ∈ l, 0 < s.len ∧ s.stop ≤ S.length) (hr : R rcv r)
    (hf : (r.feed (l.map (segmentOf S b))).failed = false) :
    R ((l.map f).foldl Receiver.deliver rcv) (r.feed (l.map (segmentOf S b))) := by
  induction l generalizing r rcv with
  | nil => exact hr
  | cons s l ih =>
    obtain ⟨⟨hpos, hs⟩, hl⟩ := List.forall_mem_cons.mp hl
    have hr' := hstep hr hpos hs (not_failed_of_feed hf)
    simp only [List.map_cons, feed_cons] at hf ⊢
    exact ih hl hr' hf

theorem feed_represents (hS : S.length < 2 ^ 31) {l : List Span}
    (hl : ∀ s ∈ l, 0 < s.len ∧ s.stop ≤ S.length) (hr : Represents S b rcv r)
    (hf : (r.feed (l.map (segmentOf S b))).failed = false) :
    Represents S b (l.foldl Receiver.deliver rcv) (r.feed (l.map (segmentOf S b))) := by
  have h := feed_relates (R := Represents S b) (f := id)
    (fun hr hpos hs hf => bufferSegment_represents hS hr hs hpos hf) hl hr hf
  rwa [List.map_id] at h

theorem represents_fresh (config : ReassemblerConfig) (S : List UInt8) (b : UInt32) :
    Represents S b .empty ((fresh config).initExpectedSeq b) :=
  ⟨rfl, Nat.zero_le _, rfl, (UInt32.add_zero b).symm, rfl, by simp [Receiver.empty]⟩

theorem feed_fresh (config : ReassemblerConfig) {s : Segment} (hs : s.data ≠ [])
    (segments : List Segment) : (fresh config).feed (s :: segments) =
      ((fresh config).initExpectedSeq s.seq).feed (s :: segments) := by
  rw [feed_cons, feed_cons, bufferSegment_initExpectedSeq rfl hs]

end TCPReassembler

/-- A nonempty piece of the stream `S`. -/
structure Piece (S : List UInt8) extends Span where
  len_pos : 0 < len
  stop_le : start + len ≤ S.length

open TCPReassembler in
/--
Whatever the order, the duplicates, the overlaps and the gaps of the delivered pieces, the
buffer is the longest prefix of the stream they cover.
-/
theorem buffer_eq_longest_prefix (config : ReassemblerConfig) (S : List UInt8)
    (hS : S.length < 2 ^ 31) (b : UInt32) (p : Piece S) (hp : p.start = 0) (l : List (Piece S))
    (hf : ((fresh config).feed ((p :: l).map fun q => segmentOf S b q.toSpan)).failed = false) :
    ∃ n, PrefixLength (covered ((p :: l).map Piece.toSpan)) n ∧
      ((fresh config).feed ((p :: l).map fun q => segmentOf S b q.toSpan)).buffer = S.take n ∧
      ((fresh config).feed ((p :: l).map fun q => segmentOf S b q.toSpan)).expectedSeq =
        b + .ofNat n := by
  have hspans : ((p :: l).map fun q => segmentOf S b q.toSpan) =
      ((p :: l).map Piece.toSpan).map (segmentOf S b) := by simp
  have hpieces : ∀ s ∈ (p :: l).map Piece.toSpan, 0 < s.len ∧ s.stop ≤ S.length := by
    rw [List.forall_mem_map]; exact fun q _ => ⟨q.len_pos, q.stop_le⟩
  have hfeed : (fresh config).feed (((p :: l).map Piece.toSpan).map (segmentOf S b)) =
      ((fresh config).initExpectedSeq b).feed
        (((p :: l).map Piece.toSpan).map (segmentOf S b)) := by
    have hseq : (segmentOf S b p.toSpan).seq = b := by
      rw [segmentOf, hp]
      exact UInt32.add_zero b
    rw [List.map_cons, List.map_cons, feed_fresh config (slice_ne_nil p.stop_le p.len_pos), hseq]
  rw [hspans, hfeed] at hf ⊢
  have hr := feed_represents hS hpieces (represents_fresh config S b) hf
  refine ⟨_, ?_, hr.buffer, hr.expectedSeq⟩
  have := (((p :: l).map Piece.toSpan).foldl Receiver.deliver .empty).prefixLength_next
  rwa [Receiver.received_foldl, Receiver.received_empty, Set.empty_union] at this

def wrapPieces : List (Piece [1, 2, 3, 4]) :=
  [⟨⟨0, 1⟩, by decide, by decide⟩, ⟨⟨2, 2⟩, by decide, by decide⟩, ⟨⟨1, 2⟩, by decide, by decide⟩]

open TCPReassembler in
theorem buffer_eq_longest_prefix_wraparound :
    ∃ n, PrefixLength (covered (wrapPieces.map Piece.toSpan)) n ∧
      ((fresh {}).feed (wrapPieces.map fun q =>
        segmentOf [1, 2, 3, 4] 0xFFFFFFFE q.toSpan)).buffer = [1, 2, 3, 4].take n ∧
      ((fresh {}).feed (wrapPieces.map fun q =>
        segmentOf [1, 2, 3, 4] 0xFFFFFFFE q.toSpan)).expectedSeq =
        0xFFFFFFFE + .ofNat n :=
  buffer_eq_longest_prefix {} [1, 2, 3, 4] (by decide) 0xFFFFFFFE _ rfl _ (by decide)

end DpiEngine
