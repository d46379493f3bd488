import DpiEngine.Reassembly.Prefix

/-! # Segments in another order

The first payload fixes the point of the stream from which a reassembler works:
it represents a receiver of the stream from there on, and what lies before is
trimmed. Two orders of the same segments end alike if and only if their first
segments start at the same point.
-/

namespace DpiEngine

open Machine Coverage

variable {S : List UInt8} {b : UInt32}

namespace TCPReassembler

variable {r : TCPReassembler} {rcv : Receiver}

theorem Represents.expectedSeq_behind {a : ℕ}
    (hr : Represents (S.drop a) (b + .ofNat a) rcv r) {m : ℕ} (hm : m ≤ a) :
    r.expectedSeq = b + .ofNat m + .ofNat (a - m + rcv.next) := by
  have hsum : m + (a - m + rcv.next) = a + rcv.next := by omega
  rw [hr.expectedSeq, add_ofNat_add, add_ofNat_add, hsum]

/-- A segment of the whole stream has the effect of its part from the first offset on. -/
theorem bufferSegment_clip (hS : S.length < 2 ^ 31) {a : ℕ} (ha : a ≤ S.length)
    (hr : Represents (S.drop a) (b + .ofNat a) rcv r) (hf : r.failed = false) {s : Span}
    (hs : s.stop ≤ S.length) (has : a < s.stop) (hpos : 0 < s.len) :
    r.bufferSegment (b + .ofNat s.start) (slice S s) =
      r.bufferSegment (b + .ofNat a + .ofNat (s.clip a).start) (slice (S.drop a) (s.clip a)) := by
  rw [slice_clip]
  by_cases hle : a ≤ s.start
  · have hstart : a + (s.clip a).start = s.start := Nat.add_sub_cancel' hle
    rw [add_ofNat_add, hstart, Nat.sub_eq_zero_of_le hle, List.drop_zero]
  · -- both segments start before the expected sequence number
    have hnext := hr.next_le
    rw [List.length_drop] at hnext
    have hlen := length_slice hs
    have hlen' : ((slice S s).drop (a - s.start)).length = s.len - (a - s.start) := by
      rw [List.length_drop, hlen]
    have hne' : (slice S s).drop (a - s.start) ≠ [] := by
      rw [← List.length_pos_iff, hlen']
      unfold Span.stop at has
      omega
    have hclip : (s.clip a).start = 0 := Nat.sub_eq_zero_of_le (by omega)
    have he := hr.expectedSeq_behind (not_le.mp hle).le
    have he' : r.expectedSeq = b + .ofNat a + .ofNat (s.clip a).start + .ofNat rcv.next := by
      rw [hr.expectedSeq, add_ofNat_add _ (s.clip a).start, hclip, Nat.zero_add]
    rw [bufferSegment_behind hr.initialized hf (slice_ne_nil hs hpos) (by omega) he,
      bufferSegment_behind hr.initialized hf hne' (by omega) he', hlen, hlen', List.drop_drop]
    have hiff : s.len ≤ a - s.start + rcv.next ↔ s.len - (a - s.start) ≤ rcv.next := by omega
    simp only [hiff]

theorem bufferSegment_clip_represents (hS : S.length < 2 ^ 31) {a : ℕ} (ha : a ≤ S.length)
    (hr : Represents (S.drop a) (b + .ofNat a) rcv r) {s : Span} (hs : s.stop ≤ S.length)
    (hpos : 0 < s.len)
    (hf : (r.bufferSegment (b + .ofNat s.start) (slice S s)).1.failed = false) :
    Represents (S.drop a) (b + .ofNat a) (rcv.deliver (s.clip a))
      (r.bufferSegment (b + .ofNat s.start) (slice S s)).1 := by
  have hfr : r.failed = false := by
    by_contra hn
    rw [bufferSegment_of_failed (by simpa using hn)] at hf
    exact hn hf
  by_cases has : a < s.stop
  · have hstop : (s.clip a).stop ≤ (S.drop a).length := by
      rw [Span.stop_clip, List.length_drop]
      omega
    have hlen : 0 < (s.clip a).len := by
      unfold Span.clip Span.stop at *
      simp only
      omega
    rw [bufferSegment_clip hS ha hr hfr hs has hpos] at hf ⊢
    refine bufferSegment_represents ?_ hr hstop hlen hf
    rw [List.length_drop]
    omega
  · -- the segment ends before the first offset
    have hnext := hr.next_le
    rw [List.length_drop] at hnext
    have he := hr.expectedSeq_behind (m := s.start) (by unfold Span.stop at has; omega)
    have hdup : (s.clip a).stop ≤ rcv.next := by
      rw [Span.stop_clip]
      omega
    rw [bufferSegment_behind hr.initialized hfr (slice_ne_nil hs hpos) (by omega) he,
      length_slice hs, if_pos (by unfold Span.stop at has; omega), Receiver.deliver, if_pos hdup]
    exact hr

theorem feed_clip_represents (hS : S.length < 2 ^ 31) {a : ℕ} (ha : a ≤ S.length) {l : List Span}
    (hl : ∀ s ∈ l, 0 < s.len ∧ s.stop ≤ S.length)
    (hr : Represents (S.drop a) (b + .ofNat a) rcv r)
    (hf : (r.feed (l.map (segmentOf S b))).failed = false) :
    Represents (S.drop a) (b + .ofNat a) ((l.map (Span.clip a)).foldl Receiver.deliver rcv)
      (r.feed (l.map (segmentOf S b))) :=
  feed_relates (R := Represents (S.drop a) (b + .ofNat a))
    (fun hr hpos hs hf => bufferSegment_clip_represents hS ha hr hs hpos hf) hl hr hf

end TCPReassembler

open TCPReassembler

def reassemble (config : ReassemblerConfig) (b : UInt32) (l : List (Piece S)) : TCPReassembler :=
  (fresh config).feed (l.map fun q => segmentOf S b q.toSpan)

/-- The buffer is the longest prefix that the pieces cover of the stream from the start of the first
piece on. -/
theorem reassemble_eq_longest_prefix (config : ReassemblerConfig) (hS : S.length < 2 ^ 31)
    (b : UInt32) (p : Piece S) (l : List (Piece S))
    (hf : (reassemble config b (p :: l)).failed = false) :
    ∃ n, PrefixLength (covered ((p :: l).map fun q => q.toSpan.clip p.start)) n ∧
      p.start + n ≤ S.length ∧
      (reassemble config b (p :: l)).buffer = (S.drop p.start).take n ∧
      (reassemble config b (p :: l)).expectedSeq = b + .ofNat (p.start + n) := by
  have hp : p.start ≤ S.length := by have := p.stop_le; omega
  have hspans : ((p :: l).map fun q => segmentOf S b q.toSpan) =
      ((p :: l).map Piece.toSpan).map (segmentOf S b) := by simp
  have hpieces : ∀ s ∈ (p :: l).map Piece.toSpan, 0 < s.len ∧ s.stop ≤ S.length := by
    rw [List.forall_mem_map]
    exact fun q _ => ⟨q.len_pos, q.stop_le⟩
  have hfeed : reassemble config b (p :: l) =
      ((fresh config).initExpectedSeq (b + .ofNat p.start)).feed
        (((p :: l).map Piece.toSpan).map (segmentOf S b)) := by
    rw [reassemble, hspans]
    exact feed_fresh config (slice_ne_nil p.stop_le p.len_pos) _
  rw [hfeed] at hf ⊢
  have hr := feed_clip_represents hS hp hpieces (represents_fresh config _ _) hf
  have hprefix := Receiver.prefixLength_next
    ((((p :: l).map Piece.toSpan).map (Span.clip p.start)).foldl Receiver.deliver .empty)
  have hnext := hr.next_le
  rw [List.length_drop] at hnext
  rw [Receiver.received_foldl, Receiver.received_empty, Set.empty_union, List.map_map] at hprefix
  refine ⟨_, hprefix, ?_, ?_, ?_⟩
  · rw [← List.map_map]
    omega
  · rw [← List.map_map]
    exact hr.buffer
  · rw [← List.map_map, ← add_ofNat_add]
    exact hr.expectedSeq

/-- Two orders of the same pieces end with the same buffer and the same expected sequence number if
and only if their first pieces start at the same point. -/
theorem reassemble_perm_iff (config config' : ReassemblerConfig) (hS : S.length < 2 ^ 31)
    (b : UInt32) {l l' : List (Piece S)} (hl : l.Perm l')
    (hf : (reassemble config b l).failed = false)
    (hf' : (reassemble config' b l').failed = false) :
    ((reassemble config b l).buffer = (reassemble config' b l').buffer ∧
      (reassemble config b l).expectedSeq = (reassemble config' b l').expectedSeq) ↔
      l.head?.map (·.start) = l'.head?.map (·.start) := by
  cases l with
  | nil =>
    obtain rfl := List.nil_perm.mp hl
    exact iff_of_true ⟨rfl, rfl⟩ rfl
  | cons p l =>
    cases l' with
    | nil => cases List.perm_nil.mp hl
    | cons q l' =>
      obtain ⟨n, hn, hle, hbuffer, hseq⟩ := reassemble_eq_longest_prefix config hS b p l hf
      obtain ⟨n', hn', hle', hbuffer', hseq'⟩ := reassemble_eq_longest_prefix config' hS b q l' hf'
      rw [hbuffer, hbuffer', hseq, hseq', add_ofNat_inj b (by omega) (by omega)]
      simp only [List.head?_cons, Option.map_some, Option.some.injEq]
      constructor
      · -- the first offset is the expected one less the length of the buffer
        rintro ⟨hbytes, hnext⟩
        have hlength := congrArg List.length hbytes
        simp only [List.length_take, List.length_drop] at hlength
        omega
      · rintro hstart
        rw [← hstart] at hn' ⊢
        have hcovered := covered_perm (hl.map fun q => q.toSpan.clip p.start)
        rw [hcovered] at hn
        rw [hn.unique hn']
        exact ⟨rfl, rfl⟩

def swappedPieces : List (Piece [1, 2, 3, 4]) :=
  wrapPieces.take 1 ++ (wrapPieces.drop 1).reverse

theorem reassemble_perm_iff_swapped :
    (reassemble {} 0xFFFFFFFE wrapPieces).buffer = (reassemble {} 0xFFFFFFFE swappedPieces).buffer ∧
      (reassemble {} 0xFFFFFFFE wrapPieces).expectedSeq =
        (reassemble {} 0xFFFFFFFE swappedPieces).expectedSeq := by
  have hperm : wrapPieces.Perm swappedPieces := .cons _ (List.reverse_perm _).symm
  exact (reassemble_perm_iff {} {} (by decide) _ hperm (by decide) (by decide)).mpr rfl

/-- A piece that arrives first fixes the expected sequence number, and the pieces before it are
lost. -/
theorem not_reassemble_perm : ¬ ∀ (config config' : ReassemblerConfig) (S : List UInt8) (b : UInt32)
    (l l' : List (Piece S)), S.length < 2 ^ 31 → l.Perm l' →
    (reassemble config b l).failed = false → (reassemble config' b l').failed = false →
      (reassemble config b l).buffer = (reassemble config' b l').buffer ∧
        (reassemble config b l).expectedSeq = (reassemble config' b l').expectedSeq := by
  intro hall
  obtain ⟨hbuffer, -⟩ := hall {} {} _ 0 wrapPieces wrapPieces.reverse (by decide)
    (List.reverse_perm _).symm (by decide) (by decide)
  exact absurd hbuffer (by decide)

end DpiEngine
