import DpiEngine.Reassembly.Memory
import DpiEngine.Reassembly.Prefix

/-! # Retransmitted segments

The stored segments lie beyond the expected sequence number, in the order of
their distances from it. A segment that comes again finds its bytes consumed or
itself stored, and is ignored. The limit is checked before the stored segments
are searched, so a stored segment for which there is no room a second time
makes the reassembler fail.
-/

namespace DpiEngine

open Machine

/-- The segments start less than half the circle after `e`, each before the next. -/
structure Queued (e : UInt32) (l : List Segment) : Prop where
  ahead : ∀ s ∈ l, 0 < offset e s.seq ∧ offset e s.seq < 2 ^ 31
  sorted : l.Pairwise (offset e ·.seq < offset e ·.seq)

theorem queued_nil (e : UInt32) : Queued e [] := ⟨by simp, .nil⟩

theorem Segment.lt_eq_offset {e : UInt32} {s t : Segment} (hs : offset e s.seq < 2 ^ 31)
    (ht : offset e t.seq < 2 ^ 31) : s.lt t = decide (offset e s.seq < offset e t.seq) := by
  have h := serialDiff_eq_offset hs ht
  simp only [Segment.lt, seqDiff, h, decide_eq_decide]
  omega

theorem Queued.advance {e : UInt32} {l : List Segment} {n : ℕ} (h : Queued e l)
    (hn : ∀ s ∈ l, n < offset e s.seq) : Queued (e + .ofNat n) l := by
  have hoffset : ∀ s ∈ l, offset (e + .ofNat n) s.seq = offset e s.seq - n :=
    fun s hs => offset_add_left (hn s hs).le
  constructor
  · intro s hs
    have h₁ := h.ahead s hs
    have h₂ := hn s hs
    rw [hoffset s hs]
    omega
  · refine h.sorted.imp_of_mem fun {s t} hs ht hlt => ?_
    have h₁ := hn s hs
    have h₂ := hn t ht
    rw [hoffset s hs, hoffset t ht]
    omega

theorem Queued.tail {e : UInt32} {s : Segment} {l : List Segment} (h : Queued e (s :: l)) :
    Queued e l :=
  ⟨(List.forall_mem_cons.mp h.ahead).2, (List.pairwise_cons.mp h.sorted).2⟩

theorem Queued.insert {e : UInt32} {l l₁ l₂ : List Segment} {s : Segment} (h : Queued e l)
    (hsub : (l₁ ++ l₂).Sublist l) (h₁ : ∀ t ∈ l₁, offset e t.seq < offset e s.seq)
    (h₂ : ∀ t ∈ l₂, offset e s.seq < offset e t.seq) (hpos : 0 < offset e s.seq)
    (hlt : offset e s.seq < 2 ^ 31) : Queued e (l₁ ++ s :: l₂) := by
  constructor
  · intro t ht
    rcases List.mem_append.mp ht with ht | ht
    · exact h.ahead t (hsub.subset (List.mem_append_left _ ht))
    · rcases List.mem_cons.mp ht with rfl | ht
      · exact ⟨hpos, hlt⟩
      · exact h.ahead t (hsub.subset (List.mem_append_right _ ht))
  · have hsorted := h.sorted.sublist hsub
    rw [List.pairwise_append] at hsorted
    rw [List.pairwise_append, List.pairwise_cons]
    refine ⟨hsorted.1, ⟨h₂, hsorted.2.1⟩, fun t ht u hu => ?_⟩
    rcases List.mem_cons.mp hu with rfl | hu
    · exact h₁ t ht
    · exact hsorted.2.2 t ht u hu

namespace TCPReassembler

variable {r : TCPReassembler}

/-- The number of bytes of the stored segment that starts at `seq`. -/
def storedAt (r : TCPReassembler) (seq : UInt32) : ℕ :=
  ((r.outOfOrder.find? (·.seq = seq)).map (·.data.length)).getD 0

/-- The invariant of the stored segments and of the counter. -/
structure Ordered (r : TCPReassembler) : Prop where
  queued : Queued r.expectedSeq r.outOfOrder
  stored_le : storedBytes r.outOfOrder ≤ r.currentMemoryUsage
  le_max : r.currentMemoryUsage ≤ r.config.maxBufferBytes
  started : r.expectedSeqInitialized = false → r.outOfOrder = []

theorem ordered_clear (r : TCPReassembler) : Ordered r.clear :=
  ⟨queued_nil _, le_rfl, Nat.zero_le _, fun _ => rfl⟩

theorem ordered_fail (r : TCPReassembler) : Ordered r.fail :=
  ⟨queued_nil _, le_rfl, Nat.zero_le _, fun _ => rfl⟩

theorem ordered_fresh (config : ReassemblerConfig) : Ordered (fresh config) :=
  ⟨queued_nil _, le_rfl, Nat.zero_le _, fun _ => rfl⟩

theorem Ordered.initExpectedSeq (h : Ordered r) (seq : UInt32) :
    Ordered (r.initExpectedSeq seq) := by
  unfold TCPReassembler.initExpectedSeq
  split_ifs with hi
  · exact h
  · have hnil : r.outOfOrder = [] := h.started (by simpa using hi)
    refine ⟨?_, h.stored_le, h.le_max, fun _ => hnil⟩
    dsimp only
    rw [hnil]
    exact queued_nil seq

/--
The merge from a base `e`: `n` bytes after it are in the buffer, the list waits beyond `e`. It
consumes the segments in reach, and the bytes after the base stay within the limit.
-/
theorem mergeLoop_ordered {e : UInt32} {n : ℕ} {l : List Segment} (hw : Queued e l)
    (he : r.expectedSeq = e + .ofNat n) (hn : n ≤ r.buffer.length)
    (hmax : n ≤ r.config.maxBufferBytes) (hlimit : r.config.maxBufferBytes < 2 ^ 31)
    (hs : storedBytes l ≤ r.currentMemoryUsage)
    (hm : r.currentMemoryUsage ≤ r.config.maxBufferBytes)
    (hi : r.expectedSeqInitialized = true) :
    Ordered (r.mergeLoop l) ∧ ((r.mergeLoop l).failed = true ∨
      ∃ k, n ≤ k ∧ k ≤ r.config.maxBufferBytes ∧
        (r.mergeLoop l).expectedSeq = e + .ofNat k) := by
  induction l generalizing r n with
  | nil => exact ⟨⟨queued_nil _, Nat.zero_le _, hm, fun _ => rfl⟩, .inr ⟨n, le_rfl, hmax, he⟩⟩
  | cons s l ih =>
    obtain ⟨hpos, hlt⟩ := hw.ahead s List.mem_cons_self
    have hd : (seqDiff s.seq r.expectedSeq).toInt = (offset e s.seq : ℤ) - n := by
      have h := serialDiff_add e hlt (show n < 2 ^ 31 by omega)
      rwa [add_offset, ← he] at h
    rw [storedBytes_cons] at hs
    have hsub := sizeSub_eq (a := r.currentMemoryUsage) (b := s.data.length) (by omega)
    simp only [mergeLoop]
    by_cases hreach : offset e s.seq ≤ n
    · have hover : sizeOfInt32 (-seqDiff s.seq r.expectedSeq) = n - offset e s.seq := by
        have h := sizeOfInt32_neg_serialDiff e hreach (show n < 2 ^ 31 by omega)
        rwa [add_offset, ← he] at h
      rw [if_pos (by omega), hover]
      split_ifs with hnew hfull
      · exact ⟨ordered_fail r, .inl rfl⟩
      · -- the buffer grows by what the segment has beyond the expected number
        refine And.imp_right ?_
          (ih (n := n + (s.data.length - (n - offset e s.seq))) hw.tail ?_ ?_ ?_ ?_ ?_ ?_ ?_)
        · rintro (hf | ⟨k, hk, hk', hexp⟩)
          · exact .inl hf
          · exact .inr ⟨k, by omega, hk', hexp⟩
        · rw [he, add_ofNat_add]
        · simp only [List.length_append, List.length_drop]
          omega
        · dsimp only
          omega
        · exact hlimit
        · simp only [hsub]
          omega
        · simp only [hsub]
          omega
        · exact hi
      · refine ih hw.tail he hn hmax hlimit ?_ ?_ hi
        · simp only [hsub]
          omega
        · simp only [hsub]
          omega
    · rw [if_neg (by omega)]
      refine ⟨⟨?_, ?_, hm, fun h => absurd (hi.symm.trans h) (by decide)⟩,
        .inr ⟨n, le_rfl, hmax, he⟩⟩
      · rw [he]
        refine hw.advance fun t ht => ?_
        rcases List.mem_cons.mp ht with rfl | ht
        · omega
        · have := (List.pairwise_cons.mp hw.sorted).1 t ht
          omega
      · simp only [storedBytes_cons]
        omega

theorem storedAt_append {seq : UInt32} {l₁ l₂ : List Segment} (hl : r.outOfOrder = l₁ ++ l₂)
    (h₁ : ∀ s ∈ l₁, s.seq ≠ seq) :
    r.storedAt seq = ((l₂.find? (·.seq = seq)).map (·.data.length)).getD 0 := by
  have hnone : l₁.find? (·.seq = seq) = none := by simpa using h₁
  rw [storedAt, hl, List.find?_append, hnone, Option.none_or]

theorem storedAt_of_mem {seq : UInt32} {l₁ l₂ : List Segment} {s : Segment}
    (hl : r.outOfOrder = l₁ ++ s :: l₂) (h₁ : ∀ t ∈ l₁, t.seq ≠ seq) (hs : s.seq = seq) :
    r.storedAt seq = s.data.length := by
  rw [storedAt_append hl h₁]
  simp [hs]

theorem storedAt_of_not_mem {seq : UInt32} (h : ∀ s ∈ r.outOfOrder, s.seq ≠ seq) :
    r.storedAt seq = 0 := by
  have hnone : r.outOfOrder.find? (·.seq = seq) = none := by simpa using h
  rw [storedAt, hnone]
  rfl

section Place

variable {seq : UInt32} {payload : List UInt8} {l₁ l₂ : List Segment}

theorem lowerBound_eq (h : Queued r.expectedSeq r.outOfOrder) (hl : r.outOfOrder = l₁ ++ l₂)
    (h₁ : ∀ s ∈ l₁, offset r.expectedSeq s.seq < offset r.expectedSeq seq)
    (h₂ : ∀ s ∈ l₂, offset r.expectedSeq seq ≤ offset r.expectedSeq s.seq)
    (hlt : offset r.expectedSeq seq < 2 ^ 31) :
    Search.lowerBound Segment.lt r.outOfOrder ⟨seq, payload⟩ = l₁.length := by
  have hwait : ∀ s ∈ r.outOfOrder, offset r.expectedSeq s.seq < 2 ^ 31 :=
    fun s hs => (h.ahead s hs).2
  rw [hl] at hwait ⊢
  apply Search.lowerBound_append
  · intro s hs
    rw [Segment.lt_eq_offset (t := ⟨seq, payload⟩) (hwait s (by simp [hs])) hlt]
    exact decide_eq_true (h₁ s hs)
  · intro s hs
    rw [Segment.lt_eq_offset (t := ⟨seq, payload⟩) (hwait s (by simp [hs])) hlt]
    exact decide_eq_false (Nat.not_lt.mpr (h₂ s hs))

theorem insertOutOfOrder_stored (h : Ordered r) {old : Segment}
    (hl : r.outOfOrder = l₁ ++ old :: l₂)
    (h₁ : ∀ s ∈ l₁, offset r.expectedSeq s.seq < offset r.expectedSeq seq)
    (h₂ : ∀ s ∈ l₂, offset r.expectedSeq seq < offset r.expectedSeq s.seq) (hold : old.seq = seq)
    (hlt : offset r.expectedSeq seq < 2 ^ 31)
    (hm : r.currentMemoryUsage + payload.length < 2 ^ 64) :
    r.insertOutOfOrder seq payload =
      if payload.length ≤ old.data.length then (r, false)
      else ({ r with
        outOfOrder := l₁ ++ ⟨seq, payload⟩ :: l₂
        currentMemoryUsage :=
          r.currentMemoryUsage - old.data.length + payload.length }, true) := by
  have hit : Search.lowerBound Segment.lt r.outOfOrder ⟨seq, payload⟩ = l₁.length := by
    refine lowerBound_eq h.queued hl h₁ ?_ hlt
    refine List.forall_mem_cons.mpr ⟨?_, fun s hs => (h₂ s hs).le⟩
    rw [hold]
  have hget : r.outOfOrder[l₁.length]? = some old := by
    rw [hl, List.getElem?_append_right le_rfl, Nat.sub_self, List.getElem?_cons_zero]
  have hbytes := h.stored_le
  rw [hl, storedBytes_append, storedBytes_cons] at hbytes
  rcases Nat.lt_or_ge old.data.length payload.length with hlonger | hle
  · rw [insertOutOfOrder_replace hit hget hold hlonger, if_neg (Nat.not_le.mpr hlonger), hl,
      Search.set_length_append, sizeSub_eq (by omega), sizeAdd_eq (by omega)]
  · rw [insertOutOfOrder_duplicate hit hget hold hle, if_pos hle]

theorem insertOutOfOrder_between (h : Ordered r) (hl : r.outOfOrder = l₁ ++ l₂)
    (h₁ : ∀ s ∈ l₁, offset r.expectedSeq s.seq < offset r.expectedSeq seq)
    (h₂ : ∀ s ∈ l₂, offset r.expectedSeq seq < offset r.expectedSeq s.seq)
    (hlt : offset r.expectedSeq seq < 2 ^ 31)
    (hm : r.currentMemoryUsage + payload.length < 2 ^ 64) :
    r.insertOutOfOrder seq payload = ({ r with
      outOfOrder := l₁ ++ ⟨seq, payload⟩ :: l₂
      currentMemoryUsage := r.currentMemoryUsage + payload.length }, true) := by
  have hit : Search.lowerBound Segment.lt r.outOfOrder ⟨seq, payload⟩ = l₁.length :=
    lowerBound_eq h.queued hl h₁ (fun s hs => (h₂ s hs).le) hlt
  rw [insertOutOfOrder_absent hit, sizeAdd_eq hm, hl, Search.insertIdx_length_append]
  rintro old hold rfl
  rw [hl, List.getElem?_append_right le_rfl, Nat.sub_self, ← List.head?_eq_getElem?] at hold
  exact (h₂ old (List.mem_of_mem_head? hold)).false

end Place

/-- Storing a segment that waits beyond `e`: it comes to its place, for a shorter one there. -/
theorem insertOutOfOrder_eq (h : Ordered r) {seq : UInt32} {payload : List UInt8}
    (hp : payload ≠ []) (hlt : offset r.expectedSeq seq < 2 ^ 31)
    (hm : r.currentMemoryUsage + payload.length < 2 ^ 64) :
    ∃ l₁ l₂, (l₁ ++ l₂).Sublist r.outOfOrder ∧
      (∀ s ∈ l₁, offset r.expectedSeq s.seq < offset r.expectedSeq seq) ∧
      (∀ s ∈ l₂, offset r.expectedSeq seq < offset r.expectedSeq s.seq) ∧
      storedBytes r.outOfOrder = storedBytes (l₁ ++ l₂) + r.storedAt seq ∧
      r.insertOutOfOrder seq payload =
        if payload.length ≤ r.storedAt seq then (r, false)
        else ({ r with
          outOfOrder := l₁ ++ ⟨seq, payload⟩ :: l₂
          currentMemoryUsage :=
            r.currentMemoryUsage - r.storedAt seq + payload.length }, true) := by
  obtain ⟨l₁, l₂, h₁, h₂, hl⟩ :=
    Search.exists_split_lt h.queued.sorted (offset r.expectedSeq seq)
  have hne₁ : ∀ s ∈ l₁, s.seq ≠ seq := by
    rintro s hs rfl
    exact (h₁ s hs).false
  have hne₂ : ∀ s ∈ l₂, s.seq ≠ seq := by
    rintro s hs rfl
    exact (h₂ s hs).false
  rcases hl with hl | ⟨old, hoffset, hl⟩
  · have hat : r.storedAt seq = 0 := by
      apply storedAt_of_not_mem
      rw [hl]
      exact List.forall_mem_append.mpr ⟨hne₁, hne₂⟩
    have hpos : 0 < payload.length := List.length_pos_iff.mpr hp
    refine ⟨l₁, l₂, hl ▸ .refl _, h₁, h₂, by rw [hat, ← hl, Nat.add_zero], ?_⟩
    rw [hat, if_neg (by omega), Nat.sub_zero, insertOutOfOrder_between h hl h₁ h₂ hlt hm]
  · have hold : old.seq = seq := by
      rw [← add_offset r.expectedSeq old.seq, hoffset, add_offset]
    have hat : r.storedAt seq = old.data.length := storedAt_of_mem hl hne₁ hold
    refine ⟨l₁, l₂, ?_, h₁, h₂, ?_, ?_⟩
    · rw [hl]
      exact (List.Sublist.refl l₁).append (List.sublist_cons_self old l₂)
    · rw [hl, hat, storedBytes_append, storedBytes_append, storedBytes_cons]
      omega
    · rw [hat, insertOutOfOrder_stored h hl h₁ h₂ hold hlt hm]

theorem insertOutOfOrder_ordered (h : Ordered r) {seq : UInt32} {payload : List UInt8}
    (hi : r.expectedSeqInitialized = true) (hp : payload ≠ [])
    (hpos : 0 < offset r.expectedSeq seq) (hlt : offset r.expectedSeq seq < 2 ^ 31)
    (hm : r.currentMemoryUsage + payload.length ≤ r.config.maxBufferBytes)
    (hlimit : r.config.maxBufferBytes < 2 ^ 31) :
    Ordered (r.insertOutOfOrder seq payload).1 := by
  obtain ⟨l₁, l₂, hsub, h₁, h₂, hbytes, heq⟩ := insertOutOfOrder_eq h hp hlt (by omega)
  have hstored := h.stored_le
  rw [heq]
  split_ifs
  · exact h
  · refine ⟨h.queued.insert hsub h₁ h₂ hpos hlt, ?_, ?_,
      fun hn => absurd (hi.symm.trans hn) (by decide)⟩
    · simp only [storedBytes_append, storedBytes_cons] at hbytes ⊢
      omega
    · dsimp only
      omega

theorem appendContiguous_ordered (h : Ordered r) (hi : r.expectedSeqInitialized = true)
    {payload : List UInt8}
    (hm : r.currentMemoryUsage + payload.length ≤ r.config.maxBufferBytes)
    (hlimit : r.config.maxBufferBytes < 2 ^ 31) :
    Ordered (r.appendContiguous payload) ∧ ((r.appendContiguous payload).failed = true ∨
      ∃ k, payload.length ≤ k ∧ k ≤ r.config.maxBufferBytes ∧
        (r.appendContiguous payload).expectedSeq = r.expectedSeq + .ofNat k) := by
  have hadd := sizeAdd_eq (a := r.currentMemoryUsage) (b := payload.length) (by omega)
  have hstored := h.stored_le
  refine mergeLoop_ordered (e := r.expectedSeq) (n := payload.length) h.queued rfl ?_ ?_ hlimit
    ?_ ?_ hi
  · simp
  · dsimp only
    omega
  · simp only [hadd]
    omega
  · simp only [hadd]
    exact hm

theorem placeSegment_ordered (h : Ordered r) (hi : r.expectedSeqInitialized = true) {seq : UInt32}
    {payload : List UInt8} {diff : Int32} (hp : payload ≠ [])
    (hahead : diff.toInt ≠ 0 → 0 < offset r.expectedSeq seq ∧ offset r.expectedSeq seq < 2 ^ 31)
    (hsize : payload.length < 2 ^ 63) (hlimit : r.config.maxBufferBytes < 2 ^ 31) :
    Ordered (r.placeSegment seq payload diff).1 := by
  have hmax := h.le_max
  have hadd := sizeAdd_eq (a := r.currentMemoryUsage) (b := payload.length) (by omega)
  unfold placeSegment
  rw [hadd]
  split_ifs with hfull hzero
  · exact ordered_fail r
  · exact (appendContiguous_ordered h hi (by omega) hlimit).1
  · obtain ⟨hpos, hlt⟩ := hahead hzero
    exact insertOutOfOrder_ordered h hi hp hpos hlt (by omega) hlimit

theorem bufferSegment_ahead (hi : r.expectedSeqInitialized = true) (hf : r.failed = false)
    {seq : UInt32} {payload : List UInt8} (hp : payload ≠ [])
    (h : 0 < (seqDiff seq r.expectedSeq).toInt) :
    r.bufferSegment seq payload = r.placeSegment seq payload (seqDiff seq r.expectedSeq) := by
  have hp' : payload.isEmpty = false := List.isEmpty_eq_false_iff.mpr hp
  have hinit : r.initExpectedSeq seq = r := if_pos hi
  simp only [bufferSegment, hf, hp', hinit, Bool.or_self, Bool.false_eq_true, if_false]
  rw [if_neg (by omega)]

theorem bufferSegment_cases (hi : r.expectedSeqInitialized = true) (hf : r.failed = false)
    (seq : UInt32) {payload : List UInt8} (hp : payload ≠ []) (hsize : payload.length < 2 ^ 63) :
    (0 < (seqDiff seq r.expectedSeq).toInt ∧ r.bufferSegment seq payload =
        r.placeSegment seq payload (seqDiff seq r.expectedSeq)) ∨
      (seqDiff seq r.expectedSeq).toInt ≤ 0 ∧ (r.bufferSegment seq payload = (r, false) ∨
        ∃ k < payload.length, r.expectedSeq = seq + .ofNat k ∧
          r.bufferSegment seq payload = r.placeSegment r.expectedSeq (payload.drop k) 0) := by
  have hp' : payload.isEmpty = false := List.isEmpty_eq_false_iff.mpr hp
  have hinit : r.initExpectedSeq seq = r := if_pos hi
  by_cases hahead : 0 < (seqDiff seq r.expectedSeq).toInt
  · exact .inl ⟨hahead, bufferSegment_ahead hi hf hp hahead⟩
  · refine .inr ⟨not_lt.mp hahead, ?_⟩
    have hk : offset seq r.expectedSeq ≤ 2 ^ 31 := by
      have h := mt serialDiff_pos_iff.mpr hahead
      rcases Nat.eq_zero_or_pos (offset r.expectedSeq seq) with hzero | hpos
      · have hsame := add_offset r.expectedSeq seq
        rw [hzero] at hsame
        have he : r.expectedSeq = seq := (UInt32.add_zero _).symm.trans hsame
        rw [he, offset_self]
        exact Nat.zero_le _
      · rw [offset_symm hpos]
        omega
    have he := (add_offset seq r.expectedSeq).symm
    rcases Nat.lt_or_eq_of_le hk with hk | hk
    · rw [bufferSegment_behind hi hf hp hk he]
      split_ifs with hold
      · exact .inl rfl
      · exact .inr ⟨_, Nat.lt_of_not_le hold, he, rfl⟩
    · -- half the circle away: the distance counts as negative, and as a huge overlap
      obtain ⟨hd, hover⟩ := serialDiff_opposite hk
      left
      simp only [bufferSegment, hf, hp', hinit, seqDiff, Bool.or_self, Bool.false_eq_true,
        if_false, hover]
      rw [if_pos (by omega), if_pos (by omega)]

theorem bufferSegment_ordered (h : Ordered r) (seq : UInt32) {payload : List UInt8}
    (hsize : payload.length < 2 ^ 63) (hlimit : r.config.maxBufferBytes < 2 ^ 31) :
    Ordered (r.bufferSegment seq payload).1 := by
  by_cases hskip : r.failed = true ∨ payload = []
  · have hsame : r.bufferSegment seq payload = (r, false) := by
      rcases hskip with hf | rfl <;> simp [bufferSegment, *]
    rw [hsame]
    exact h
  · obtain ⟨hf, hp⟩ := not_or.mp hskip
    have hf : r.failed = false := by simpa using hf
    rw [bufferSegment_initExpectedSeq hf hp]
    have hinit := h.initExpectedSeq seq
    obtain ⟨hi, hf', hmax⟩ := initExpectedSeq_frame r seq
    rw [← hmax] at hlimit
    rcases bufferSegment_cases hi (hf'.trans hf) seq hp hsize with
      ⟨hpos, heq⟩ | ⟨-, heq | ⟨k, hk, he, heq⟩⟩
    · rw [heq]
      exact placeSegment_ordered hinit hi hp (fun _ => serialDiff_pos_iff.mp hpos) hsize hlimit
    · rw [heq]
      exact hinit
    · rw [heq]
      refine placeSegment_ordered hinit hi ?_ (fun h => absurd (by decide) h) ?_ hlimit
      · rw [← List.length_pos_iff, List.length_drop]
        omega
      · rw [List.length_drop]
        omega

/--
The segment waits beyond a gap after the first call, and the limit has no room for it a second
time: the counter is checked before the stored segments are searched.
-/
def StoredWithoutRoom (r : TCPReassembler) (seq : UInt32) (payload : List UInt8) : Prop :=
  r.failed = false ∧ 0 < (seqDiff seq (r.initExpectedSeq seq).expectedSeq).toInt ∧
    r.storedAt seq < payload.length ∧
    r.currentMemoryUsage + payload.length ≤ r.config.maxBufferBytes ∧
    r.config.maxBufferBytes <
      r.currentMemoryUsage - r.storedAt seq + payload.length + payload.length

theorem storedWithoutRoom_initExpectedSeq (r : TCPReassembler) (seq : UInt32)
    (payload : List UInt8) : (r.initExpectedSeq seq).StoredWithoutRoom seq payload ↔
      r.StoredWithoutRoom seq payload := by
  cases hi : r.expectedSeqInitialized <;>
    simp [StoredWithoutRoom, storedAt, TCPReassembler.initExpectedSeq, hi]

theorem placeSegment_ahead {seq : UInt32} {payload : List UInt8}
    (h : 0 < (seqDiff seq r.expectedSeq).toInt)
    (hm : r.currentMemoryUsage + payload.length < 2 ^ 64) :
    r.placeSegment seq payload (seqDiff seq r.expectedSeq) =
      if r.currentMemoryUsage + payload.length > r.config.maxBufferBytes then (r.fail, false)
      else r.insertOutOfOrder seq payload := by
  rw [placeSegment, sizeAdd_eq hm, if_neg h.ne']

theorem bufferSegment_stored_iff (h : Ordered r) (hi : r.expectedSeqInitialized = true)
    (hf : r.failed = false) {seq : UInt32} {payload : List UInt8} (hp : payload ≠ [])
    (hahead : 0 < (seqDiff seq r.expectedSeq).toInt) (hsize : payload.length ≤ 65535)
    (hlimit : r.config.maxBufferBytes < 2 ^ 31) (hat : payload.length ≤ r.storedAt seq) :
    (r.bufferSegment seq payload).1 = r ↔
      r.currentMemoryUsage + payload.length ≤ r.config.maxBufferBytes := by
  obtain ⟨-, hlt⟩ := serialDiff_pos_iff.mp hahead
  have hmax := h.le_max
  rw [bufferSegment_ahead hi hf hp hahead, placeSegment_ahead hahead (by omega)]
  by_cases hfull : r.currentMemoryUsage + payload.length > r.config.maxBufferBytes
  · have hne : r.fail ≠ r := fun heq => absurd (congrArg failed heq) (by simp [fail, hf])
    rw [if_pos hfull]
    exact iff_of_false hne (Nat.not_le.mpr hfull)
  · obtain ⟨l₁, l₂, -, -, -, -, heq⟩ := insertOutOfOrder_eq h hp hlt (by omega)
    rw [if_neg hfull, heq, if_pos hat]
    exact iff_of_true rfl (Nat.not_lt.mp hfull)

theorem placeSegment_twice_iff (h : Ordered r) (hi : r.expectedSeqInitialized = true)
    (hf : r.failed = false) {seq : UInt32} {payload : List UInt8} (hp : payload ≠ [])
    (hahead : 0 < (seqDiff seq r.expectedSeq).toInt) (hsize : payload.length ≤ 65535)
    (hlimit : r.config.maxBufferBytes < 2 ^ 31) :
    (((r.placeSegment seq payload (seqDiff seq r.expectedSeq)).1.bufferSegment seq payload).1 =
      (r.placeSegment seq payload (seqDiff seq r.expectedSeq)).1) ↔
    ¬ r.StoredWithoutRoom seq payload := by
  obtain ⟨hpos, hlt⟩ := serialDiff_pos_iff.mp hahead
  have hinit : r.initExpectedSeq seq = r := if_pos hi
  have hmax := h.le_max
  have hstored := h.stored_le
  have hplace : r.placeSegment seq payload (seqDiff seq r.expectedSeq) = _ :=
    placeSegment_ahead hahead (by omega)
  simp only [StoredWithoutRoom, hf, hinit, hahead, true_and]
  by_cases hfull : r.currentMemoryUsage + payload.length > r.config.maxBufferBytes
  · rw [hplace, if_pos hfull, bufferSegment_of_failed rfl]
    simp only [true_iff]
    omega
  · rw [hplace, if_neg hfull]
    obtain ⟨l₁, l₂, hsub, h₁, h₂, hbytes, heq⟩ := insertOutOfOrder_eq h hp hlt (by omega)
    have hord := insertOutOfOrder_ordered h hi hp hpos hlt (by omega) hlimit
    rw [heq] at hord ⊢
    by_cases hdup : payload.length ≤ r.storedAt seq
    · rw [if_pos hdup, bufferSegment_stored_iff h hi hf hp hahead hsize hlimit hdup]
      omega
    · rw [if_neg hdup] at hord ⊢
      dsimp only at hord ⊢
      generalize hr₁ : ({ r with
        outOfOrder := l₁ ++ ⟨seq, payload⟩ :: l₂
        currentMemoryUsage := r.currentMemoryUsage - r.storedAt seq + payload.length } :
          TCPReassembler) = r₁ at hord ⊢
      have hi₁ : r₁.expectedSeqInitialized = true := hr₁ ▸ hi
      have hf₁ : r₁.failed = false := hr₁ ▸ hf
      have hexp : r₁.expectedSeq = r.expectedSeq := by rw [← hr₁]
      have hmem : r₁.currentMemoryUsage =
        r.currentMemoryUsage - r.storedAt seq + payload.length := by rw [← hr₁]
      have hconfig : r₁.config = r.config := by rw [← hr₁]
      have hout : r₁.outOfOrder = l₁ ++ ⟨seq, payload⟩ :: l₂ := by rw [← hr₁]
      have hat : r₁.storedAt seq = payload.length := by
        refine storedAt_of_mem hout ?_ rfl
        rintro t ht rfl
        exact (h₁ t ht).false
      rw [← hexp] at hahead
      rw [bufferSegment_stored_iff hord hi₁ hf₁ hp hahead hsize (hconfig ▸ hlimit) hat.ge, hmem,
        hconfig]
      omega

theorem placeSegment_behind_twice (h : Ordered r) (hi : r.expectedSeqInitialized = true)
    {seq : UInt32} {payload : List UInt8} (hp : payload ≠ []) {k : ℕ}
    (he : r.expectedSeq = seq + .ofNat k) (hk : k < payload.length)
    (hsize : payload.length ≤ 65535) (hlimit : r.config.maxBufferBytes + 65535 < 2 ^ 31) :
    ((r.placeSegment r.expectedSeq (payload.drop k) 0).1.bufferSegment seq payload).1 =
      (r.placeSegment r.expectedSeq (payload.drop k) 0).1 := by
  have hm := h.le_max
  have hlen : (payload.drop k).length = payload.length - k := List.length_drop
  have hzero : Int32.toInt 0 = 0 := by decide
  have hframe := placeSegment_frame r r.expectedSeq (payload.drop k) 0
  rw [placeSegment, sizeAdd_eq (by omega), if_pos hzero] at hframe ⊢
  split_ifs at hframe ⊢ with hfull
  · exact bufferSegment_of_failed rfl seq payload
  · have hroom : r.currentMemoryUsage + (payload.drop k).length ≤ r.config.maxBufferBytes :=
      not_lt.mp hfull
    cases hfail : (r.appendContiguous (payload.drop k)).failed with
    | true => exact bufferSegment_of_failed hfail seq payload
    | false =>
      -- the buffer holds the rest of the segment, and maybe stored segments after it
      rcases (appendContiguous_ordered h hi hroom (by omega)).2 with hf | ⟨n, hn, hnmax, hexp⟩
      · exact absurd (hfail.symm.trans hf) (by decide)
      · rw [he, add_ofNat_add] at hexp
        rw [bufferSegment_behind (hframe.2.trans hi) hfail hp (by omega) hexp, if_pos (by omega)]

theorem bufferSegment_twice_iff (h : Ordered r) (seq : UInt32)
    {payload : List UInt8} (hp : payload ≠ []) (hsize : payload.length ≤ 65535)
    (hlimit : r.config.maxBufferBytes + 65535 < 2 ^ 31) :
    ((r.bufferSegment seq payload).1.bufferSegment seq payload).1 =
      (r.bufferSegment seq payload).1 ↔ ¬ r.StoredWithoutRoom seq payload := by
  cases hf : r.failed with
  | true =>
    have hsame := bufferSegment_of_failed hf seq payload
    simp [hsame, StoredWithoutRoom, hf]
  | false =>
    obtain ⟨hi, hf', hmax⟩ := initExpectedSeq_frame r seq
    rw [hf] at hf'
    rw [← hmax] at hlimit
    rw [bufferSegment_initExpectedSeq hf hp, ← storedWithoutRoom_initExpectedSeq]
    have hord := h.initExpectedSeq seq
    generalize r.initExpectedSeq seq = r₀ at hi hf' hlimit hord
    have hinit : r₀.initExpectedSeq seq = r₀ := if_pos hi
    rcases bufferSegment_cases hi hf' seq hp (by omega) with
      ⟨hahead, heq⟩ | ⟨hbehind, heq | ⟨k, hk, he, heq⟩⟩
    · rw [heq]
      exact placeSegment_twice_iff hord hi hf' hp hahead hsize (by omega)
    · rw [heq, heq, StoredWithoutRoom, hinit]
      simp only [true_iff]
      omega
    · have hnot : ¬ r₀.StoredWithoutRoom seq payload := by
        rintro ⟨-, hpos, -⟩
        rw [hinit] at hpos
        omega
      rw [iff_true_right hnot, heq]
      exact placeSegment_behind_twice hord hi hp he hk hsize hlimit

theorem call_ordered (h : Ordered r) (hlimit : r.config.maxBufferBytes < 2 ^ 31) (c : Call) :
    Ordered (r.call c) ∧ (r.call c).config = r.config := by
  cases c with
  | clear => exact ⟨ordered_clear r, rfl⟩
  | tryExtractSNI seq payload =>
    rw [call, tryExtractSNI_fst]
    have hsize := payload.length_le
    exact ⟨bufferSegment_ordered h seq (by omega) hlimit, (bufferSegment_frame r _ _).1⟩

theorem run_ordered (h : Ordered r) (hlimit : r.config.maxBufferBytes < 2 ^ 31)
    (calls : List Call) :
    Ordered (calls.foldl call r) ∧ (calls.foldl call r).config = r.config := by
  induction calls generalizing r with
  | nil => exact ⟨h, rfl⟩
  | cons c calls ih =>
    obtain ⟨hc, hconfig⟩ := call_ordered h hlimit c
    obtain ⟨hord, hrun⟩ := ih hc (hconfig.symm ▸ hlimit)
    exact ⟨hord, hrun.trans hconfig⟩

/--
In every reachable state a segment that comes twice leaves the state as it is after the first
time, unless it waits beyond a gap and the limit has no room for it a second time. The limit is
less than half the sequence numbers; the callers leave it at its default of 16384.
-/
theorem retransmission_iff {config : ReassemblerConfig}
    (hlimit : config.maxBufferBytes + 65535 < 2 ^ 31) (calls : List Call) (seq : UInt32)
    {payload : Payload} (hne : payload.bytes ≠ []) :
    (((calls.foldl call (fresh config)).call (.tryExtractSNI seq payload)).call
        (.tryExtractSNI seq payload) =
      (calls.foldl call (fresh config)).call (.tryExtractSNI seq payload)) ↔
    ¬ (calls.foldl call (fresh config)).StoredWithoutRoom seq payload.bytes := by
  obtain ⟨hord, hconfig⟩ := run_ordered (ordered_fresh config)
    (show config.maxBufferBytes < 2 ^ 31 by omega) calls
  simp only [call, tryExtractSNI_fst]
  refine bufferSegment_twice_iff hord seq hne payload.length_le ?_
  rw [hconfig]
  exact hlimit

theorem retransmission_iff_inOrder :
    ((fresh {}).call (.tryExtractSNI 7 ⟨[1, 2, 3], by decide⟩)).call
        (.tryExtractSNI 7 ⟨[1, 2, 3], by decide⟩) =
      (fresh {}).call (.tryExtractSNI 7 ⟨[1, 2, 3], by decide⟩) ↔
    ¬ (fresh {}).StoredWithoutRoom 7 [1, 2, 3] :=
  retransmission_iff (by decide) [] 7 (by decide)

theorem failed_of_stored {p : Payload} (hp : p.bytes.length = 9000) :
    (((fresh {}).call (.tryExtractSNI 0 ⟨[0], by decide⟩)).call (.tryExtractSNI 10 p)).failed =
        false ∧
      ((((fresh {}).call (.tryExtractSNI 0 ⟨[0], by decide⟩)).call (.tryExtractSNI 10 p)).call
        (.tryExtractSNI 10 p)).failed = true := by
  have hp' : p.bytes ≠ [] := by rintro h; simp [h] at hp
  have h₁ : (fresh {}).call (.tryExtractSNI 0 ⟨[0], by decide⟩) =
      { buffer := [0], expectedSeq := 1, expectedSeqInitialized := true
        currentMemoryUsage := 1 } := by decide
  have hd : (seqDiff 10 1).toInt = 9 := by decide
  have h₂ : call { buffer := [0], expectedSeq := 1, expectedSeqInitialized := true
                   currentMemoryUsage := 1 } (.tryExtractSNI 10 p) =
      { buffer := [0], expectedSeq := 1, expectedSeqInitialized := true
        outOfOrder := [⟨10, p.bytes⟩], currentMemoryUsage := 9001 } := by
    simp [call, bufferSegment, initExpectedSeq, placeSegment, hd, sizeAdd, hp, hp',
      insertOutOfOrder, Search.lowerBound, Search.halving]
  rw [h₁, h₂]
  refine ⟨rfl, ?_⟩
  simp [call, bufferSegment, initExpectedSeq, placeSegment, hd, sizeAdd, hp, hp', fail]

theorem failed_of_stored_zeros :
    (((fresh {}).call (.tryExtractSNI 0 ⟨[0], by decide⟩)).call (.tryExtractSNI 10
      ⟨List.replicate 9000 0, List.length_replicate.le.trans (by decide)⟩)).failed ≠
    ((((fresh {}).call (.tryExtractSNI 0 ⟨[0], by decide⟩)).call (.tryExtractSNI 10
      ⟨List.replicate 9000 0, List.length_replicate.le.trans (by decide)⟩)).call
        (.tryExtractSNI 10
          ⟨List.replicate 9000 0, List.length_replicate.le.trans (by decide)⟩)).failed := by
  rw [(failed_of_stored List.length_replicate).1, (failed_of_stored List.length_replicate).2]
  decide

end TCPReassembler

end DpiEngine
