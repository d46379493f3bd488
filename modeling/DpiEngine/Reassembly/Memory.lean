import DpiEngine.Library.Runs
import Mathlib.Algebra.BigOperators.Group.List.Basic
import DpiEngine.Reassembly.Model

/-! # The memory bound of a reassembler

The aggregate limit is enforced through a counter. The counter agrees with the
bytes held as long as no call closes a gap: a merge subtracts the whole stored
segment but does not add the bytes it moves to the contiguous buffer.
-/

namespace DpiEngine

open Machine

/-- The segment starts at or before `e` and has bytes from `e` on. -/
def Segment.Reaches (s : Segment) (e : UInt32) : Prop :=
  (seqDiff s.seq e).toInt ≤ 0 ∧ sizeOfInt32 (-seqDiff s.seq e) < s.data.length

instance (s : Segment) (e : UInt32) : Decidable (s.Reaches e) :=
  inferInstanceAs (Decidable (_ ∧ _))

/-- A TCP payload of at most 65535 bytes. -/
structure Payload where
  bytes : List UInt8
  length_le : bytes.length ≤ 65535

namespace TCPReassembler

variable {r : TCPReassembler}

inductive Call
  | tryExtractSNI (seq : UInt32) (payload : Payload)
  | clear

def call (r : TCPReassembler) : Call → TCPReassembler
  | .tryExtractSNI seq payload => (r.tryExtractSNI seq payload.bytes).1
  | .clear => r.clear

def storedBytes (l : List Segment) : ℕ := (l.map fun s => s.data.length).sum

@[simp] theorem storedBytes_nil : storedBytes [] = 0 := rfl

@[simp] theorem storedBytes_cons (s : Segment) (l : List Segment) :
    storedBytes (s :: l) = s.data.length + storedBytes l := by
  simp [storedBytes]

@[simp] theorem storedBytes_append (l l' : List Segment) :
    storedBytes (l ++ l') = storedBytes l + storedBytes l' := by
  simp [storedBytes]

/-- The bytes a reassembler holds: the contiguous buffer and the stored segments. -/
def heldBytes (r : TCPReassembler) : ℕ := r.buffer.length + storedBytes r.outOfOrder

/--
A call closes a gap if it appends bytes up to a stored segment that has more: the segment
brings new bytes, none are missing before them, and a stored segment reaches over their end.
-/
def ClosesGap (r : TCPReassembler) : Call → Prop
  | .tryExtractSNI seq payload =>
    let e := (r.initExpectedSeq seq).expectedSeq
    (seqDiff seq e).toInt ≤ 0 ∧ sizeOfInt32 (-seqDiff seq e) < payload.bytes.length ∧
      ∃ s ∈ r.outOfOrder, s.Reaches (seq + .ofNat payload.bytes.length)
  | .clear => False

instance (r : TCPReassembler) : (c : Call) → Decidable (r.ClosesGap c)
  | .tryExtractSNI _ _ => @instDecidableAnd _ _ inferInstance inferInstance
  | .clear => isFalse id

/-- The counter is exact and within the limit. -/
structure Accounted (r : TCPReassembler) : Prop where
  config : r.config = {}
  exact : r.currentMemoryUsage = r.heldBytes
  le_max : r.currentMemoryUsage ≤ r.config.maxBufferBytes

theorem Accounted.clear (h : Accounted r) : Accounted r.clear :=
  ⟨h.config, rfl, Nat.zero_le _⟩

theorem Accounted.fail (h : Accounted r) : Accounted r.fail :=
  ⟨h.config, rfl, Nat.zero_le _⟩

/-- Without a segment that reaches over the expected number the merge only drops duplicates. -/
theorem mergeLoop_accounted {l : List Segment} (hc : r.config = {})
    (hu : r.currentMemoryUsage = r.buffer.length + storedBytes l)
    (hm : r.currentMemoryUsage ≤ r.config.maxBufferBytes)
    (hl : ∀ s ∈ l, ¬ s.Reaches r.expectedSeq) : Accounted (r.mergeLoop l) := by
  have hmax : r.config.maxBufferBytes = 16384 := by rw [hc]
  induction l generalizing r with
  | nil => exact ⟨hc, hu, hm⟩
  | cons s l ih =>
    obtain ⟨hs, hl⟩ := List.forall_mem_cons.mp hl
    rw [storedBytes_cons] at hu
    unfold mergeLoop
    by_cases h : (seqDiff s.seq r.expectedSeq).toInt ≤ 0
    · have hdup : ¬ sizeOfInt32 (-seqDiff s.seq r.expectedSeq) < s.data.length :=
        fun h' => hs ⟨h, h'⟩
      simp only [h, hdup, if_true, if_false]
      have hsub := sizeSub_eq (a := r.currentMemoryUsage) (b := s.data.length)
        (by omega)
      refine ih hc ?_ ?_ hl hmax
      · simp only [hsub]; omega
      · simp only [hsub]; omega
    · simp only [h, if_false]
      exact ⟨hc, by simpa [heldBytes] using hu, hm⟩

theorem appendContiguous_accounted (h : Accounted r) {payload : List UInt8}
    (hm : r.currentMemoryUsage + payload.length ≤ r.config.maxBufferBytes)
    (hl : ∀ s ∈ r.outOfOrder, ¬ s.Reaches (r.expectedSeq + .ofNat payload.length)) :
    Accounted (r.appendContiguous payload) := by
  have hmax : r.config.maxBufferBytes = 16384 := by rw [h.config]
  have hadd := sizeAdd_eq (a := r.currentMemoryUsage) (b := payload.length) (by omega)
  have hx := h.exact
  refine mergeLoop_accounted h.config ?_ (by simp only [hadd]; exact hm) hl
  simp only [hadd, List.length_append, heldBytes] at hx ⊢
  omega

theorem storedBytes_insertIdx {l : List Segment} {i : ℕ} (hi : i ≤ l.length) (s : Segment) :
    storedBytes (l.insertIdx i s) = s.data.length + storedBytes l := by
  have hp := ((List.perm_insertIdx s l hi).map fun s => s.data.length).sum_eq
  rw [storedBytes, hp, ← storedBytes, storedBytes_cons]

theorem storedBytes_split {l : List Segment} {i : ℕ} {old : Segment} (h : l[i]? = some old) :
    storedBytes l = storedBytes (l.take i) + (old.data.length + storedBytes (l.drop (i + 1))) := by
  obtain ⟨hi, rfl⟩ := List.getElem?_eq_some_iff.mp h
  calc storedBytes l = storedBytes (l.take i ++ l[i] :: l.drop (i + 1)) := by simp
    _ = _ := by rw [storedBytes_append, storedBytes_cons]

theorem storedBytes_set {l : List Segment} {i : ℕ} {old : Segment} (h : l[i]? = some old)
    (s : Segment) : storedBytes (l.set i s) =
      storedBytes (l.take i) + (s.data.length + storedBytes (l.drop (i + 1))) := by
  obtain ⟨hi, rfl⟩ := List.getElem?_eq_some_iff.mp h
  rw [List.set_eq_take_append_cons_drop, if_pos hi]
  simp

theorem insertOutOfOrder_accounted (h : Accounted r) {seq : UInt32} {payload : List UInt8}
    (hm : r.currentMemoryUsage + payload.length ≤ r.config.maxBufferBytes) :
    Accounted (r.insertOutOfOrder seq payload).1 := by
  have hmax : r.config.maxBufferBytes = 16384 := by rw [h.config]
  have hadd := sizeAdd_eq (a := r.currentMemoryUsage) (b := payload.length) (by omega)
  have hx := h.exact
  have hle := Search.lowerBound_le Segment.lt r.outOfOrder ⟨seq, payload⟩
  have hins := storedBytes_insertIdx hle ⟨seq, payload⟩
  unfold insertOutOfOrder
  dsimp only
  split
  case h_1 old hold =>
    have hset := storedBytes_set hold ⟨seq, payload⟩
    have hsplit := storedBytes_split hold
    unfold heldBytes at hx
    have hsub := sizeSub_eq (a := r.currentMemoryUsage) (b := old.data.length)
      (by omega)
    have hadd' := sizeAdd_eq (a := r.currentMemoryUsage - old.data.length) (b := payload.length)
      (by omega)
    split_ifs with hseq hlen
    · exact h
    · refine ⟨h.config, ?_, ?_⟩
      · simp only [heldBytes, hsub, hadd', hset]; omega
      · simp only [hsub, hadd']; omega
    · refine ⟨h.config, ?_, ?_⟩
      · simp only [heldBytes, hadd, hins]; omega
      · simp only [hadd]; omega
  case h_2 =>
    unfold heldBytes at hx
    refine ⟨h.config, ?_, ?_⟩
    · simp only [heldBytes, hadd, hins]; omega
    · simp only [hadd]; omega

theorem placeSegment_accounted (h : Accounted r) {seq : UInt32} {payload : List UInt8}
    {diff : Int32} (hp : payload.length ≤ 65535)
    (hl : diff.toInt = 0 →
      ∀ s ∈ r.outOfOrder, ¬ s.Reaches (r.expectedSeq + .ofNat payload.length)) :
    Accounted (r.placeSegment seq payload diff).1 := by
  have hmax : r.config.maxBufferBytes = 16384 := by rw [h.config]
  have hu := h.le_max
  have hadd := sizeAdd_eq (a := r.currentMemoryUsage) (b := payload.length) (by omega)
  unfold placeSegment
  split_ifs with hmem hz
  · exact h.fail
  · exact appendContiguous_accounted h (by omega) (hl hz)
  · exact insertOutOfOrder_accounted h (by omega)

theorem initExpectedSeq_accounted (h : Accounted r) (seq : UInt32) :
    Accounted (r.initExpectedSeq seq) := by
  unfold initExpectedSeq
  split_ifs
  · exact h
  · exact ⟨h.config, h.exact, h.le_max⟩

@[simp] theorem initExpectedSeq_outOfOrder (seq : UInt32) :
    (r.initExpectedSeq seq).outOfOrder = r.outOfOrder := by
  unfold initExpectedSeq; split_ifs <;> rfl

theorem call_accounted (h : Accounted r) {c : Call} (hc : ¬ r.ClosesGap c) :
    Accounted (r.call c) := by
  cases c with
  | clear => exact h.clear
  | tryExtractSNI seq payload =>
    simp only [call, tryExtractSNI_fst, bufferSegment]
    split_ifs with h₁ h₂ h₃
    · exact h
    · exact initExpectedSeq_accounted h seq
    · have hlen := payload.length_le
      have hnew := Nat.lt_of_not_ge h₃
      refine placeSegment_accounted (initExpectedSeq_accounted h seq) ?_ fun _ s hs hr => ?_
      · rw [List.length_drop]; omega
      · have he := add_sizeOfInt32_neg_serialDiff (by exact h₂.le)
          (by exact lt_trans hnew (by omega))
        refine hc ⟨h₂.le, hnew, s, by simpa using hs, ?_⟩
        have hadd := add_ofNat_add seq
          (sizeOfInt32 (-seqDiff seq (r.initExpectedSeq seq).expectedSeq))
          (payload.bytes.length - sizeOfInt32 (-seqDiff seq (r.initExpectedSeq seq).expectedSeq))
        rw [Nat.add_sub_cancel' hnew.le] at hadd
        rw [← hadd]
        unfold seqDiff at *
        rw [he]
        rwa [List.length_drop] at hr
    · refine placeSegment_accounted (initExpectedSeq_accounted h seq) payload.length_le
        fun hz s hs hr => ?_
      have hnew : 0 < payload.bytes.length := List.length_pos_iff.mpr (by simp_all)
      have he := eq_of_serialDiff_eq_zero hz
      have hz' := sizeOfInt32_neg_of_eq_zero hz
      exact hc ⟨hz.le, hz'.symm ▸ hnew, s, by simpa using hs, he ▸ hr⟩

/--
While no call closes a gap the bytes held stay within the limit, whatever the sequence
numbers and the payloads.
-/
theorem heldBytes_le_max {calls : List Call}
    (h : Run (fun r c r' => ¬ r.ClosesGap c ∧ r' = r.call c) (fresh {}) calls r) :
    r.heldBytes ≤ r.config.maxBufferBytes := by
  have hf : Accounted (fresh {}) := ⟨rfl, rfl, Nat.zero_le _⟩
  have hr := h.invariant (I := Accounted) (fun hr ⟨hc, he⟩ => he ▸ call_accounted hr hc) hf
  exact hr.exact ▸ hr.le_max

def gapStays : List Call :=
  [.tryExtractSNI 7 ⟨[1, 2, 3], by decide⟩, .tryExtractSNI 12 ⟨[4], by decide⟩,
    .tryExtractSNI 12 ⟨[4, 5], by decide⟩, .tryExtractSNI 9 ⟨[3, 6], by decide⟩]

theorem heldBytes_le_max_gap : ∃ r : TCPReassembler,
    Run (fun r c r' => ¬ r.ClosesGap c ∧ r' = r.call c) (fresh {}) gapStays r ∧
      r.buffer = [1, 2, 3, 6] ∧ r.outOfOrder = [⟨12, [4, 5]⟩] ∧
      r.heldBytes ≤ r.config.maxBufferBytes := by
  have hrun : ∃ r, Run (fun r c r' => ¬ r.ClosesGap c ∧ r' = r.call c) (fresh {}) gapStays r ∧
      r.buffer = [1, 2, 3, 6] ∧ r.outOfOrder = [⟨12, [4, 5]⟩] := by
    refine ⟨gapStays.foldl call (fresh {}), .cons ⟨?_, rfl⟩ (.cons ⟨?_, rfl⟩ (.cons ⟨?_, rfl⟩
      (.cons ⟨?_, rfl⟩ (.nil _)))), ?_, ?_⟩
    all_goals decide
  obtain ⟨r, hr, hbuffer, hstored⟩ := hrun
  exact ⟨r, hr, hbuffer, hstored, heldBytes_le_max hr⟩

def overrun (p q : Payload) : List Call :=
  [.tryExtractSNI 0 ⟨[0], by decide⟩, .tryExtractSNI 2 p, .tryExtractSNI 1 ⟨[0], by decide⟩,
    .tryExtractSNI 8194 q]

theorem heldBytes_overrun {p q : Payload} (hp : p.bytes.length = 8192)
    (hq : q.bytes.length = 16000) : ((overrun p q).foldl call (fresh {})).heldBytes = 24194 := by
  have hp' : p.bytes ≠ [] := by rintro h; simp [h] at hp
  have hq' : q.bytes ≠ [] := by rintro h; simp [h] at hq
  have h₁ : (fresh {}).call (.tryExtractSNI 0 ⟨[0], by decide⟩) =
      { buffer := [0], expectedSeq := 1, expectedSeqInitialized := true
        currentMemoryUsage := 1 } := by decide
  have h₂ : call { buffer := [0], expectedSeq := 1, expectedSeqInitialized := true
                   currentMemoryUsage := 1 } (.tryExtractSNI 2 p) =
      { buffer := [0], expectedSeq := 1, expectedSeqInitialized := true
        outOfOrder := [⟨2, p.bytes⟩], currentMemoryUsage := 8193 } := by
    have hd : (seqDiff 2 1).toInt = 1 := by decide
    simp [call, bufferSegment, initExpectedSeq, placeSegment, hd, sizeAdd, hp, hp',
      insertOutOfOrder, Search.lowerBound, Search.halving]
  have h₃ : call { buffer := [0], expectedSeq := 1, expectedSeqInitialized := true
                   outOfOrder := [⟨2, p.bytes⟩], currentMemoryUsage := 8193 }
        (.tryExtractSNI 1 ⟨[0], by decide⟩) =
      mergeLoop { buffer := [0, 0], expectedSeq := 2, expectedSeqInitialized := true
                  outOfOrder := [⟨2, p.bytes⟩], currentMemoryUsage := 8194 }
        [⟨2, p.bytes⟩] := by
    have hd : (seqDiff 1 1).toInt = 0 := by decide
    simp [call, bufferSegment, initExpectedSeq, placeSegment, hd, sizeAdd, appendContiguous,
      mergeOutOfOrder]
  -- the merge subtracts the stored segment and does not count the bytes it moves
  have h₃' : mergeLoop { buffer := [0, 0], expectedSeq := 2, expectedSeqInitialized := true
                         outOfOrder := [⟨2, p.bytes⟩], currentMemoryUsage := 8194 }
        [⟨2, p.bytes⟩] =
      { buffer := [0, 0] ++ p.bytes, expectedSeq := 8194, expectedSeqInitialized := true
        currentMemoryUsage := 2 } := by
    have hd : (seqDiff 2 2).toInt = 0 := by decide
    have hz : sizeOfInt32 (-seqDiff 2 2) = 0 := by decide
    simp only [mergeLoop, hd, hz, hp]
    simp [sizeSub]
  have h₄ : call { buffer := [0, 0] ++ p.bytes, expectedSeq := 8194
                   expectedSeqInitialized := true, currentMemoryUsage := 2 }
        (.tryExtractSNI 8194 q) =
      { buffer := [0, 0] ++ p.bytes ++ q.bytes, expectedSeq := 24194
        expectedSeqInitialized := true, currentMemoryUsage := 16002 } := by
    have hd : (seqDiff 8194 8194).toInt = 0 := by decide
    simp [call, bufferSegment, initExpectedSeq, placeSegment, hd, sizeAdd, hq, hq',
      appendContiguous, mergeOutOfOrder, mergeLoop]
  simp only [overrun, List.foldl_cons, List.foldl_nil]
  rw [h₁, h₂, h₃, h₃', h₄]
  simp [heldBytes, hp, hq]

/-- The counter misses the merged segment, so 24194 bytes are held under a limit of 16384. -/
theorem heldBytes_exceeds_max :
    ¬ ((overrun ⟨List.replicate 8192 0, List.length_replicate.le.trans (by decide)⟩
      ⟨List.replicate 16000 0, List.length_replicate.le.trans (by decide)⟩).foldl call
        (fresh {})).heldBytes ≤
      (fresh {}).config.maxBufferBytes := by
  rw [heldBytes_overrun List.length_replicate List.length_replicate]
  decide

end TCPReassembler

end DpiEngine
