import Mathlib.Data.Set.Lattice
import Mathlib.Order.Bounds.Basic
import Mathlib.Order.Interval.Set.Basic
import Mathlib.Tactic.Ring

/-! # Spans and contiguous prefixes

A receiver of a byte stream holds the contiguous prefix it has seen and the
spans beyond the first gap. Delivering a span adds exactly its offsets, so the
length of the prefix is the greatest number below which nothing is missing.
-/

namespace Coverage

/-- A nonempty interval of stream offsets is given by its start and its length. -/
structure Span where
  start : ℕ
  len : ℕ
  deriving DecidableEq, Repr

namespace Span

def stop (s : Span) : ℕ := s.start + s.len

def offsets (s : Span) : Set ℕ := {i | s.start ≤ i ∧ i < s.stop}

@[simp] theorem mem_offsets {s : Span} {i : ℕ} : i ∈ s.offsets ↔ s.start ≤ i ∧ i < s.stop := .rfl

end Span

def covered (l : List Span) : Set ℕ := {i | ∃ s ∈ l, i ∈ s.offsets}

@[simp] theorem covered_nil : covered [] = ∅ := by simp [covered]

@[simp] theorem covered_cons (s : Span) (l : List Span) :
    covered (s :: l) = s.offsets ∪ covered l := by
  ext i; simp [covered]

theorem covered_perm {l l' : List Span} (h : l.Perm l') : covered l = covered l' := by
  ext i
  constructor
  · rintro ⟨s, hs, hi⟩
    exact ⟨s, h.mem_iff.mp hs, hi⟩
  · rintro ⟨s, hs, hi⟩
    exact ⟨s, h.mem_iff.mpr hs, hi⟩

/-- Below `n` nothing is missing from `D`, and `n` is the greatest such number. -/
def PrefixLength (D : Set ℕ) (n : ℕ) : Prop := IsGreatest {m | ∀ i < m, i ∈ D} n

theorem prefixLength_of_gap {D : Set ℕ} {n : ℕ} (h : ∀ i < n, i ∈ D) (hn : n ∉ D) :
    PrefixLength D n :=
  ⟨h, fun _ hm => Nat.le_of_not_lt fun hlt => hn (hm n hlt)⟩

/-- Consume the leading spans that touch the prefix of length `n`. -/
def absorb : ℕ → List Span → ℕ × List Span
  | n, [] => (n, [])
  | n, s :: l => if s.start ≤ n then absorb (max n s.stop) l else (n, s :: l)

theorem absorb_suffix (n : ℕ) (l : List Span) : (absorb n l).2 <:+ l := by
  induction l generalizing n with
  | nil => exact List.suffix_rfl
  | cons s l ih =>
    unfold absorb
    split_ifs
    · exact (ih _).trans (List.suffix_cons _ _)
    · exact List.suffix_rfl

theorem absorb_beyond {n : ℕ} {l : List Span} (hl : l.Pairwise (·.start < ·.start)) :
    ∀ s ∈ (absorb n l).2, (absorb n l).1 < s.start := by
  induction l generalizing n with
  | nil => simp [absorb]
  | cons s l ih =>
    obtain ⟨hs, hl⟩ := List.pairwise_cons.mp hl
    unfold absorb
    split_ifs with h
    · exact ih hl
    · rintro t ht
      rcases List.mem_cons.mp ht with rfl | ht
      · omega
      · have := hs t ht; simp only; omega

theorem absorb_covers (n : ℕ) (l : List Span) :
    {i | i < (absorb n l).1} ∪ covered (absorb n l).2 = {i | i < n} ∪ covered l := by
  induction l generalizing n with
  | nil => rfl
  | cons s l ih =>
    unfold absorb
    split_ifs with h
    · rw [ih, covered_cons, ← Set.union_assoc]
      congr 1
      ext i
      simp only [Set.mem_union, Set.mem_ofPred_eq, Span.mem_offsets, Span.stop]
      omega
    · rfl

/-- Insert a span by its start; of two spans with one start the longer is kept. -/
def insertSpan (s : Span) : List Span → List Span
  | [] => [s]
  | t :: l =>
    if t.start < s.start then t :: insertSpan s l
    else if t.start = s.start then (if s.len ≤ t.len then t :: l else s :: l)
    else s :: t :: l

theorem mem_insertSpan {s t : Span} {l : List Span} (h : t ∈ insertSpan s l) : t = s ∨ t ∈ l := by
  induction l with
  | nil => simpa [insertSpan] using h
  | cons u l ih =>
    unfold insertSpan at h
    split_ifs at h <;> simp only [List.mem_cons] at h ⊢ <;> tauto

theorem insertSpan_sorted {s : Span} {l : List Span} (hl : l.Pairwise (·.start < ·.start)) :
    (insertSpan s l).Pairwise (·.start < ·.start) := by
  induction l with
  | nil => simp [insertSpan]
  | cons t l ih =>
    obtain ⟨ht, hl⟩ := List.pairwise_cons.mp hl
    unfold insertSpan
    split_ifs with h h' h''
    · refine List.pairwise_cons.mpr ⟨fun u hu => ?_, ih hl⟩
      rcases mem_insertSpan hu with rfl | hu
      · exact h
      · exact ht u hu
    · exact List.pairwise_cons.mpr ⟨ht, hl⟩
    · exact List.pairwise_cons.mpr ⟨fun u hu => h' ▸ ht u hu, hl⟩
    · refine List.pairwise_cons.mpr ⟨fun u hu => ?_, List.pairwise_cons.mpr ⟨ht, hl⟩⟩
      rcases List.mem_cons.mp hu with rfl | hu
      · omega
      · have := ht u hu; omega

theorem covered_insertSpan (s : Span) (l : List Span) :
    covered (insertSpan s l) = s.offsets ∪ covered l := by
  induction l with
  | nil => simp [insertSpan]
  | cons t l ih =>
    unfold insertSpan
    split_ifs with h h' h''
    · rw [covered_cons, covered_cons, ih, Set.union_left_comm]
    · rw [covered_cons, ← Set.union_assoc]
      congr 1
      ext i; simp only [Set.mem_union, Span.mem_offsets, Span.stop]; omega
    · rw [covered_cons, covered_cons, ← Set.union_assoc]
      congr 1
      ext i; simp only [Set.mem_union, Span.mem_offsets, Span.stop]; omega
    · rw [covered_cons]

theorem insertSpan_append {s : Span} {l₁ l₂ : List Span} (h : ∀ t ∈ l₁, t.start < s.start) :
    insertSpan s (l₁ ++ l₂) = l₁ ++ insertSpan s l₂ := by
  induction l₁ with
  | nil => rfl
  | cons t l ih =>
    rw [List.cons_append, insertSpan, if_pos (h t (by simp)), ih fun u hu => h u (by simp [hu]),
      List.cons_append]

/-- The bytes of a stream in a span. -/
def slice {α : Type*} (S : List α) (s : Span) : List α := (S.drop s.start).take s.len

theorem length_slice {α : Type*} {S : List α} {s : Span} (h : s.stop ≤ S.length) :
    (slice S s).length = s.len := by
  unfold Span.stop at h
  simp [slice]; omega

theorem slice_ne_nil {α : Type*} {S : List α} {s : Span} (h : s.stop ≤ S.length)
    (hpos : 0 < s.len) : slice S s ≠ [] := by
  rw [← List.length_pos_iff, length_slice h]
  exact hpos

theorem take_append_drop_slice {α : Type*} {S : List α} {s : Span} {n : ℕ} (h : s.start ≤ n)
    (hn : n ≤ s.stop) : S.take n ++ (slice S s).drop (n - s.start) = S.take s.stop := by
  have hs : s.start + (n - s.start) = n := by omega
  rw [slice, List.drop_take, List.drop_drop, hs, ← List.take_add]
  unfold Span.stop at *
  congr 1; omega

def Span.clip (a : ℕ) (s : Span) : Span := ⟨s.start - a, s.stop - max a s.start⟩

@[simp] theorem Span.stop_clip (a : ℕ) (s : Span) : (s.clip a).stop = s.stop - a := by
  simp only [clip, stop]
  omega

theorem slice_clip {α : Type*} (S : List α) (a : ℕ) (s : Span) :
    slice (S.drop a) (s.clip a) = (slice S s).drop (a - s.start) := by
  have hstart : a + (s.start - a) = s.start + (a - s.start) := by omega
  have hlen : s.stop - max a s.start = s.len - (a - s.start) := by
    unfold Span.stop
    omega
  rw [slice, slice, Span.clip, List.drop_drop, List.drop_take, List.drop_drop, hstart, hlen]

/-- A receiver: the contiguous prefix seen so far and the sorted spans beyond its gap. -/
structure Receiver where
  next : ℕ
  held : List Span
  sorted : held.Pairwise (·.start < ·.start)
  beyond : ∀ s ∈ held, next < s.start

namespace Receiver

def empty : Receiver := ⟨0, [], .nil, by simp⟩

/-- The offsets received so far. -/
def received (r : Receiver) : Set ℕ := {i | i < r.next} ∪ covered r.held

/-- Receive one span: a duplicate, an extension of the prefix, or a span beyond a gap. -/
def deliver (r : Receiver) (s : Span) : Receiver :=
  if s.stop ≤ r.next then r
  else if h : s.start ≤ r.next then
    ⟨(absorb s.stop r.held).1, (absorb s.stop r.held).2,
      r.sorted.sublist (absorb_suffix _ _).sublist, absorb_beyond r.sorted⟩
  else
    ⟨r.next, insertSpan s r.held, insertSpan_sorted r.sorted, fun t ht => by
      rcases mem_insertSpan ht with rfl | ht
      · omega
      · exact r.beyond t ht⟩

@[simp] theorem received_empty : empty.received = ∅ := by
  simp [received, empty]

theorem received_deliver (r : Receiver) (s : Span) :
    (r.deliver s).received = r.received ∪ s.offsets := by
  unfold deliver
  split_ifs with h h'
  · have hs : s.offsets ⊆ r.received := fun i hi => Or.inl (lt_of_lt_of_le hi.2 h)
    exact (Set.union_eq_left.mpr hs).symm
  · have hs : {i | i < s.stop} = {i | i < r.next} ∪ s.offsets := by
      ext i
      simp only [Set.mem_union, Set.mem_ofPred_eq, Span.mem_offsets]
      omega
    simp only [received]
    rw [absorb_covers, hs]
    ac_rfl
  · simp only [received, covered_insertSpan]
    ac_rfl

theorem received_foldl (l : List Span) (r : Receiver) :
    (l.foldl deliver r).received = r.received ∪ covered l := by
  induction l generalizing r with
  | nil => simp
  | cons s l ih => rw [List.foldl_cons, ih, received_deliver, covered_cons, Set.union_assoc]

/-- The prefix of a receiver ends at the first missing offset. -/
theorem prefixLength_next (r : Receiver) : PrefixLength r.received r.next := by
  refine prefixLength_of_gap (fun i hi => Or.inl hi) ?_
  rintro (h | ⟨s, hs, h, -⟩)
  · exact Nat.lt_irrefl _ h
  · exact absurd (r.beyond s hs) (by omega)

end Receiver

end Coverage
