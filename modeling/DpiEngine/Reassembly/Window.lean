import Mathlib.Data.List.Nodup
import Mathlib.Order.RelIso.Basic
import DpiEngine.Reassembly.Operations
import DpiEngine.Reassembly.Retransmission

/-! # The window of the stored segments

The comparison of sequence numbers is not transitive around the circle. The
stored segments lie ahead of the expected number, in the order of their
distances, so the comparison orders them, and a new segment with them.
-/

namespace DpiEngine

open Machine Logged

def Segment.distance (s : Segment) (e : UInt32) : ℤ := (seqDiff s.seq e).toInt

/-- The segments lie more than `b` from `e`, each before the next. -/
structure Window (b : ℤ) (e : UInt32) (l : List Segment) : Prop where
  above : ∀ s ∈ l, b < s.distance e
  increasing : l.Pairwise (·.distance e < ·.distance e)

variable {b : ℤ} {e : UInt32} {l : List Segment}

theorem distance_eq_offset {s : Segment} (h : offset e s.seq < 2 ^ 31) :
    s.distance e = offset e s.seq := by
  have hself : offset e e < 2 ^ 31 := by rw [offset_self]; decide
  have hd := serialDiff_eq_offset h hself
  rw [offset_self] at hd
  rw [Segment.distance, seqDiff, hd]
  exact sub_zero _

theorem Queued.window (h : Queued e l) : Window 0 e l := by
  have hwait (s) (hs : s ∈ l) := distance_eq_offset (h.ahead s hs).2
  constructor
  · intro s hs
    rw [hwait s hs]
    exact_mod_cast (h.ahead s hs).1
  · refine h.sorted.imp_of_mem fun {s t} hs ht hlt => ?_
    rw [hwait s hs, hwait t ht]
    exact_mod_cast hlt

theorem Window.queued (h : Window 0 e l) : Queued e l := by
  have hahead (s) (hs : s ∈ l) := serialDiff_pos_iff.mp (h.above s hs)
  constructor
  · exact hahead
  · refine h.increasing.imp_of_mem fun {s t} hs ht hlt => ?_
    rw [distance_eq_offset (hahead s hs).2, distance_eq_offset (hahead t ht).2] at hlt
    exact_mod_cast hlt

theorem Window.tail {s : Segment} (h : Window b e (s :: l)) : Window b e l :=
  ⟨(List.forall_mem_cons.mp h.above).2, (List.pairwise_cons.mp h.increasing).2⟩

theorem Window.advance {k : ℕ} (h : Window b e l) (hk : k < 2 ^ 31) (hb : -2 ^ 31 ≤ b - k) :
    Window (b - k) (e + .ofNat k) l := by
  have hshift (s) (hs : s ∈ l) : s.distance (e + .ofNat k) = s.distance e - k := by
    have habove := h.above s hs
    unfold Segment.distance at habove
    exact serialDiff_advance hk (show -2 ^ 31 ≤ (seqDiff s.seq e).toInt - k by omega)
  constructor
  · intro s hs
    have habove := h.above s hs
    rw [hshift s hs]
    omega
  · refine h.increasing.imp_of_mem fun {s t} hs ht hlt => ?_
    rw [hshift s hs, hshift t ht]
    omega

theorem Window.mono {b' : ℤ} (h : Window b e l) (hb : b' ≤ b) : Window b' e l :=
  ⟨fun s hs => hb.trans_lt (h.above s hs), h.increasing⟩

/--
What a search relies on. `operator<` only looks at sequence numbers: it is a strict total order on
those of the stored segments and the new one, and on the stored segments themselves.
-/
structure Searchable (stored : List Segment) (newSeg : Segment) : Prop where
  numbers : IsStrictTotalOrder {q // q ∈ (newSeg :: stored).map Segment.seq}
    fun p q => (seqDiff p.1 q.1).toInt < 0
  segments : IsStrictTotalOrder {s // s ∈ stored} fun s t => s.1.lt t.1 = true

/-- Numbers less than half the circle after `e` are ordered as their distances are. -/
def offsetEmbedding {p : UInt32 → Prop} (hp : ∀ q, p q → offset e q < 2 ^ 31) :
    (fun s t : {q // p q} => (seqDiff s.1 t.1).toInt < 0) ↪r ((· < ·) : ℕ → ℕ → Prop) where
  toFun q := offset e q.1
  inj' := by
    intro s t h
    ext1
    rw [← add_offset e s.1, ← add_offset e t.1]
    exact congrArg (e + .ofNat ·) h
  map_rel_iff' := by
    intro s t
    have h := serialDiff_eq_offset (hp s.1 s.2) (hp t.1 t.2)
    change offset e s.1 < offset e t.1 ↔ (serialDiff s.1 t.1).toInt < 0
    omega

theorem Queued.seq_injective (h : Queued e l) {s t : Segment} (hs : s ∈ l) (ht : t ∈ l)
    (heq : s.seq = t.seq) : s = t := by
  have hdistinct : (l.map (·.seq)).Nodup := by
    refine List.pairwise_map.mpr (h.sorted.imp ?_)
    intro s t hlt heq
    rw [heq] at hlt
    exact hlt.false
  exact List.inj_on_of_nodup_map hdistinct hs ht heq

theorem Queued.searchable (h : Queued e l) {newSeg : Segment} (hpos : 0 < newSeg.distance e) :
    Searchable l newSeg := by
  have hnew := (serialDiff_pos_iff.mp hpos).2
  constructor
  · refine (offsetEmbedding (e := e) fun q hq => ?_).isStrictTotalOrder
    obtain ⟨s, hs, rfl⟩ := List.mem_map.mp hq
    rcases List.mem_cons.mp hs with rfl | hs
    · exact hnew
    · exact (h.ahead s hs).2
  · let toNumber (s : {s // s ∈ l}) : {q // offset e q < 2 ^ 31} :=
      ⟨s.1.seq, (h.ahead s.1 s.2).2⟩
    have hinj : Function.Injective toNumber := by
      intro s t heq
      exact Subtype.ext (h.seq_injective s.2 t.2 (congrArg Subtype.val heq))
    let order : (fun s t : {s // s ∈ l} => s.1.lt t.1 = true) ↪r
        (fun s t : {q // offset e q < 2 ^ 31} => (seqDiff s.1 t.1).toInt < 0) :=
      ⟨⟨toNumber, hinj⟩, by intro s t; exact decide_eq_true_iff.symm⟩
    exact (order.trans (offsetEmbedding fun _ hq => hq)).isStrictTotalOrder

/-- A search is over segments that the comparison orders. -/
def Operation.SearchesOrdered : Operation → Prop
  | .search stored newSeg => Searchable stored newSeg
  | _ => True

namespace TCPReassembler

/-- A call with a payload of any length that an array can have. -/
inductive Invocation
  | tryExtractSNI (seq : UInt32) (payload : {bytes : List UInt8 // bytes.length < 2 ^ 63})
  | clear

def invoke (r : TCPReassembler) : Invocation → TCPReassembler
  | .tryExtractSNI seq payload => (r.tryExtractSNI seq payload.1).1
  | .clear => r.clear

variable {r : TCPReassembler}

theorem mergeLoopLogged_searches (l : List Segment) :
    Always Operation.SearchesOrdered (r.mergeLoopLogged l) := by
  induction l generalizing r with
  | nil => exact always_pure _
  | cons s l ih =>
    refine mergeLoopLogged_cons ?_ ?_ trivial fun _ _ => ih
    · exact fun _ => trivial
    · exact fun _ => trivial

theorem bufferSegmentLogged_searches (h : Ordered r) (seq : UInt32) (payload : List UInt8) :
    Always Operation.SearchesOrdered (r.bufferSegmentLogged seq payload) := by
  refine bufferSegmentLogged_of_live fun _ _ => ?_
  obtain ⟨hi, -, -⟩ := initExpectedSeq_frame r seq
  refine bufferSegmentLogged_always (if_pos hi) ?_ ?_ ?_ ?_
  · exact fun _ => trivial
  · exact fun _ _ => trivial
  · exact fun _ _ _ => mergeLoopLogged_searches _
  · intro hahead _
    refine insertOutOfOrderLogged_always ?_ fun _ _ => trivial
    exact (h.initExpectedSeq seq).queued.searchable hahead

theorem invoke_ordered (h : Ordered r) (hlimit : r.config.maxBufferBytes < 2 ^ 31)
    (c : Invocation) : Ordered (r.invoke c) ∧ (r.invoke c).config = r.config := by
  cases c with
  | clear => exact ⟨ordered_clear r, rfl⟩
  | tryExtractSNI seq payload =>
    rw [invoke, tryExtractSNI_fst]
    exact ⟨bufferSegment_ordered h seq payload.2 hlimit, (bufferSegment_frame r _ _).1⟩

theorem invokes_ordered (h : Ordered r) (hlimit : r.config.maxBufferBytes < 2 ^ 31)
    (calls : List Invocation) : Ordered (calls.foldl invoke r) := by
  induction calls generalizing r with
  | nil => exact h
  | cons c calls ih =>
    obtain ⟨hc, hconfig⟩ := invoke_ordered h hlimit c
    exact ih hc (hconfig.symm ▸ hlimit)

/--
After every run of calls the stored segments lie ahead of the expected number at strictly
increasing distances, and every search of the next call is over strictly ordered segments.
-/
theorem window_sorted (calls : List Invocation) :
    Window 0 (calls.foldl invoke (fresh {})).expectedSeq
        (calls.foldl invoke (fresh {})).outOfOrder ∧
      ∀ seq (payload : List UInt8), ∀ op ∈ (calls.foldl invoke (fresh {})).operations seq payload,
        op.SearchesOrdered := by
  have h := invokes_ordered (ordered_fresh {}) (by decide) calls
  exact ⟨h.queued.window, fun seq payload => bufferSegmentLogged_searches h seq payload⟩

end TCPReassembler

end DpiEngine
