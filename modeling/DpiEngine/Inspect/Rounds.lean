import DpiEngine.Inspect.Extractors

/-! # The rounds of a DNS name

One round of the loop over a name, read backwards from what it returns. The
invariants of the loop follow from the cases of a round, and a run of rounds that
leaves the loop has read a name.
-/

namespace DpiEngine.DNSExtractor

open Traced

/-- What one round of the loop does: it rejects, ends at the end of the message or at a zero byte,
follows a pointer, or reads a label. -/
inductive Round (m : List UInt8) (c : NameCursor) : NameStep → Prop
  | reject : Round m c .reject
  | atEnd : m.length ≤ c.offset → Round m c (.leave c)
  | root : c.offset < m.length → byteAt m c.offset = 0 → Round m c (.leave { c with
      originalOffset := if c.jumped then c.originalOffset else c.offset + 1 })
  | pointer {target : ℕ} : c.offset + 1 < m.length → byteAt m c.offset &&& 0xC0 = 0xC0 →
      target = be16 (byteAt m c.offset &&& 0x3F) (byteAt m (c.offset + 1)) → 12 ≤ target →
      target < m.length → c.jumps < maxJumps → Round m c (.next { c with
        originalOffset := if c.jumped then c.originalOffset else c.offset + 2
        offset := target
        jumped := true
        jumps := c.jumps + 1 })
  | label {l : Name} : byteAt m c.offset ≠ 0 → byteAt m c.offset &&& 0xC0 ≠ 0xC0 →
      c.offset + 1 + (byteAt m c.offset).toNat ≤ m.length →
      l = (m.drop (c.offset + 1)).take (byteAt m c.offset).toNat → Round m c (.next { c with
        domain := if c.domain.isEmpty then l else c.domain ++ 0x2E :: l
        offset := c.offset + 1 + (byteAt m c.offset).toNat })

theorem not_pointer_zero {b : UInt8} (h : b &&& 0xC0 = 0xC0) : b ≠ 0 := by
  rintro rfl
  exact absurd h (by decide)

section Rounds

variable {m : List UInt8} {c : NameCursor} {step : NameStep}

theorem Round.of_followPointer (hmask : byteAt m c.offset &&& 0xC0 = 0xC0)
    (h : (followPointer m c (byteAt m c.offset)).value = some step) : Round m c step := by
  rw [followPointer] at h
  by_cases hend : c.offset + 1 ≥ m.length
  · rw [if_pos hend] at h
    cases h
    exact .reject
  rw [if_neg hend] at h
  obtain ⟨hlow, h⟩ := value_read_bind h
  by_cases htarget : be16 (byteAt m c.offset &&& 0x3F) (byteAt m (c.offset + 1)) ≥ m.length ∨
      be16 (byteAt m c.offset &&& 0x3F) (byteAt m (c.offset + 1)) < 12
  · rw [if_pos htarget] at h
    cases h
    exact .reject
  rw [if_neg htarget] at h
  by_cases hjumps : c.jumps + 1 > maxJumps
  · rw [if_pos hjumps] at h
    cases h
    exact .reject
  rw [if_neg hjumps] at h
  cases h
  obtain ⟨hlt, hmin⟩ := not_or.mp htarget
  exact .pointer hlow hmask rfl (not_lt.mp hmin) (not_le.mp hlt) (not_lt.mp hjumps)

theorem Round.of_readLabel (hzero : byteAt m c.offset ≠ 0)
    (hmask : byteAt m c.offset &&& 0xC0 ≠ 0xC0)
    (h : (readLabel m c (byteAt m c.offset)).value = some step) : Round m c step := by
  rw [readLabel] at h
  by_cases hend : c.offset + 1 + (byteAt m c.offset).toNat > m.length
  · rw [if_pos hend] at h
    cases h
    exact .reject
  rw [if_neg hend] at h
  obtain ⟨l, hl, h⟩ := value_bind_some h
  cases h
  exact .label hzero hmask (not_lt.mp hend) (value_readBytes hl)

theorem Round.of_nameStep (h : (nameStep m c).value = some step) : Round m c step := by
  rw [nameStep] at h
  by_cases hoff : c.offset ≥ m.length
  · rw [if_pos hoff] at h
    cases h
    exact .atEnd hoff
  rw [if_neg hoff] at h
  obtain ⟨hlt, h⟩ := value_read_bind h
  by_cases hzero : byteAt m c.offset = 0
  · rw [if_pos hzero] at h
    cases h
    exact .root hlt hzero
  rw [if_neg hzero] at h
  by_cases hmask : byteAt m c.offset &&& 0xC0 = 0xC0
  · rw [if_pos hmask] at h
    exact .of_followPointer hmask h
  · rw [if_neg hmask] at h
    exact .of_readLabel hzero hmask h

theorem Round.nameStep_eq (h : Round m c step) (hstep : step ≠ .reject) :
    (nameStep m c).value = some step := by
  cases h with
  | reject => exact absurd rfl hstep
  | atEnd hend =>
    rw [nameStep, if_pos hend]
    rfl
  | root hlt hzero =>
    rw [nameStep, if_neg (by omega), value_read_bind_of_lt hlt, if_pos hzero]
    rfl
  | pointer hlow hmask htarget hmin hlt hjumps =>
    have hzero := not_pointer_zero hmask
    rw [nameStep, if_neg (by omega), value_read_bind_of_lt (by omega), if_neg hzero, if_pos hmask,
      followPointer, if_neg (by omega), value_read_bind_of_lt hlow, ← htarget, if_neg (by omega),
      if_neg (by omega)]
    rfl
  | label hzero hmask hfits hl =>
    rw [nameStep, if_neg (by omega), value_read_bind_of_lt (by omega), if_neg hzero, if_neg hmask,
      readLabel, if_neg (by omega), value_readBytes_bind_of_le hfits, hl]
    rfl

theorem Round.nameLoop_leave {c' : NameCursor} {fuel : ℕ} (h : Round m c (.leave c')) :
    (nameLoop m (fuel + 1) c).value = some (some c') := by
  rw [nameLoop, value_bind, h.nameStep_eq nofun]
  rfl

theorem Round.nameLoop_next {c' : NameCursor} {fuel : ℕ} (h : Round m c (.next c')) :
    (nameLoop m (fuel + 1) c).value = (nameLoop m fuel c').value := by
  rw [nameLoop, value_bind, h.nameStep_eq nofun]
  rfl

end Rounds

/-! ### The name that is read -/

/-- How a name ends: at a zero byte, or with the message. -/
inductive NameEnd
  | root | cut
  deriving DecidableEq

/-- The loop reads the labels from offset `o` through `k` pointers to this end. -/
inductive NameAt (m : List UInt8) : ℕ → NameEnd → ℕ → List Name → Prop
  | root {o : ℕ} : o < m.length → byteAt m o = 0 → NameAt m o .root 0 []
  | cut {o : ℕ} : m.length ≤ o → NameAt m o .cut 0 []
  | label {o k : ℕ} {e : NameEnd} {l : Name} {labels : List Name} : byteAt m o ≠ 0 →
      byteAt m o &&& 0xC0 ≠ 0xC0 → o + 1 + (byteAt m o).toNat ≤ m.length →
      l = (m.drop (o + 1)).take (byteAt m o).toNat →
      NameAt m (o + 1 + (byteAt m o).toNat) e k labels → NameAt m o e k (l :: labels)
  | pointer {o k target : ℕ} {e : NameEnd} {labels : List Name} : o + 1 < m.length →
      byteAt m o &&& 0xC0 = 0xC0 →
      target = be16 (byteAt m o &&& 0x3F) (byteAt m (o + 1)) → 12 ≤ target → target < m.length →
      NameAt m target e k labels → NameAt m o e (k + 1) labels

def appendLabels (domain : Name) (labels : List Name) : Name :=
  labels.foldl (fun d l => if d.isEmpty then l else d ++ 0x2E :: l) domain

section Names

variable {m : List UInt8} {c c' : NameCursor}

/-- The loop reads a name to its end. The induction is on the name: each label moves the offset
forward, and each pointer that is left accounts for one pass through the message. -/
theorem nameLoop_nameAt {o k : ℕ} {e : NameEnd} {labels : List Name} (h : NameAt m o e k labels)
    {c : NameCursor} (ho : c.offset = o) (hk : c.jumps + k ≤ maxJumps) (fuel : ℕ)
    (hfuel : k * (m.length + 1) + (m.length - o) < fuel) :
    ∃ c', (nameLoop m fuel c).value = some (some c') ∧
      c'.domain = appendLabels c.domain labels := by
  obtain ⟨fuel, rfl⟩ := Nat.exists_eq_succ_of_ne_zero (by omega : fuel ≠ 0)
  induction h generalizing c fuel with
  | root hlt hzero =>
    subst ho
    exact ⟨_, (Round.root hlt hzero).nameLoop_leave, rfl⟩
  | cut hend =>
    subst ho
    exact ⟨c, (Round.atEnd hend).nameLoop_leave, rfl⟩
  | label hzero hmask hfits hl _ ih =>
    subst ho
    obtain ⟨fuel, rfl⟩ := Nat.exists_eq_succ_of_ne_zero (by omega : fuel ≠ 0)
    rw [(Round.label hzero hmask hfits hl).nameLoop_next]
    refine ih ?_ ?_ fuel ?_
    · rfl
    · exact hk
    · omega
  | @pointer o k target e labels hlow hmask htarget hmin hlt _ ih =>
    subst ho
    have hpass : (k + 1) * (m.length + 1) = k * (m.length + 1) + (m.length + 1) :=
      Nat.succ_mul _ _
    obtain ⟨fuel, rfl⟩ := Nat.exists_eq_succ_of_ne_zero (by omega : fuel ≠ 0)
    rw [(Round.pointer hlow hmask htarget hmin hlt (by omega)).nameLoop_next]
    refine ih ?_ ?_ fuel ?_
    · rfl
    · dsimp only
      omega
    · omega

/-- Where the loop leaves it has read a name. -/
theorem nameAt_of_nameLoop {fuel : ℕ} (h : (nameLoop m fuel c).value = some (some c')) :
    ∃ e k labels, NameAt m c.offset e k labels ∧ k ≤ maxJumps - c.jumps ∧
      c'.domain = appendLabels c.domain labels := by
  induction fuel generalizing c with
  | zero => cases h
  | succ fuel ih =>
    rw [nameLoop] at h
    obtain ⟨step, hstep, h⟩ := value_bind_some h
    cases Round.of_nameStep hstep with
    | reject => cases h
    | atEnd hend =>
      cases h
      exact ⟨_, 0, [], .cut hend, Nat.zero_le _, rfl⟩
    | root hlt hzero =>
      cases h
      exact ⟨_, 0, [], .root hlt hzero, Nat.zero_le _, rfl⟩
    | pointer hlow hmask htarget hmin hlt hjumps =>
      obtain ⟨e, k, labels, hname, hk, hdomain⟩ := ih h
      refine ⟨e, k + 1, labels, .pointer hlow hmask htarget hmin hlt hname, ?_, hdomain⟩
      dsimp only at hk
      omega
    | label hzero hmask hfits hl =>
      obtain ⟨e, k, labels, hname, hk, hdomain⟩ := ih h
      exact ⟨e, k, _ :: labels, .label hzero hmask hfits hl hname, hk, hdomain⟩

end Names

end DpiEngine.DNSExtractor
