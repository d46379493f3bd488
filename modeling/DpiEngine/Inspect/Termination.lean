import DpiEngine.Inspect.Rounds
import DpiEngine.Inspect.Safety
import DpiEngine.Library.Loops

/-! # The loop over a name ends

A pointer may lead anywhere in the message, so the offset alone does not bound
the rounds. A round either moves the offset forward or uses up one of ten jumps.
A name that is read to its end leaves no way into a cycle of pointers.
-/

namespace DpiEngine.DNSExtractor

open Traced Loops Relation

/-- One round of the loop as the source has it, without a bound on the rounds. -/
def nameRound (m : List UInt8) (c : NameCursor) : NameCursor ⊕ Option NameCursor :=
  match (nameStep m c).value with
  | some (.next c') => .inl c'
  | some (.leave c') => .inr (some c')
  | some .reject => .inr none
  | none => .inr none

def afterLoop : Option NameCursor → Option (Name × ℕ)
  | none => none
  | some c =>
    if c.domain.isEmpty then none
    else some (c.domain, if c.jumped then c.originalOffset else c.offset)

/-- The next offset from an offset, whatever jumps are left. -/
inductive Hop (m : List UInt8) : ℕ → ℕ → Prop
  | label {o : ℕ} : byteAt m o ≠ 0 → byteAt m o &&& 0xC0 ≠ 0xC0 →
      o + 1 + (byteAt m o).toNat ≤ m.length → Hop m o (o + 1 + (byteAt m o).toNat)
  | pointer {o target : ℕ} : o + 1 < m.length → byteAt m o &&& 0xC0 = 0xC0 →
      target = be16 (byteAt m o &&& 0x3F) (byteAt m (o + 1)) → 12 ≤ target → target < m.length →
      Hop m o target

variable {m : List UInt8} {c c' : NameCursor}

theorem nameRound_cases (m : List UInt8) (c : NameCursor) :
    (∃ c', Round m c (.next c') ∧ nameRound m c = .inl c') ∨
    (∃ c', Round m c (.leave c') ∧ nameRound m c = .inr (some c')) ∨
    nameRound m c = .inr none := by
  obtain ⟨step, hstep⟩ := (nameStep_safe m c).exists_value
  have hround := Round.of_nameStep hstep
  cases step with
  | next c' => exact .inl ⟨c', hround, by simp [nameRound, hstep]⟩
  | leave c' => exact .inr (.inl ⟨c', hround, by simp [nameRound, hstep]⟩)
  | reject => exact .inr (.inr (by simp [nameRound, hstep]))

theorem round_of_nameRound (h : nameRound m c = .inl c') : Round m c (.next c') := by
  rcases nameRound_cases m c with ⟨c₁, hround, heq⟩ | ⟨c₁, -, heq⟩ | heq
  · rw [heq] at h
    cases h
    exact hround
  · rw [heq] at h
    cases h
  · rw [heq] at h
    cases h

theorem leave_of_nameRound (h : nameRound m c = .inr (some c')) : Round m c (.leave c') := by
  rcases nameRound_cases m c with ⟨c₁, -, heq⟩ | ⟨c₁, hround, heq⟩ | heq
  · rw [heq] at h
    cases h
  · rw [heq] at h
    cases h
    exact hround
  · rw [heq] at h
    cases h

/-! ### Every run of rounds ends -/

/-- Each jump that is left is worth one pass over the message. -/
def roundsLeft (m : List UInt8) (c : NameCursor) : ℕ :=
  (maxJumps - c.jumps) * (m.length + 1) + (m.length - c.offset)

theorem Round.roundsLeft_lt (h : Round m c (.next c')) : roundsLeft m c' < roundsLeft m c := by
  unfold roundsLeft
  cases h with
  | pointer hlow _ _ _ hlt hjumps =>
    obtain ⟨k, hk⟩ : ∃ k, maxJumps - c.jumps = k + 1 := ⟨maxJumps - c.jumps - 1, by omega⟩
    have hk' : maxJumps - (c.jumps + 1) = k := by omega
    have hpass : (k + 1) * (m.length + 1) = k * (m.length + 1) + (m.length + 1) :=
      Nat.succ_mul _ _
    dsimp only
    rw [hk, hk', hpass]
    omega
  | label hzero hmask hfits =>
    dsimp only
    omega

theorem exists_name_ends (m : List UInt8) (c : NameCursor) :
    ∃ n ≤ roundsLeft m c, ∃ result, Ends (nameRound m) c n result :=
  exists_ends (roundsLeft m) (fun _ _ h => (round_of_nameRound h).roundsLeft_lt) c

/-- The bounded loop of the model returns what the rounds end with. -/
theorem nameLoop_of_ends {n : ℕ} {result : Option NameCursor} (h : Ends (nameRound m) c n result)
    {fuel : ℕ} (hfuel : n < fuel) : (nameLoop m fuel c).value = some result := by
  induction h generalizing fuel with
  | @stop c result hstop =>
    obtain ⟨fuel, rfl⟩ := Nat.exists_eq_succ_of_ne_zero (by omega : fuel ≠ 0)
    obtain ⟨step, hstep⟩ := (nameStep_safe m c).exists_value
    rw [nameLoop, value_bind, hstep]
    cases step <;> simp_all [nameRound]
  | @next c c₁ n result hnext _ ih =>
    obtain ⟨fuel, rfl⟩ := Nat.exists_eq_succ_of_ne_zero (by omega : fuel ≠ 0)
    have hstep := (round_of_nameRound hnext).nameStep_eq (by simp)
    rw [nameLoop, value_bind, hstep]
    exact ih (by omega)

theorem readDomainName_of_ends {o n : ℕ} {result : Option NameCursor}
    (h : Ends (nameRound m) { offset := o, originalOffset := o } n result)
    (hn : n < nameFuel m) : (readDomainName m o).value = some (afterLoop result) := by
  rw [readDomainName, value_bind, nameLoop_of_ends h hn, Option.bind_some]
  cases result with
  | none => rfl
  | some c =>
    simp only [afterLoop]
    split_ifs <;> rfl

/-! ### What a name that is read tells -/

theorem nameAt_of_ends {n : ℕ} {result : Option NameCursor} (h : Ends (nameRound m) c n result)
    (hresult : result = some c') (hjumps : c.jumps ≤ maxJumps) :
    ∃ e k labels, NameAt m c.offset e k labels ∧ c'.jumps = c.jumps + k ∧ c'.jumps ≤ maxJumps := by
  induction h with
  | stop hstop =>
    subst hresult
    cases leave_of_nameRound hstop with
    | atEnd hend => exact ⟨_, 0, [], .cut hend, rfl, hjumps⟩
    | root hlt hzero => exact ⟨_, 0, [], .root hlt hzero, rfl, hjumps⟩
  | next hnext _ ih =>
    cases round_of_nameRound hnext with
    | pointer hlow hmask htarget hmin hlt hleft =>
      obtain ⟨e, k, labels, hname, hcount, hle⟩ := ih hresult hleft
      refine ⟨e, k + 1, labels, .pointer hlow hmask htarget hmin hlt hname, ?_, hle⟩
      dsimp only at hcount
      omega
    | label hzero hmask hfits hl =>
      obtain ⟨e, k, labels, hname, hcount, hle⟩ := ih hresult hjumps
      exact ⟨e, k, _ :: labels, .label hzero hmask hfits hl hname, hcount, hle⟩

/-- From the start of a name every walk ends. -/
theorem NameAt.acc {o k : ℕ} {e : NameEnd} {labels : List Name} (h : NameAt m o e k labels) :
    Acc (fun p q => Hop m q p) o := by
  induction h with
  | root hlt hzero =>
    refine .intro _ fun p hp => ?_
    cases hp with
    | label hne => exact absurd hzero hne
    | pointer _ hmask => exact absurd hzero (not_pointer_zero hmask)
  | cut hend =>
    refine .intro _ fun p hp => ?_
    cases hp with
    | label _ _ hfits => omega
    | pointer hlow => omega
  | label hne hmask hfits hl _ ih =>
    refine .intro _ fun p hp => ?_
    cases hp with
    | label => exact ih
    | pointer _ hmask' => exact absurd hmask' hmask
  | pointer hlow hmask htarget _ _ _ ih =>
    refine .intro _ fun p hp => ?_
    cases hp with
    | label _ hmask' => exact absurd hmask hmask'
    | pointer _ _ htarget' =>
      rw [htarget', ← htarget]
      exact ih

/--
On every message and from every offset the loop ends, within the bound of the model. Where it
leaves with a name it has followed at most ten pointers, as many as the name has, and no cycle
can be reached from the start.
-/
theorem readDomainName_ends (m : List UInt8) (o : ℕ) :
    ∃ n < nameFuel m, ∃ result,
      Ends (nameRound m) { offset := o, originalOffset := o } n result ∧
      (readDomainName m o).value = some (afterLoop result) ∧
      ∀ c, result = some c → c.jumps ≤ maxJumps ∧ (∃ e labels, NameAt m o e c.jumps labels) ∧
        ∀ p, ReflTransGen (Hop m) o p → ¬ TransGen (Hop m) p p := by
  obtain ⟨n, hn, result, hends⟩ := exists_name_ends m { offset := o, originalOffset := o }
  have hfuel : n < nameFuel m := by
    have hpasses : (maxJumps + 1) * (m.length + 1) =
        maxJumps * (m.length + 1) + (m.length + 1) := Nat.succ_mul _ _
    unfold nameFuel
    dsimp only [roundsLeft] at hn
    rw [Nat.sub_zero] at hn
    omega
  refine ⟨n, hfuel, result, hends, readDomainName_of_ends hends hfuel, fun c hc => ?_⟩
  obtain ⟨e, k, labels, hname, hcount, hle⟩ := nameAt_of_ends hends hc (Nat.zero_le _)
  have hjumps : c.jumps = k := hcount.trans (Nat.zero_add k)
  refine ⟨hle, ⟨e, labels, hjumps ▸ hname⟩, fun p hp => ?_⟩
  exact not_transGen_self_of_acc (acc_of_reflTransGen hname.acc hp)

end DpiEngine.DNSExtractor
