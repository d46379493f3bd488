import DpiEngine.Library.Network

/-! # The limits of the queues

The threads never change the bound of a queue and never set a flag again that has
been cleared. No queue ever holds more items than its bound.
-/

namespace Network

variable {Q W E A : Type} {S : W → Type} {N : Network Q W E A S} {s t : State Q W A S}
  {a : Label W E} {q : Q}

/-- The bounds are those of the start, and cleared flags are off. -/
structure Kept (N : Network Q W E A S) (s : State Q W A S) : Prop where
  maxSize : ∀ q, (s.queue q).maxSize = N.maxSize q
  cleared : ∀ w, .clear w ∈ s.done → s.running w = false

variable [DecidableEq Q] [DecidableEq W]

omit [DecidableEq W] in
theorem maxSize_offer {x : ℕ × A} (h : s.offer q x = some t) (r : Q) :
    (t.queue r).maxSize = (s.queue r).maxSize := by
  rcases offer_some h with ⟨-, rfl⟩ | ⟨-, rfl⟩
  · rfl
  · by_cases hr : r = q
    · subst hr
      simp
    · simp [hr]

theorem kept_step (h : N.Kept s) (hst : N.Step s a t) : N.Kept t := by
  cases hst with
  | read _ hu =>
    have hsame := sameWorkers_offer hu
    exact ⟨fun r => (maxSize_offer hu r).trans (h.maxSize r), by
      simpa only [hsame.done, hsame.running] using h.cleared⟩
  | @pop v x r _ hr =>
    refine ⟨fun q => ?_, h.cleared⟩
    by_cases hq : q = N.input v
    · subst hq
      simpa using (BoundedQueue.maxSize_pop hr).trans (h.maxSize _)
    · simpa [hq] using h.maxSize q
  | push _ hu =>
    have hsame := sameWorkers_offer hu
    exact ⟨fun r => (maxSize_offer hu r).trans (h.maxSize r), by
      simpa only [State.goto, hsame.done, hsame.running] using h.cleared⟩
  | @control c rest u _ hexec =>
    cases c with
    | joinSource =>
      obtain ⟨-, rfl⟩ := exec_joinSource hexec
      exact ⟨h.maxSize, fun w hw => h.cleared w (by simpa using hw)⟩
    | close q =>
      cases hexec
      refine ⟨fun r => ?_, fun w hw => h.cleared w (by simpa using hw)⟩
      by_cases hr : r = q
      · subst hr
        simpa [BoundedQueue.shutdown] using h.maxSize r
      · simpa [hr] using h.maxSize r
    | clear v =>
      cases hexec
      refine ⟨h.maxSize, fun w hw => ?_⟩
      by_cases hv : w = v
      · subst hv
        exact Function.update_self ..
      · simpa [hv] using h.cleared w (by simpa [hv] using hw)
    | join v =>
      obtain ⟨-, rfl⟩ := exec_join hexec
      exact ⟨h.maxSize, fun w hw => h.cleared w (by simpa using hw)⟩
  | _ => exact ⟨h.maxSize, h.cleared⟩

omit [DecidableEq Q] [DecidableEq W] in
theorem kept_init (l : List A) : N.Kept (N.init l) :=
  ⟨fun _ => rfl, fun _ hw => absurd hw List.not_mem_nil⟩

theorem run_kept {l : List A} {ls : List (Label W E)} (h : Run N.Step (N.init l) ls s) :
    N.Kept s :=
  h.invariant kept_step (kept_init l)

omit [DecidableEq W] in
theorem bounded_offer {r : Q} {x : ℕ × A} (hk : N.Kept s)
    (h : ∀ q, (s.queue q).items.length ≤ N.maxSize q) (hoffer : s.offer r x = some t) (q : Q) :
    (t.queue q).items.length ≤ N.maxSize q := by
  obtain ⟨r', hr', rfl⟩ := Option.map_eq_some_iff.mp hoffer
  by_cases hq : q = r
  · subst hq
    simp only [Function.update_self]
    rcases BoundedQueue.push_some hr' with ⟨-, rfl⟩ | ⟨hopen, -⟩
    · exact h q
    · obtain ⟨hlt, rfl⟩ := BoundedQueue.push_open hr' hopen
      rw [hk.maxSize] at hlt
      simpa [Nat.succ_le_iff] using hlt
  · simpa [hq] using h q

theorem bounded_step (hk : N.Kept s) (h : ∀ q, (s.queue q).items.length ≤ N.maxSize q)
    (hst : N.Step s a t) (q : Q) : (t.queue q).items.length ≤ N.maxSize q := by
  cases hst with
  | read _ hu => exact bounded_offer hk h hu q
  | push _ hu => exact bounded_offer hk h hu q
  | @pop w x r hw hr =>
    by_cases hq : q = N.input w
    · subst hq
      have hitems := (BoundedQueue.pop_some hr).1
      have hle := h (N.input w)
      rw [hitems, List.length_cons] at hle
      simpa using (Nat.le_succ _).trans hle
    · simpa [hq] using h q
  | control _ hexec =>
    rw [show (Network.State.queue _ q).items = _ from (sameData_exec hexec).items q]
    exact h q
  | _ => exact h q

theorem run_length_le {l : List A} {ls : List (Label W E)} (h : Run N.Step (N.init l) ls s)
    (q : Q) : (s.queue q).items.length ≤ N.maxSize q := by
  revert q
  apply h.invariant_under (I := N.Kept)
    (J := fun s => ∀ q, (s.queue q).items.length ≤ N.maxSize q) kept_step bounded_step
    (kept_init l)
  exact fun q => Nat.zero_le _

end Network
