import DpiEngine.Library.Shutdown

/-! # Restarted networks

A network can be started again over the queues and the data of the workers that
an earlier run has left. A queue that was left closed and empty stays so, and the
workers that pop from it have nothing to do.
-/

namespace Network

variable {Q W E A : Type} {S : W → Type} {N : Network Q W E A S} {s t : State Q W A S}
  {a : Label W E} {q r : Q} {w : W} {x : ℕ × A}

/-- All threads are started again, over the queues and the data that are left. -/
def resume (N : Network Q W E A S) (queue : Q → BoundedQueue (ℕ × A)) (loc : (w : W) → S w)
    (unread : List A) : State Q W A S where
  queue := queue
  position := N.head
  running _ := true
  loc := loc
  unread := unread
  script := N.script

theorem head_not_busy (N : Network Q W E A S) (w : W) : ¬ (N.head w).Busy := by
  unfold head
  split_ifs <;> exact id

/-- The queue is closed and empty, and the workers that pop from it have never got an item. -/
structure Dead (N : Network Q W E A S) (q : Q) (s : State Q W A S) : Prop where
  isShutdown : (s.queue q).isShutdown = true
  items : (s.queue q).items = []
  idle : ∀ w, N.input w = q → ¬ (s.position w).Busy
  log : ∀ e ∈ s.log, N.input e.worker ≠ q

theorem dead_resume {queue : Q → BoundedQueue (ℕ × A)} (hshut : (queue q).isShutdown = true)
    (hitems : (queue q).items = []) (loc : (w : W) → S w) (unread : List A) :
    N.Dead q (N.resume queue loc unread) where
  isShutdown := hshut
  items := hitems
  idle w _ := N.head_not_busy w
  log _ he := absurd he List.not_mem_nil

variable [DecidableEq Q]

theorem queue_offer_of_isShutdown (h : s.offer r x = some t)
    (hshut : (s.queue q).isShutdown = true) : t.queue q = s.queue q := by
  rcases offer_some h with ⟨-, rfl⟩ | ⟨hopen, rfl⟩
  · rfl
  · have hne : q ≠ r := by
      rintro rfl
      rw [hshut] at hopen
      cases hopen
    exact Function.update_of_ne hne _ _

variable [DecidableEq W]

theorem closed_step (hst : N.Step s a t) (hshut : (s.queue q).isShutdown = true) :
    (t.queue q).isShutdown = true ∧ (t.queue q).items <:+ (s.queue q).items := by
  have hsame {u : BoundedQueue (ℕ × A)} (hu : u = s.queue q) :
      u.isShutdown = true ∧ u.items <:+ (s.queue q).items := by
    rw [hu]
    exact ⟨hshut, List.suffix_rfl⟩
  cases hst with
  | read _ hu =>
    have hqueue := queue_offer_of_isShutdown hu hshut
    exact hsame hqueue
  | push _ hu =>
    have hqueue := queue_offer_of_isShutdown hu hshut
    exact hsame hqueue
  | @pop w x r hw hr =>
    by_cases hq : q = N.input w
    · subst hq
      obtain ⟨hitems, hclosed⟩ := BoundedQueue.pop_some hr
      simp only [Function.update_self]
      exact ⟨hclosed.trans hshut, [x], hitems.symm⟩
    · exact hsame (Function.update_of_ne hq _ _)
  | @control c rest u _ hexec =>
    refine ⟨?_, (sameData_exec hexec).items q ▸ List.suffix_rfl⟩
    cases c with
    | joinSource =>
      obtain ⟨-, rfl⟩ := exec_joinSource hexec
      exact hshut
    | join w =>
      obtain ⟨-, rfl⟩ := exec_join hexec
      exact hshut
    | clear w =>
      cases hexec
      exact hshut
    | close r =>
      cases hexec
      by_cases hq : q = r
      · subst hq
        simp [BoundedQueue.shutdown]
      · simpa [hq] using hshut
  | _ => exact ⟨hshut, List.suffix_rfl⟩

theorem dead_step (h : N.Dead q s) (hst : N.Step s a t) : N.Dead q t := by
  obtain ⟨hshut, hitems⟩ := closed_step hst h.isShutdown
  rw [h.items, List.suffix_nil] at hitems
  constructor
  · exact hshut
  · exact hitems
  · rintro w rfl hbusy
    rcases busy_step hst hbusy with hold | hnonempty
    · exact h.idle w rfl hold
    · exact hnonempty h.items
  · cases hst with
    | read _ hu =>
      have hlog := (sameWorkers_offer hu).log
      rw [hlog]
      exact h.log
    | push _ hu =>
      have hlog := (sameWorkers_offer hu).log
      simp only [State.goto, hlog]
      exact h.log
    | @work v e x σ out hv _ =>
      rintro entry hentry
      rcases List.mem_append.mp hentry with hold | hnew
      · exact h.log entry hold
      · obtain rfl := List.mem_singleton.mp hnew
        exact fun hin => h.idle v hin (by rw [hv]; trivial)
    | control _ hexec =>
      rw [(sameData_exec hexec).log]
      exact h.log
    | _ => exact h.log

/-- What the script has closed is closed. -/
structure Closing (N : Network Q W E A S) (s : State Q W A S) : Prop where
  script : s.done ++ s.script = N.script
  closed : ∀ q, .close q ∈ s.done → (s.queue q).isShutdown = true

omit [DecidableEq Q] [DecidableEq W] in
theorem closing_resume (queue : Q → BoundedQueue (ℕ × A)) (loc : (w : W) → S w) (unread : List A) :
    N.Closing (N.resume queue loc unread) where
  script := rfl
  closed _ h := absurd h List.not_mem_nil

theorem closing_step (h : N.Closing s) (hst : N.Step s a t) : N.Closing t := by
  have hold (q : Q) (hq : .close q ∈ s.done) := (closed_step hst (h.closed q hq)).1
  cases hst with
  | read _ hu =>
    have hsame := sameWorkers_offer hu
    refine ⟨?_, fun q hq => hold q (hsame.done ▸ hq)⟩
    rw [hsame.done, hsame.script]
    exact h.script
  | push _ hu =>
    have hsame := sameWorkers_offer hu
    refine ⟨?_, fun q hq => hold q (hsame.done ▸ hq)⟩
    simp only [State.goto, hsame.done, hsame.script]
    exact h.script
  | @control c rest u hscript hexec =>
    constructor
    · rw [← h.script, hscript, List.append_assoc, List.singleton_append]
    · rintro q hq
      rcases List.mem_append.mp hq with hq | hq
      · exact hold q hq
      · obtain rfl := List.mem_singleton.mp hq
        cases hexec
        simp [BoundedQueue.shutdown]
  | _ => exact ⟨h.script, hold⟩

end Network
