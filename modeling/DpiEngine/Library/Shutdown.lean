import DpiEngine.Library.Network
import Mathlib.Data.Fintype.Defs

/-! # Staged shutdown

A script closes a queue or clears the flag of a worker at the right time if it
has joined every thread that feeds the queue before. Then no push meets a closed
queue, and a worker that has exited leaves its queue empty for good.
-/

namespace Network

variable {Q W E A : Type} {S : W → Type} {N : Network Q W E A S} {s t : State Q W A S}
  {a : Label W E} {q : Q} {w : W} {x : ℕ × A} {p : Position Q (ℕ × A)} {c d : Command Q W}

def Feeds (N : Network Q W E A S) (w : W) (q : Q) : Prop :=
  ∃ e σ a σ' b, N.work w e σ a = some (σ', some (q, b))

/-- Nothing can be pushed to the queue any more. -/
def Quiet (N : Network Q W E A S) (s : State Q W A S) (q : Q) : Prop :=
  (q = N.source → s.unread = []) ∧ ∀ w, N.Feeds w q → s.position w = .exited

def Precedes (N : Network Q W E A S) (d c : Command Q W) : Prop :=
  ∀ pre post, N.script = pre ++ c :: post → d ∈ pre

structure Settles (N : Network Q W E A S) (q : Q) (c : Command Q W) : Prop where
  source : q = N.source → N.Precedes .joinSource c
  feeders : ∀ w, N.Feeds w q → N.Precedes (.join w) c

theorem precedes_of_append {l l' : List (Command Q W)} (hs : N.script = l ++ l') (hd : d ∈ l)
    (hc : c ∉ l) : N.Precedes d c := by
  intro pre post h
  rw [hs] at h
  rcases List.append_eq_append_iff.mp h with ⟨m, rfl, -⟩ | ⟨m, rfl, hm⟩
  · exact List.mem_append_left m hd
  · cases m with
    | nil => simpa using hd
    | cons e m =>
      obtain ⟨rfl, -⟩ := List.cons.inj hm
      exact absurd (List.mem_append_right pre List.mem_cons_self) hc

/-- What the script has done is true. -/
structure Staged (N : Network Q W E A S) (s : State Q W A S) : Prop where
  script : s.done ++ s.script = N.script
  closed : ∀ q, (s.queue q).isShutdown = true → .close q ∈ s.done
  cleared : ∀ w, s.running w = false → .clear w ∈ s.done
  joinedSource : .joinSource ∈ s.done → s.unread = []
  joined : ∀ w, .join w ∈ s.done → s.position w = .exited
  stopped : ∀ w, s.position w = .testEmpty ∨ s.position w = .exited → s.running w = false
  sends : ∀ w q x, s.position w = .send q x → N.Feeds w q

theorem staged_init (l : List A) : N.Staged (N.init l) where
  script := rfl
  closed q h := by cases h
  cleared w h := by cases h
  joinedSource h := by cases h
  joined w h := by cases h
  stopped w h := by
    simp only [init, head] at h
    split_ifs at h <;> rcases h with h | h <;> cases h
  sends w q x h := by
    simp only [init, head] at h
    split_ifs at h

theorem head_ne_stopped (N : Network Q W E A S) (w : W) :
    ¬ (N.head w = .testEmpty ∨ N.head w = .exited) := by
  unfold head; split_ifs <;> simp

theorem head_ne_send (N : Network Q W E A S) (w : W) (q : Q) (x : ℕ × A) :
    N.head w ≠ .send q x := by
  unfold head; split_ifs <;> simp

theorem Staged.of_eq (h : N.Staged s) (hq : ∀ q, (t.queue q).isShutdown = (s.queue q).isShutdown)
    (hp : t.position = s.position) (hr : t.running = s.running)
    (hu : s.unread = [] → t.unread = []) (hs : t.script = s.script) (hd : t.done = s.done) :
    N.Staged t where
  script := by rw [hs, hd]; exact h.script
  closed q hc := by rw [hd]; exact h.closed q (hq q ▸ hc)
  cleared w hc := by rw [hd]; exact h.cleared w (hr ▸ hc)
  joinedSource hc := hu (h.joinedSource (hd ▸ hc))
  joined w hc := by rw [hp]; exact h.joined w (hd ▸ hc)
  stopped w hc := by rw [hr]; exact h.stopped w (hp ▸ hc)
  sends w q x hc := h.sends w q x (hp ▸ hc)

namespace Staged

theorem mem_done_of_precedes (h : N.Staged s) (hc : c ∈ s.done) (hp : N.Precedes d c) :
    d ∈ s.done := by
  obtain ⟨pre, post, hdone⟩ := List.append_of_mem hc
  have hpre := hp pre (post ++ s.script) (by rw [← h.script, hdone]; simp)
  rw [hdone]
  exact List.mem_append_left _ hpre

theorem quiet (h : N.Staged s) (hc : c ∈ s.done) (hset : N.Settles q c) : N.Quiet s q :=
  ⟨fun hq => h.joinedSource (h.mem_done_of_precedes hc (hset.source hq)),
    fun w hw => h.joined w (h.mem_done_of_precedes hc (hset.feeders w hw))⟩

theorem quiet_of_closed (h : N.Staged s) (hq : (s.queue q).isShutdown = true)
    (hset : N.Settles q (.close q)) : N.Quiet s q :=
  h.quiet (h.closed q hq) hset

theorem mem_done_of_exited (h : N.Staged s) (hw : s.position w = .exited) : .clear w ∈ s.done :=
  h.cleared w (h.stopped w (.inr hw))

theorem exited_of_precedes {v : W} (h : N.Staged s) (hw : s.position w = .exited)
    (hp : N.Precedes (.join v) (.clear w)) : s.position v = .exited :=
  h.joined v (h.mem_done_of_precedes (h.mem_done_of_exited hw) hp)

theorem quiet_of_exited (h : N.Staged s) (hw : s.position w = .exited)
    (hset : N.Settles (N.input w) (.clear w)) : N.Quiet s (N.input w) :=
  h.quiet (h.mem_done_of_exited hw) hset

end Staged

theorem Quiet.not_read {a : A} {rest : List A} (h : N.Quiet s N.source) : s.unread ≠ a :: rest := by
  rw [h.1 rfl]
  exact nofun

theorem Quiet.not_push (h : N.Quiet s q) (hs : N.Staged s) : s.position w ≠ .send q x := by
  intro hw
  have := h.2 w (hs.sends w q x hw)
  rw [hw] at this
  cases this

variable [DecidableEq Q]

theorem isShutdown_offer (h : s.offer q x = some t) (q' : Q) :
    (t.queue q').isShutdown = (s.queue q').isShutdown := by
  rcases offer_some h with ⟨-, rfl⟩ | ⟨-, rfl⟩
  · rfl
  · by_cases hq : q' = q
    · subst hq; simp
    · simp [hq]

variable [DecidableEq W]

omit [DecidableEq Q] in
theorem Staged.goto (h : N.Staged s) (hw : s.position w ≠ .exited)
    (hstop : p = .testEmpty ∨ p = .exited → s.running w = false)
    (hsend : ∀ q x, p = .send q x → N.Feeds w q) : N.Staged (s.goto w p) where
  script := h.script
  closed := h.closed
  cleared := h.cleared
  joinedSource := h.joinedSource
  joined v hv := by
    have hne : v ≠ w := by rintro rfl; exact hw (h.joined v hv)
    rw [position_goto_of_ne s p hne]
    exact h.joined v hv
  stopped v hv := by
    by_cases hne : v = w
    · subst hne
      rw [position_goto_self] at hv
      exact hstop hv
    · rw [position_goto_of_ne s p hne] at hv
      exact h.stopped v hv
  sends v q x hv := by
    by_cases hne : v = w
    · subst hne
      rw [position_goto_self] at hv
      exact hsend q x hv
    · rw [position_goto_of_ne s p hne] at hv
      exact h.sends v q x hv

omit [DecidableEq W] in
theorem Staged.offer (h : N.Staged s) (ht : s.offer q x = some t) : N.Staged t := by
  have hsame := sameWorkers_offer ht
  exact h.of_eq (isShutdown_offer ht) hsame.position hsame.running (fun hu => hsame.unread.trans hu)
    hsame.script hsame.done

theorem Staged.control {rest : List (Command Q W)} (h : N.Staged s) (hs : s.script = c :: rest)
    (ht : s.exec c = some t) : N.Staged { t with script := rest, done := s.done ++ [c] } := by
  have hscript : (s.done ++ [c]) ++ rest = N.script := by
    rw [← h.script, hs, List.append_assoc, List.singleton_append]
  have hold : ∀ {d}, d ∈ s.done → d ∈ s.done ++ [c] := List.mem_append_left [c]
  have hnew : c ∈ s.done ++ [c] := List.mem_append_right _ List.mem_cons_self
  cases c with
  | joinSource =>
    obtain ⟨hunread, rfl⟩ := exec_joinSource ht
    refine ⟨hscript, fun q hq => hold (h.closed q hq), fun w hw => hold (h.cleared w hw),
      fun _ => hunread, fun w hw => h.joined w ?_, h.stopped, h.sends⟩
    simpa using hw
  | close q =>
    cases ht
    refine ⟨hscript, fun r hr => ?_, fun w hw => hold (h.cleared w hw),
      fun hj => h.joinedSource ?_, fun w hw => h.joined w ?_, h.stopped, h.sends⟩
    · by_cases hq : r = q
      · subst hq; exact hnew
      · exact hold (h.closed r (by simpa [hq] using hr))
    · simpa using hj
    · simpa using hw
  | clear w =>
    cases ht
    refine ⟨hscript, fun q hq => hold (h.closed q hq), fun v hv => ?_,
      fun hj => h.joinedSource ?_, fun v hv => h.joined v ?_, fun v hv => ?_, h.sends⟩
    · by_cases hw : v = w
      · subst hw; exact hnew
      · exact hold (h.cleared v (by simpa [hw] using hv))
    · simpa using hj
    · simpa using hv
    · by_cases hw : v = w
      · subst hw; simp
      · simpa [hw] using h.stopped v hv
  | join w =>
    obtain ⟨hw, rfl⟩ := exec_join ht
    refine ⟨hscript, fun q hq => hold (h.closed q hq), fun v hv => hold (h.cleared v hv),
      fun hj => h.joinedSource ?_, fun v hv => ?_, h.stopped, h.sends⟩
    · simpa using hj
    · rcases List.mem_append.mp hv with hv | hv
      · exact h.joined v hv
      · cases List.mem_singleton.mp hv; exact hw

omit [DecidableEq Q] in
theorem Staged.goHead (h : N.Staged s) (hw : s.position w ≠ .exited) :
    N.Staged (s.goto w (N.head w)) :=
  h.goto hw (fun hp => absurd hp (N.head_ne_stopped w)) fun q x hp =>
    absurd hp (N.head_ne_send w q x)

theorem step_staged (h : N.Staged s) (hst : N.Step s a t) : N.Staged t := by
  cases hst with
  | @read a rest u hunread hoffer =>
    refine (h.offer hoffer).of_eq (fun _ => rfl) rfl rfl (fun hu => ?_) rfl rfl
    rw [(sameWorkers_offer hoffer).unread, hunread] at hu
    cases hu
  | @pop w x q hw hq =>
    have hmove := h.goto (w := w) (p := .hold x) (by simp [hw]) (by simp) (by simp)
    refine hmove.of_eq (fun r => ?_) rfl rfl id rfl rfl
    by_cases hr : r = N.input w
    · subst hr
      simpa [State.goto] using (BoundedQueue.pop_some hq).2
    · simp [State.goto, hr]
  | timeout hw _ => exact h.goto (by simp [hw]) (by simp) (by simp)
  | @work w e x σ out hw hwork =>
    cases out with
    | none =>
      exact (h.goHead (w := w) (by simp [hw])).of_eq (fun _ => rfl) rfl rfl id rfl rfl
    | some r =>
      obtain ⟨q, b⟩ := r
      have hfeeds : N.Feeds w q := ⟨e, _, _, _, _, hwork⟩
      refine (h.goto (w := w) (p := .send q (x.1, b)) (by simp [hw]) (by simp) ?_).of_eq
        (fun _ => rfl) rfl rfl id rfl rfl
      intro q' y hp
      cases hp
      exact hfeeds
  | @push w q x u hw hoffer =>
    have hu := (sameWorkers_offer hoffer).position
    exact ((h.offer hoffer).goHead (by simp [hu, hw])).of_eq (fun _ => rfl) rfl rfl id rfl rfl
  | sawRunning hw _ => exact h.goto (by simp [hw]) (by simp) (by simp)
  | sawStopped hw hr => exact h.goto (by simp [hw]) (fun _ => hr) (by simp)
  | sawItems hw _ => exact h.goto (by simp [hw]) (by simp) (by simp)
  | sawEmpty hw _ => exact h.goto (by simp [hw]) (fun _ => h.stopped _ (.inl hw)) (by simp)
  | maintain hw => exact h.of_eq (fun _ => rfl) rfl rfl id rfl rfl
  | control hs hc => exact h.control hs hc

theorem run_staged {l : List A} {as : List (Label W E)} (h : Run N.Step (N.init l) as s) :
    N.Staged s :=
  h.invariant step_staged (staged_init l)

theorem items_step (hst : N.Step s a t) (q : Q) :
    (t.queue q).items <:+ (s.queue q).items ∨ (q = N.source ∧ s.unread ≠ []) ∨
      ∃ w x, s.position w = .send q x := by
  have hoffer {r : Q} {x : ℕ × A} {u : State Q W A S} (hr : q ≠ r) (hu : s.offer r x = some u) :
      (u.queue q).items <:+ (s.queue q).items := by
    rcases offer_some hu with ⟨-, rfl⟩ | ⟨-, rfl⟩
    · exact List.suffix_rfl
    · simp [hr]
  cases hst with
  | read hunread hu =>
    by_cases hq : q = N.source
    · exact .inr (.inl ⟨hq, by simp [hunread]⟩)
    · exact .inl (hoffer hq hu :)
  | @pop w x r hw hr =>
    left
    by_cases hq : q = N.input w
    · subst hq
      simp only [Function.update_self]
      exact ⟨[x], (BoundedQueue.pop_some hr).1.symm⟩
    · simp [hq]
  | @push w r x u hw hu =>
    by_cases hq : q = r
    · subst hq; exact .inr (.inr ⟨w, x, hw⟩)
    · exact .inl (hoffer hq hu :)
  | control _ hexec => exact .inl ((sameData_exec hexec).items q ▸ List.suffix_rfl)
  | _ => exact .inl List.suffix_rfl

theorem Quiet.items_step (h : N.Quiet s q) (hs : N.Staged s) (hst : N.Step s a t) :
    (t.queue q).items <:+ (s.queue q).items := by
  rcases Network.items_step hst q with hsuffix | ⟨rfl, hunread⟩ | ⟨w, x, hw⟩
  · exact hsuffix
  · exact absurd (h.1 rfl) hunread
  · exact absurd hw (h.not_push hs)

/-- No item is dropped if the script closes the queues at the right time. -/
theorem dropped_step (hs : N.Staged s) (hset : ∀ q, N.Settles q (.close q)) (hst : N.Step s a t) :
    t.dropped = s.dropped := by
  cases hst with
  | read hunread hu =>
    rcases offer_some hu with ⟨hshut, -⟩ | ⟨-, rfl⟩
    · exact absurd hunread (hs.quiet_of_closed hshut (hset _)).not_read
    · rfl
  | push hw hu =>
    rcases offer_some hu with ⟨hshut, -⟩ | ⟨-, rfl⟩
    · exact absurd hw ((hs.quiet_of_closed hshut (hset _)).not_push hs)
    · rfl
  | control _ hexec => exact (sameData_exec hexec).dropped
  | _ => rfl

theorem run_dropped {l : List A} {as : List (Label W E)} (hset : ∀ q, N.Settles q (.close q))
    (h : Run N.Step (N.init l) as s) : s.dropped = [] := by
  apply h.invariant_under (I := N.Staged) (J := fun s => s.dropped = []) step_staged
  · intro s a t hs hdropped hst
    exact (dropped_step hs hset hst).trans hdropped
  · exact staged_init l
  · rfl

theorem exits_step (hst : N.Step s a t) (hw : s.position w ≠ .exited)
    (ht : t.position w = .exited) :
    a = .test w ∧ s.position w = .testEmpty ∧ (s.queue (N.input w)).items = [] ∧
      t = s.goto w .exited := by
  have hgoto {u : State Q W A S} (hu : u.position = s.position) {v : W} {p : Position Q (ℕ × A)}
      (hp : p ≠ .exited) (hv : (u.goto v p).position w = .exited) : False := by
    by_cases hne : w = v
    · subst hne; exact hp (position_goto_self u w p ▸ hv)
    · rw [position_goto_of_ne u p hne, hu] at hv
      exact hw hv
  have hhead (v : W) : N.head v ≠ .exited := fun h => N.head_ne_stopped v (.inr h)
  cases hst with
  | read _ hu => exact absurd ((sameWorkers_offer hu).position ▸ ht) hw
  | @push v q x u hv hu => exact (hgoto (sameWorkers_offer hu).position (hhead v) ht).elim
  | @work v e x σ out hv _ =>
    refine (hgoto (u := s) (v := v) rfl ?_ ht).elim
    cases out with
    | none => exact hhead v
    | some r => exact nofun
  | maintain hv => exact absurd ht hw
  | control _ hexec => exact absurd ((sameData_exec hexec).position ▸ ht) hw
  | @sawEmpty v hv hq =>
    by_cases hne : w = v
    · subst hne; exact ⟨rfl, hv, hq, rfl⟩
    · rw [position_goto_of_ne s _ hne] at ht
      exact absurd ht hw
  | pop _ | timeout _ | sawRunning _ | sawStopped _ | sawItems _ =>
    exact (hgoto (u := s) rfl (by exact nofun) ht).elim

/-- A worker whose flag is cleared at the right time leaves an empty queue. -/
theorem run_empty_of_exited {l : List A} {as : List (Label W E)}
    (hset : N.Settles (N.input w) (.clear w)) (h : Run N.Step (N.init l) as s)
    (hw : s.position w = .exited) : (s.queue (N.input w)).items = [] := by
  revert hw
  apply h.invariant_under (I := N.Staged)
    (J := fun s => s.position w = .exited → (s.queue (N.input w)).items = []) step_staged
  · intro s a t hs hempty hst ht
    by_cases hold : s.position w = .exited
    · have hsuffix := (hs.quiet_of_exited hold hset).items_step hs hst
      rw [hempty hold] at hsuffix
      exact List.suffix_nil.mp hsuffix
    · obtain ⟨-, -, hq, rfl⟩ := exits_step hst hold ht
      exact hq
  · exact staged_init l
  · intro hw
    exact absurd (.inr hw) (N.head_ne_stopped w)

section Drained

/-- Nothing is in the queues of a region or in the hands of the workers that pop from them. -/
structure Drained (N : Network Q W E A S) (C : Q → Prop) (s : State Q W A S) : Prop where
  items : ∀ q, C q → (s.queue q).items = []
  idle : ∀ w, C (N.input w) → ¬ (s.position w).Busy

omit [DecidableEq Q] [DecidableEq W] in
theorem drained_iff {C : Q → Prop} : N.Drained C s ↔ (∀ q, C q → (s.queue q).items = []) ∧
    ∀ w, C (N.input w) → ¬ (s.position w).Busy :=
  ⟨fun h => ⟨h.items, h.idle⟩, fun h => ⟨h.1, h.2⟩⟩

instance [Fintype Q] [Fintype W] {C : Q → Prop} [DecidablePred C] : Decidable (N.Drained C s) :=
  decidable_of_iff' _ drained_iff

theorem busy_step (hst : N.Step s a t) (ht : (t.position w).Busy) :
    (s.position w).Busy ∨ (s.queue (N.input w)).items ≠ [] := by
  have hgoto {u : State Q W A S} (hu : u.position = s.position) {v : W} {p : Position Q (ℕ × A)}
      (hv : ((u.goto v p).position w).Busy) (hp : ¬ p.Busy ∨ (s.position v).Busy) :
      (s.position w).Busy := by
    by_cases hne : w = v
    · subst hne
      rw [position_goto_self] at hv
      exact hp.resolve_left (not_not_intro hv)
    · rwa [position_goto_of_ne u p hne, hu] at hv
  have hhead (v : W) : ¬ (N.head v).Busy := by
    unfold head; split_ifs <;> exact id
  cases hst with
  | read _ hu => exact .inl ((sameWorkers_offer hu).position ▸ ht)
  | @push v q x u hv hu =>
    exact .inl (hgoto (sameWorkers_offer hu).position ht (.inl (hhead v)))
  | @work v e x σ out hv _ =>
    exact .inl (hgoto (u := s) rfl ht (.inr (by simp [hv, Position.Busy])))
  | @pop v x q hv hq =>
    by_cases hne : w = v
    · subst hne
      exact .inr (by simp [(BoundedQueue.pop_some hq).1])
    · exact .inl (position_goto_of_ne s _ hne ▸ ht)
  | maintain hv => exact .inl ht
  | control _ hexec => exact .inl ((sameData_exec hexec).position ▸ ht)
  | timeout _ | sawRunning _ | sawStopped _ | sawItems _ | sawEmpty _ =>
    exact .inl (hgoto (u := s) rfl ht (.inl id))

/-- A drained region stays drained if only its own workers still feed it. -/
theorem Drained.step {C : Q → Prop} (h : N.Drained C s) (hs : N.Staged s)
    (hsource : C N.source → s.unread = [])
    (hfeeds : ∀ w q, C q → N.Feeds w q → C (N.input w) ∨ s.position w = .exited)
    (hst : N.Step s a t) : N.Drained C t where
  items q hq := by
    rcases items_step hst q with hsuffix | ⟨rfl, hunread⟩ | ⟨w, x, hw⟩
    · exact List.suffix_nil.mp (h.items q hq ▸ hsuffix)
    · exact absurd (hsource hq) hunread
    · rcases hfeeds w q hq (hs.sends w q x hw) with hin | hexit
      · exact absurd (by rw [hw]; trivial) (h.idle w hin)
      · rw [hw] at hexit; cases hexit
  idle w hw ht := by
    rcases busy_step hst ht with hbusy | hitems
    · exact h.idle w hw hbusy
    · exact hitems (h.items _ hw)

end Drained

end Network
