import DpiEngine.Library.Worked

/-! # A channel between two workers

Some items enter a queue from one worker only, and all items leave it to one
worker only. Then those that have left the queue, those inside and the one that
is being pushed are the results of the sender, in the same order.
-/

variable {Q W E A : Type} {S : W → Type} [DecidableEq Q]

/-- The item that the worker is pushing to the queue. -/
def Position.outgoing {X : Type} (q : Q) : Position Q X → List X
  | .send q' x => if q' = q then [x] else []
  | _ => []

@[simp] theorem Position.outgoing_send {X : Type} (q q' : Q) (x : X) :
    (Position.send q' x : Position Q X).outgoing q = if q' = q then [x] else [] := rfl

@[simp] theorem Position.outgoing_hold {X : Type} (q : Q) (x : X) :
    (Position.hold x : Position Q X).outgoing q = [] := rfl

namespace Network

def Entry.outTo (q : Q) (e : Entry Q W A) : List (ℕ × A) :=
  match e.out with
  | some (q', b) => if q' = q then [(e.ticket, b)] else []
  | none => []

variable [DecidableEq W] {N : Network Q W E A S} {s t : State Q W A S} {l : Label W E} {v w : W}
  {q : Q} {P : ℕ × A → Bool}

def State.results (s : State Q W A S) (w : W) (q : Q) : List (ℕ × A) :=
  (s.log.filter (·.worker = w)).flatMap (Entry.outTo q)

omit [DecidableEq W] in
theorem outgoing_head (N : Network Q W E A S) (w : W) (q : Q) : (N.head w).outgoing q = [] := by
  unfold head; split_ifs <;> rfl

omit [DecidableEq W] in
theorem outgoing_follow (N : Network Q W E A S) (w : W) (q : Q) (n : ℕ) (a : A)
    (out : Option (Q × A)) : (N.follow w n out).outgoing q = Entry.outTo q ⟨w, n, a, out⟩ := by
  cases out with
  | none => exact N.outgoing_head w q
  | some r => rfl

theorem outgoing_goto {u : W} {p : Position Q (ℕ × A)}
    (h : p.outgoing q = (s.position u).outgoing q) (w : W) :
    ((s.goto u p).position w).outgoing q = (s.position w).outgoing q := by
  by_cases hw : w = u
  · subst hw
    rw [position_goto_self, h]
  · rw [position_goto_of_ne s p hw]

/-- The items of the channel, those that came first in front. -/
def State.channel (s : State Q W A S) (v w : W) (q : Q) : List (ℕ × A) :=
  s.taken v ++ (s.queue q).items ++ (s.position w).outgoing q

/-- The items with the property pass the queue in order. -/
def Passes (P : ℕ × A → Bool) (s : State Q W A S) (v w : W) (q : Q) : Prop :=
  (s.channel v w q).filter P = (s.results w q).filter P

theorem Passes.of_eq (h : Passes P s v w q) (hpopped : t.popped = s.popped)
    (hitems : (t.queue q).items = (s.queue q).items) (hlog : t.log = s.log)
    (houtgoing : (t.position w).outgoing q = (s.position w).outgoing q) : Passes P t v w q := by
  unfold Passes State.channel State.taken State.results at *
  rw [hpopped, hitems, hlog, houtgoing, h]

theorem Passes.offer {u : W} {q' : Q} {x : ℕ × A} (h : Passes P s v w q)
    (hpos : s.position u = .send q' x) (hu : s.offer q' x = some t)
    (hopen : q' = q → (s.queue q).isShutdown = false) (hother : q' = q → u ≠ w → P x = false) :
    Passes P (t.goto u (N.head u)) v w q := by
  rcases offer_some hu with ⟨hshut, rfl⟩ | ⟨-, rfl⟩
  · have hq : q' ≠ q := by
      rintro rfl
      cases hshut.symm.trans (hopen rfl)
    refine h.of_eq rfl rfl rfl (outgoing_goto (s := s) ?_ w)
    rw [outgoing_head, hpos, Position.outgoing_send, if_neg hq]
  · by_cases hq : q' = q
    · subst hq
      unfold Passes State.channel State.taken State.results at *
      by_cases hw : u = w
      · subst hw
        simpa [State.goto, outgoing_head, hpos] using h
      · have hx := hother rfl hw
        simpa [State.goto, Ne.symm hw, hx] using h
    · refine h.of_eq rfl ?_ rfl (outgoing_goto (s := s) ?_ w)
      · simp [State.goto, Ne.symm hq]
      · rw [outgoing_head, hpos, Position.outgoing_send, if_neg hq]

theorem passes_step (hsource : q ≠ N.source) (hinput : ∀ u, N.input u = q ↔ u = v)
    (hopen : ∀ u x, s.position u = .send q x → (s.queue q).isShutdown = false)
    (hother : ∀ u x, u ≠ w → s.position u = .send q x → P x = false)
    (h : Passes P s v w q) (hst : N.Step s l t) : Passes P t v w q := by
  cases hst with
  | @read a rest u _ hu =>
    rcases offer_some hu with ⟨-, rfl⟩ | ⟨-, rfl⟩
    · exact h
    · exact h.of_eq rfl (by simp [hsource]) rfl rfl
  | @pop u x r hu hr =>
    have hitems := (BoundedQueue.pop_some hr).1
    have houtgoing : ((s.goto u (.hold x)).position w).outgoing q = (s.position w).outgoing q :=
      outgoing_goto (by rw [hu]; rfl) w
    by_cases huv : u = v
    · subst huv
      have hq : N.input u = q := (hinput u).mpr rfl
      subst hq
      unfold Passes State.channel State.taken State.results at *
      simp only [State.goto] at houtgoing
      rw [hitems] at h
      simpa [State.goto, houtgoing] using h
    · have hq : q ≠ N.input u := fun hq => huv ((hinput u).mp hq.symm)
      refine Passes.of_eq (s := { s with popped := s.popped ++ [(u, x)] }) ?_ rfl ?_ rfl houtgoing
      · unfold Passes State.channel State.taken State.results at *
        simpa [huv] using h
      · simp [hq]
  | @work u e x σ out hu hwork =>
    by_cases hw : u = w
    · subst hw
      unfold Passes State.channel State.taken State.results at *
      rw [hu, Position.outgoing_hold, List.append_nil] at h
      simp [State.goto, outgoing_follow N u q x.1 x.2 out, ← h]
    · refine Passes.of_eq (s := { s with log := s.log ++ [⟨u, x.1, x.2, out⟩] }) ?_ rfl rfl rfl ?_
      · unfold Passes State.channel State.taken State.results at *
        simpa [hw] using h
      · exact congrArg (Position.outgoing q) (position_goto_of_ne s _ (Ne.symm hw))
  | @push u r x t hu hoffer =>
    have hnew : Passes P (t.goto u (N.head u)) v w q :=
      h.offer hu hoffer (fun hr => hopen u x (hr ▸ hu)) fun hr hw => hother u x hw (hr ▸ hu)
    exact hnew.of_eq rfl rfl rfl rfl
  | maintain hu => exact h
  | control _ hexec =>
    have hdata := sameData_exec hexec
    exact h.of_eq hdata.popped (hdata.items q) hdata.log (by rw [hdata.position])
  | timeout hu _ | sawRunning hu _ | sawStopped hu _ | sawItems hu _ | sawEmpty hu _ =>
    exact h.of_eq rfl rfl rfl (outgoing_goto (by rw [hu]; rfl) w)

/-- A worker pushes what its last entry says. -/
def Logged (s : State Q W A S) : Prop :=
  ∀ w q x, s.position w = .send q x → ∃ e ∈ s.log, e.worker = w ∧ e.ticket = x.1 ∧
    e.out = some (q, x.2)

omit [DecidableEq Q] in
theorem Logged.goto (h : Logged s) {u : W} {p : Position Q (ℕ × A)} (hp : ∀ q x, p ≠ .send q x)
    (hposition : t.position = (s.goto u p).position) (hlog : s.log ⊆ t.log) : Logged t := by
  intro w q x hw
  rw [hposition] at hw
  by_cases hu : w = u
  · subst hu
    rw [position_goto_self] at hw
    exact absurd hw (hp q x)
  · rw [position_goto_of_ne s p hu] at hw
    obtain ⟨e, he, hentry⟩ := h w q x hw
    exact ⟨e, hlog he, hentry⟩

theorem logged_step (h : Logged s) (hst : N.Step s l t) : Logged t := by
  have hhead (u : W) (q : Q) (x : ℕ × A) : N.head u ≠ .send q x := by
    unfold head; split_ifs <;> simp
  cases hst with
  | read _ hu =>
    have hsame := sameWorkers_offer hu
    intro w q x hw
    simp only [hsame.position, hsame.log] at hw ⊢
    exact h w q x hw
  | @work u e x σ out hu hwork =>
    intro w q y hw
    by_cases hne : w = u
    · subst hne
      have hfollow : N.follow w x.1 out = .send q y := by
        rw [← hw]
        exact (position_goto_self s w _).symm
      refine ⟨⟨w, x.1, x.2, out⟩, List.mem_append_right _ List.mem_cons_self, rfl, ?_⟩
      cases out with
      | none => exact absurd hfollow (hhead w q y)
      | some r => cases hfollow; exact ⟨rfl, rfl⟩
    · have hold : s.position w = .send q y := by
        rw [← position_goto_of_ne s (N.follow u x.1 out) hne]
        exact hw
      obtain ⟨e, he, hentry⟩ := h w q y hold
      exact ⟨e, List.mem_append_left _ he, hentry⟩
  | @push u q x t hu hoffer =>
    have hsame := sameWorkers_offer hoffer
    refine h.goto (u := u) (hhead u) ?_ (fun e he => hsame.log ▸ he)
    simp only [State.goto, hsame.position]
  | maintain hu => exact h
  | control _ hexec =>
    have hdata := sameData_exec hexec
    intro w q x hw
    simp only [hdata.position, hdata.log] at hw ⊢
    exact h w q x hw
  | pop hu _ | timeout hu _ | sawRunning hu _ | sawStopped hu _ | sawItems hu _ | sawEmpty hu _ =>
    exact h.goto (by simp) rfl (List.Subset.refl s.log)

theorem run_logged {frames : List A} {ls : List (Label W E)}
    (h : Run N.Step (N.init frames) ls s) : Logged s := by
  apply h.invariant (I := Logged) logged_step
  intro w q x hw
  unfold init head at hw
  simp only at hw
  split_ifs at hw

end Network
