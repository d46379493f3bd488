import DpiEngine.Library.Accounting
import DpiEngine.Library.Shutdown

/-! # The counters of a network

A worker that counts its pushes lags behind its log by the item that it is still
pushing. All that has arrived at a queue is inside, is in the hands of a worker
or is in the log.
-/

namespace Network

variable {Q W E A : Type} {S : W → Type} [DecidableEq Q] [DecidableEq W]
  {N : Network Q W E A S} {s t : State Q W A S} {l : Label W E} {frames : List A}
  {ls : List (Label W E)}

section Sent

variable (g : Q → ℕ)

def sendWeight : Position Q (ℕ × A) → ℕ
  | .send q _ => g q
  | _ => 0

def resultWeight (s : State Q W A S) (w : W) : ℕ :=
  ((s.log.filter (·.worker = w)).map fun e => outWeight (fun q _ => g q) e.ticket e.out).sum

omit [DecidableEq Q] in
@[simp] theorem sendWeight_hold (x : ℕ × A) : sendWeight g (.hold x : Position Q (ℕ × A)) = 0 := rfl

variable {g} {w : W} {c : S w → ℕ}

omit [DecidableEq Q] [DecidableEq W] in
theorem sendWeight_head (N : Network Q W E A S) (w : W) : sendWeight g (N.head w) = 0 := by
  unfold head; split_ifs <;> rfl

omit [DecidableEq Q] [DecidableEq W] in
theorem sendWeight_follow (N : Network Q W E A S) (w : W) (n : ℕ) (out : Option (Q × A)) :
    sendWeight g (N.follow w n out) = outWeight (fun q _ => g q) n out := by
  cases out with
  | none => exact sendWeight_head N w
  | some r => rfl

/-- The counter of a worker and the item that it is pushing make up its results. -/
def CountsSent (c : S w → ℕ) (g : Q → ℕ) (s : State Q W A S) : Prop :=
  c (s.loc w) + sendWeight g (s.position w) = resultWeight g s w

omit [DecidableEq Q] in
theorem CountsSent.of_eq (h : CountsSent c g s) (hloc : t.loc w = s.loc w) (hlog : t.log = s.log)
    (hsend : sendWeight g (t.position w) = sendWeight g (s.position w)) : CountsSent c g t := by
  unfold CountsSent resultWeight at *
  rw [hloc, hlog, hsend, h]

omit [DecidableEq Q] in
theorem sendWeight_goto {v : W} {p : Position Q (ℕ × A)}
    (h : sendWeight g p = sendWeight g (s.position v)) :
    sendWeight g ((s.goto v p).position w) = sendWeight g (s.position w) := by
  by_cases hw : w = v
  · subst hw
    rw [position_goto_self, h]
  · rw [position_goto_of_ne s p hw]

theorem countsSent_step
    (hwork : ∀ {e σ a σ' out}, N.work w e σ a = some (σ', out) → c σ' = c σ)
    (hsent : ∀ q σ, N.Feeds w q → c (N.sent w q σ) = c σ + g q)
    (hmaintain : ∀ e σ, c (N.maintain w e σ) = c σ) (hs : N.Staged s) (h : CountsSent c g s)
    (hst : N.Step s l t) : CountsSent c g t := by
  cases hst with
  | read _ hu =>
    have hsame := sameWorkers_offer hu
    exact h.of_eq (by rw [hsame.loc]) hsame.log (by rw [hsame.position])
  | @work v e x σ out hv hw =>
    by_cases hne : w = v
    · subst hne
      unfold CountsSent resultWeight at *
      rw [hv] at h
      change c (Function.update s.loc w σ w) + _ = _
      rw [Function.update_self, hwork hw]
      simp [State.goto, sendWeight_follow, ← h]
    · have hold : (s.goto v (N.follow v x.1 out)).position w = s.position w :=
        position_goto_of_ne s _ hne
      refine CountsSent.of_eq (s := { s with log := s.log ++ [⟨v, x.1, x.2, out⟩] }) ?_
        (Function.update_of_ne hne ..) rfl (congrArg (sendWeight g) hold)
      unfold CountsSent resultWeight at *
      simpa [Ne.symm hne] using h
  | @push v q x u hv hu =>
    have hsame := sameWorkers_offer hu
    by_cases hne : w = v
    · subst hne
      unfold CountsSent resultWeight at *
      have hfeeds := hs.sends w q x hv
      rw [hv] at h
      change c (Function.update u.loc w _ w) + _ = _
      rw [Function.update_self, hsent q _ hfeeds]
      simp only [State.goto, hsame.loc, hsame.log, Function.update_self, sendWeight_head]
      exact h
    · have hold : (u.goto v (N.head v)).position w = s.position w :=
        (position_goto_of_ne u _ hne).trans (by rw [hsame.position])
      refine h.of_eq ?_ hsame.log (congrArg (sendWeight g) hold)
      exact (Function.update_of_ne hne ..).trans (by rw [hsame.loc])
  | @maintain v e hv =>
    by_cases hne : w = v
    · subst hne
      unfold CountsSent resultWeight at *
      change c (Function.update s.loc w _ w) + _ = _
      rw [Function.update_self, hmaintain]
      exact h
    · exact h.of_eq (Function.update_of_ne hne ..) rfl rfl
  | control _ hexec =>
    have hdata := sameData_exec hexec
    exact h.of_eq (by rw [hdata.loc]) hdata.log (by rw [hdata.position])
  | pop hv _ | timeout hv _ | sawRunning hv _ | sawStopped hv _ | sawItems hv _ | sawEmpty hv _ =>
    exact h.of_eq rfl rfl (sendWeight_goto (s := s) (by rw [hv]; rfl))

theorem run_countsSent (hstart : c (N.start w) = 0)
    (hwork : ∀ {e σ a σ' out}, N.work w e σ a = some (σ', out) → c σ' = c σ)
    (hsent : ∀ q σ, N.Feeds w q → c (N.sent w q σ) = c σ + g q)
    (hmaintain : ∀ e σ, c (N.maintain w e σ) = c σ) (h : Run N.Step (N.init frames) ls s) :
    c (s.loc w) + sendWeight g (s.position w) = resultWeight g s w := by
  apply h.invariant_under (I := N.Staged) (J := CountsSent c g) step_staged
    (countsSent_step hwork hsent hmaintain) (staged_init frames)
  change c (N.start w) + sendWeight g (N.head w) = 0
  rw [hstart, sendWeight_head]

end Sent

section Queue

def holds : Position Q (ℕ × A) → ℕ
  | .hold _ => 1
  | _ => 0

def finishedBy (s : State Q W A S) (w : W) : ℕ := (s.log.filter (·.worker = w)).length

omit [DecidableEq Q] in
theorem sum_by_worker [Fintype W] (f : Entry Q W A → ℕ) (l : List (Entry Q W A)) :
    ∑ w, ((l.filter (·.worker = w)).map f).sum = (l.map f).sum := by
  induction l with
  | nil => simp
  | cons e l ih =>
    have hcons (w : W) : (((e :: l).filter (·.worker = w)).map f).sum =
        (if e.worker = w then f e else 0) + ((l.filter (·.worker = w)).map f).sum := by
      by_cases hw : e.worker = w <;> simp [hw]
    rw [List.map_cons, List.sum_cons, ← ih]
    simp only [hcons, Finset.sum_add_distrib, Finset.sum_ite_eq, Finset.mem_univ, if_true]

omit [DecidableEq Q] [DecidableEq W] in
theorem handWeight_eq (g : Q → ℕ) (w : W) (p : Position Q (ℕ × A)) :
    N.handWeight (fun q _ => g q) w p = g (N.input w) * holds p + sendWeight g p := by
  cases p <;> simp [handWeight, holds, sendWeight]

variable [Fintype Q] [Fintype W]

/-- What has been pushed, as the counters say, is inside the queues, in the hands of the workers
behind them or finished by these. -/
theorem run_pushed (g : Q → ℕ) (c : (w : W) → S w → ℕ) (hdropped : s.dropped = [])
    (hc : ∀ w, c w (s.loc w) + sendWeight g (s.position w) = resultWeight g s w)
    (h : Run N.Step (N.init frames) ls s) :
    g N.source * s.reads.length + ∑ w, c w (s.loc w) =
      ∑ q, g q * (s.queue q).items.length +
        ∑ w, g (N.input w) * (holds (s.position w) + finishedBy s w) := by
  have hconserved := run_conserved (m := fun q _ => g q) h
  have hresults : (s.log.map fun e => outWeight (fun q _ => g q) e.ticket e.out).sum =
      ∑ w, (c w (s.loc w) + sendWeight g (s.position w)) := by
    rw [← sum_by_worker]
    exact Finset.sum_congr rfl fun w _ => (hc w).symm
  have hfinished : (s.log.map fun e => g (N.input e.worker)).sum =
      ∑ w, g (N.input w) * finishedBy s w := by
    rw [← sum_by_worker]
    refine Finset.sum_congr rfl fun w _ => ?_
    have hconst : (s.log.filter (·.worker = w)).map (fun e => g (N.input e.worker)) =
        (s.log.filter (·.worker = w)).map fun _ => g (N.input w) :=
      List.map_congr_left fun e he => by rw [of_decide_eq_true (List.mem_filter.mp he).2]
    rw [hconst, List.map_const', List.sum_replicate, smul_eq_mul, mul_comm, finishedBy]
  simp only [arrived, present, finished, hresults, hfinished, hdropped, handWeight_eq,
    List.map_const', List.sum_replicate, smul_eq_mul, List.map_nil, List.sum_nil, add_zero,
    Finset.sum_add_distrib, mul_comm _ (g _), mul_add] at hconserved ⊢
  omega

end Queue

end Network
