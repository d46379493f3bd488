import DpiEngine.Library.Accounting
import DpiEngine.Library.Shutdown

/-! # The steps that are left

If the work of a network passes every item on to a queue of lower rank, each item
has a bounded number of steps left. So a run has a bounded number of steps that
move an item or execute a command of the script.
-/

namespace Network

variable {Q W E A : Type} {S : W → Type} {N : Network Q W E A S} {s t : State Q W A S}
  {a : Label W E} {w : W} {q : Q}

/-- The step moves an item or executes a command. -/
def Label.moves : Label W E → Bool
  | .read | .pop _ | .work _ _ | .push _ | .control => true
  | .timeout _ | .test _ | .maintain _ _ => false

/-- Every result goes to a queue of lower rank. -/
def Descends (N : Network Q W E A S) (rank : Q → ℕ) : Prop :=
  ∀ w q, N.Feeds w q → rank q < rank (N.input w)

variable (N) (rank : Q → ℕ)

def queueSteps (q : Q) : ℕ := 3 * rank q + 3

def handSteps (w : W) : Position Q (ℕ × A) → ℕ
  | .hold _ => 3 * rank (N.input w) + 2
  | .send q _ => 3 * rank q + 4
  | _ => 0

/-- The steps that are left. -/
def potential [Fintype Q] [Fintype W] (s : State Q W A S) : ℕ :=
  (queueSteps rank N.source + 1) * s.unread.length +
    ∑ q, queueSteps rank q * (s.queue q).items.length +
    ∑ w, N.handSteps rank w (s.position w) + s.script.length

variable {N rank}

theorem handSteps_head (w : W) : N.handSteps rank w (N.head w) = 0 := by
  unfold head; split_ifs <;> rfl

theorem handSteps_follow (hrank : N.Descends rank) {e : E} {σ σ' : S w} {x : ℕ × A}
    {out : Option (Q × A)} (hwork : N.work w e σ x.2 = some (σ', out)) :
    N.handSteps rank w (N.follow w x.1 out) + 1 ≤ N.handSteps rank w (.hold x) := by
  cases out with
  | none =>
    rw [follow, handSteps_head, handSteps]
    omega
  | some r =>
    obtain ⟨q, b⟩ := r
    have hlt := hrank w q ⟨e, σ, _, σ', b, hwork⟩
    simp only [follow, handSteps]
    omega

variable [DecidableEq Q] [DecidableEq W] [Fintype Q] [Fintype W]

section Sums

variable (N rank)

omit [DecidableEq Q] [Fintype Q] in
theorem sum_handSteps_goto (s : State Q W A S) (w : W) (p : Position Q (ℕ × A)) :
    ∑ v, N.handSteps rank v ((s.goto w p).position v) + N.handSteps rank w (s.position w) =
      ∑ v, N.handSteps rank v (s.position v) + N.handSteps rank w p :=
  Fintype.sum_update_add (fun v => N.handSteps rank v) s.position w p

omit [DecidableEq W] [Fintype W] in
theorem sum_queueSteps_update (s : State Q W A S) (q : Q) (r : BoundedQueue (ℕ × A)) :
    ∑ p, queueSteps rank p * (Function.update s.queue q r p).items.length +
        queueSteps rank q * (s.queue q).items.length =
      ∑ p, queueSteps rank p * (s.queue p).items.length + queueSteps rank q * r.items.length :=
  Fintype.sum_update_add (fun p (r : BoundedQueue (ℕ × A)) => queueSteps rank p * r.items.length)
    s.queue q r

omit [DecidableEq W] [Fintype W] in
theorem sum_queueSteps_offer {x : ℕ × A} (h : s.offer q x = some t) :
    ∑ p, queueSteps rank p * (t.queue p).items.length ≤
      ∑ p, queueSteps rank p * (s.queue p).items.length + queueSteps rank q := by
  rcases offer_some h with ⟨-, rfl⟩ | ⟨-, rfl⟩
  · exact Nat.le_add_right _ _
  · have hsum := sum_queueSteps_update rank s q
      { s.queue q with items := (s.queue q).items ++ [x] }
    simp only [List.length_append, List.length_singleton, Nat.mul_add, Nat.mul_one] at hsum ⊢
    omega

end Sums

/-- A step that moves something takes one of the steps that are left, and the others none. -/
theorem potential_step (hrank : N.Descends rank) (hst : N.Step s a t) :
    N.potential rank t + (if a.moves then 1 else 0) ≤ N.potential rank s := by
  have hidle {w : W} {p : Position Q (ℕ × A)} (hw : N.handSteps rank w (s.position w) = 0)
      (hp : N.handSteps rank w p = 0) : N.potential rank (s.goto w p) ≤ N.potential rank s := by
    have hhand := sum_handSteps_goto N rank s w p
    unfold potential
    simp only [State.goto] at hhand ⊢
    omega
  cases hst with
  | @read a rest t hunread hu =>
    have hqueue := sum_queueSteps_offer rank hu
    have hsame := sameWorkers_offer hu
    simp only [potential, Label.moves, hsame.position, hsame.script, hunread, List.length_cons,
      Nat.mul_add, if_true]
    omega
  | @pop w x q hw hq =>
    have hhand := sum_handSteps_goto N rank s w (.hold x)
    have hqueue := sum_queueSteps_update rank s (N.input w) q
    rw [(BoundedQueue.pop_some hq).1, List.length_cons, Nat.mul_add] at hqueue
    rw [hw] at hhand
    simp only [potential, Label.moves, State.goto, handSteps, queueSteps, if_true] at *
    omega
  | @work w e x σ out hw hwork =>
    have hhand := sum_handSteps_goto N rank s w (N.follow w x.1 out)
    have hfollow := handSteps_follow hrank hwork
    rw [hw] at hhand
    simp only [potential, Label.moves, State.goto, if_true] at *
    omega
  | @push w q x t hw hu =>
    have hqueue := sum_queueSteps_offer rank hu
    have hsame := sameWorkers_offer hu
    have hhand := sum_handSteps_goto N rank t w (N.head w)
    rw [handSteps_head, hsame.position, hw] at hhand
    simp only [potential, Label.moves, State.goto, handSteps, queueSteps, hsame.position,
      hsame.script, hsame.unread, if_true] at *
    omega
  | maintain hw => exact le_rfl
  | @control c rest t hscript hexec =>
    have hdata := sameData_exec hexec
    simp only [potential, Label.moves, hdata.items, hdata.position, hdata.unread, hscript,
      List.length_cons, if_true]
    omega
  | timeout hw _ | sawRunning hw _ | sawStopped hw _ | sawItems hw _ | sawEmpty hw _ =>
    exact hidle (by rw [hw]; rfl) rfl

/-- A run moves something at most as often as there are steps left. -/
theorem run_moves {ls : List (Label W E)} (hrank : N.Descends rank) (h : Run N.Step s ls t) :
    N.potential rank t + ls.countP Label.moves ≤ N.potential rank s := by
  induction h with
  | nil => exact le_rfl
  | cons hst _ ih =>
    have hstep := potential_step hrank hst
    rw [List.countP_cons]
    omega

end Network
