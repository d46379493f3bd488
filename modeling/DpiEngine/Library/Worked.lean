import DpiEngine.Library.Accounting

/-! # The work of one worker

A worker finishes the items in the order in which it has popped them, so that its
part of the log is its part of the pops without the item in its hands.
-/

def Position.holding {Q X : Type} : Position Q X → List X
  | .hold x => [x]
  | _ => []

@[simp] theorem Position.holding_hold {Q X : Type} (x : X) :
    (Position.hold x : Position Q X).holding = [x] := rfl

@[simp] theorem Position.holding_pop {Q X : Type} : (Position.pop : Position Q X).holding = [] :=
  rfl

namespace Network

variable {Q W E A : Type} {S : W → Type} [DecidableEq Q] [DecidableEq W]
  {N : Network Q W E A S} {s t : State Q W A S} {l : Label W E} {w : W}

omit [DecidableEq Q] in
def State.taken (s : State Q W A S) (w : W) : List (ℕ × A) :=
  (s.popped.filter (·.1 = w)).map Prod.snd

/-- The items that the worker has finished. -/
def State.worked (s : State Q W A S) (w : W) : List (ℕ × A) :=
  (s.log.filter (·.worker = w)).map fun e => (e.ticket, e.item)

omit [DecidableEq Q] [DecidableEq W] in
theorem holding_head (N : Network Q W E A S) (w : W) : (N.head w).holding = [] := by
  unfold head; split_ifs <;> rfl

omit [DecidableEq Q] [DecidableEq W] in
theorem holding_follow (N : Network Q W E A S) (w : W) (n : ℕ) (out : Option (Q × A)) :
    (N.follow w n out).holding = [] := by
  cases out with
  | none => exact N.holding_head w
  | some r => rfl

omit [DecidableEq Q] in
theorem holding_goto {v : W} {p : Position Q (ℕ × A)}
    (h : p.holding = (s.position v).holding) :
    ((s.goto v p).position w).holding = (s.position w).holding := by
  by_cases hw : w = v
  · subst hw
    rw [position_goto_self, h]
  · rw [position_goto_of_ne s p hw]

/-- Every popped item is finished or in the hands of its worker. -/
def InOrder (s : State Q W A S) (w : W) : Prop :=
  s.taken w = s.worked w ++ (s.position w).holding

omit [DecidableEq Q] in
theorem InOrder.of_eq (h : InOrder s w) (hpopped : t.popped = s.popped) (hlog : t.log = s.log)
    (hholding : (t.position w).holding = (s.position w).holding) : InOrder t w := by
  unfold InOrder State.taken State.worked at *
  rw [hpopped, hlog, hholding, h]

theorem inOrder_step (h : InOrder s w) (hst : N.Step s l t) : InOrder t w := by
  cases hst with
  | read _ hu =>
    have hsame := sameWorkers_offer hu
    exact h.of_eq hsame.popped hsame.log (by rw [hsame.position])
  | @pop v x q hv hq =>
    by_cases hw : v = w
    · subst hw
      unfold InOrder State.taken State.worked at *
      simp [h, hv, State.goto]
    · refine InOrder.of_eq (s := { s with popped := s.popped ++ [(v, x)] }) ?_ rfl rfl ?_
      · unfold InOrder State.taken State.worked at *
        simpa [hw] using h
      · exact congrArg Position.holding (position_goto_of_ne s _ (Ne.symm hw))
  | @work v e x σ out hv hwork =>
    by_cases hw : v = w
    · subst hw
      unfold InOrder State.taken State.worked at *
      simp [h, hv, State.goto, holding_follow]
    · refine InOrder.of_eq (s := { s with log := s.log ++ [⟨v, x.1, x.2, out⟩] }) ?_ rfl rfl ?_
      · unfold InOrder State.taken State.worked at *
        simpa [hw] using h
      · exact congrArg Position.holding (position_goto_of_ne s _ (Ne.symm hw))
  | @push v q x u hv hu =>
    have hsame := sameWorkers_offer hu
    refine h.of_eq hsame.popped hsame.log ?_
    have hgoto : ((u.goto v (N.head v)).position w).holding = (u.position w).holding :=
      holding_goto (by rw [holding_head, hsame.position, hv]; rfl)
    rw [hsame.position] at hgoto
    exact hgoto
  | maintain hv => exact h
  | control _ hexec =>
    have hdata := sameData_exec hexec
    exact h.of_eq hdata.popped hdata.log (by rw [hdata.position])
  | timeout hv _ | sawRunning hv _ | sawStopped hv _ | sawItems hv _ | sawEmpty hv _ =>
    exact h.of_eq rfl rfl (holding_goto (by rw [hv]; rfl))

theorem run_inOrder {frames : List A} {ls : List (Label W E)}
    (h : Run N.Step (N.init frames) ls s) (w : W) :
    s.taken w = s.worked w ++ (s.position w).holding := by
  apply h.invariant (I := fun s => InOrder s w) inOrder_step
  change [] = [] ++ (N.head w).holding
  rw [holding_head, List.append_nil]

end Network
