import DpiEngine.Library.Network
import Mathlib.Algebra.BigOperators.Fin
import Mathlib.Data.Fintype.BigOperators

/-! # Accounting of items

What holds of the source items and is carried over by all work holds of every
item of a network. An item that has arrived at a queue is still there, is in the
hands of a worker, has been worked on or was dropped, exactly once.
-/

theorem Fintype.sum_update_add {ι : Type*} [Fintype ι] [DecidableEq ι] {β : ι → Type*}
    (g : ∀ i, β i → ℕ) (f : ∀ i, β i) (i : ι) (v : β i) :
    ∑ j, g j (Function.update f i v j) + g i (f i) = ∑ j, g j (f j) + g i v := by
  have hsum (h : ∀ i, β i) :=
    Finset.add_sum_erase Finset.univ (fun j => g j (h j)) (Finset.mem_univ i)
  have hrest : ∑ j ∈ Finset.univ.erase i, g j (Function.update f i v j) =
      ∑ j ∈ Finset.univ.erase i, g j (f j) :=
    Finset.sum_congr rfl fun j hj => by rw [Function.update_of_ne (Finset.ne_of_mem_erase hj)]
  have hnew := hsum (Function.update f i v)
  rw [Function.update_self, hrest] at hnew
  have hold := hsum f
  omega

namespace Network

variable {Q W E A : Type} {S : W → Type} [DecidableEq Q] [DecidableEq W]
  {N : Network Q W E A S} {s t : State Q W A S} {l : Label W E} {frames : List A}

section Reads

/-- The source items read so far, numbered in order. -/
structure Reads (frames : List A) (s : State Q W A S) : Prop where
  items : s.reads.map Prod.snd ++ s.unread = frames
  tickets : s.reads.map Prod.fst = List.range s.reads.length

theorem reads_step (h : Reads frames s) (hst : N.Step s l t) : Reads frames t := by
  cases hst with
  | read hunread hu =>
    constructor
    · simp [← h.items, hunread]
    · simp [h.tickets, List.range_succ]
  | push _ hu =>
    have hsame := sameWorkers_offer hu
    constructor
    · simpa only [State.goto, hsame.reads, hsame.unread] using h.items
    · simpa only [State.goto, hsame.reads] using h.tickets
  | control _ hexec =>
    have hdata := sameData_exec hexec
    constructor
    · simpa only [hdata.reads, hdata.unread] using h.items
    · simpa only [hdata.reads] using h.tickets
  | _ => exact ⟨h.items, h.tickets⟩

theorem run_reads {ls : List (Label W E)} (h : Run N.Step (N.init frames) ls s) :
    Reads frames s :=
  h.invariant reads_step ⟨rfl, rfl⟩

omit [DecidableEq Q] [DecidableEq W] in
theorem Reads.next {a : A} {rest : List A} (h : Reads frames s) (hunread : s.unread = a :: rest) :
    frames[s.reads.length]? = some a := by
  rw [← h.items, hunread, List.getElem?_append_right (by simp)]
  simp

omit [DecidableEq Q] [DecidableEq W] in
theorem Reads.mem {n : ℕ} {a : A} (h : Reads frames s) (hunread : s.unread = [])
    (ha : frames[n]? = some a) : (n, a) ∈ s.reads := by
  have hitems := h.items
  rw [hunread, List.append_nil] at hitems
  rw [← hitems, List.getElem?_map, Option.map_eq_some_iff] at ha
  obtain ⟨⟨m, _⟩, hn, rfl⟩ := ha
  have hticket := congrArg (·[n]?) h.tickets
  obtain ⟨hlt, -⟩ := List.getElem?_eq_some_iff.mp hn
  simp only [List.getElem?_map, hn, Option.map_some, List.getElem?_range hlt,
    Option.some.injEq] at hticket
  exact hticket ▸ List.mem_of_getElem? hn

omit [DecidableEq Q] [DecidableEq W] in
theorem Reads.nodup (h : Reads frames s) : s.reads.Nodup := by
  have htickets := h.tickets ▸ List.nodup_range
  exact htickets.of_map

end Reads

section Content

variable {P : Q → ℕ × A → Prop}

/-- Whatever holds of an item in the queue of a worker holds of its result. -/
def Carries (N : Network Q W E A S) (P : Q → ℕ × A → Prop) : Prop :=
  ∀ w e σ n a σ' q b, P (N.input w) (n, a) → N.work w e σ a = some (σ', some (q, b)) → P q (n, b)

/-- The property holds of every item, and the log has only entries of work done. -/
structure Content (N : Network Q W E A S) (P : Q → ℕ × A → Prop) (s : State Q W A S) : Prop where
  queue : ∀ q, ∀ x ∈ (s.queue q).items, P q x
  hold : ∀ w x, s.position w = .hold x → P (N.input w) x
  send : ∀ w q x, s.position w = .send q x → P q x
  popped : ∀ y ∈ s.popped, P (N.input y.1) y.2
  log : ∀ e ∈ s.log, P (N.input e.worker) (e.ticket, e.item) ∧
    ∃ env σ σ', N.work e.worker env σ e.item = some (σ', e.out)

omit [DecidableEq Q] [DecidableEq W] in
theorem content_init (l : List A) : N.Content P (N.init l) where
  queue q x hx := by cases hx
  hold w x hw := by
    simp only [init, head] at hw
    split_ifs at hw
  send w q x hw := by
    simp only [init, head] at hw
    split_ifs at hw
  popped y hy := by cases hy
  log e he := by cases he

omit [DecidableEq Q] in
theorem Content.goto (h : N.Content P s) {w : W} {p : Position Q (ℕ × A)}
    (hhold : ∀ x, p = .hold x → P (N.input w) x) (hsend : ∀ q x, p = .send q x → P q x) :
    N.Content P (s.goto w p) where
  queue := h.queue
  hold v x hv := by
    by_cases hne : v = w
    · subst hne; exact hhold x (position_goto_self s v p ▸ hv)
    · exact h.hold v x (position_goto_of_ne s p hne ▸ hv)
  send v q x hv := by
    by_cases hne : v = w
    · subst hne; exact hsend q x (position_goto_self s v p ▸ hv)
    · exact h.send v q x (position_goto_of_ne s p hne ▸ hv)
  popped := h.popped
  log := h.log

omit [DecidableEq Q] in
theorem Content.goHead (h : N.Content P s) (w : W) : N.Content P (s.goto w (N.head w)) := by
  refine h.goto (fun x hp => ?_) fun q x hp => ?_ <;> · unfold head at hp; split_ifs at hp

omit [DecidableEq W] in
theorem Content.update_queue {q : Q} {u : BoundedQueue (ℕ × A)} (h : N.Content P s)
    (hu : ∀ y ∈ u.items, P q y) (r : Q) (y : ℕ × A)
    (hy : y ∈ (Function.update s.queue q u r).items) : P r y := by
  by_cases hr : r = q
  · subst hr
    rw [Function.update_self] at hy
    exact hu y hy
  · rw [Function.update_of_ne hr] at hy
    exact h.queue r y hy

omit [DecidableEq W] in
theorem Content.offer {q : Q} {x : ℕ × A} (h : N.Content P s) (hx : P q x)
    (ht : s.offer q x = some t) : N.Content P t := by
  rcases offer_some ht with ⟨-, rfl⟩ | ⟨-, rfl⟩
  · exact ⟨h.queue, h.hold, h.send, h.popped, h.log⟩
  · have hput : ∀ y ∈ (s.queue q).items ++ [x], P q y :=
      List.forall_mem_append.mpr ⟨h.queue q, List.forall_mem_singleton.mpr hx⟩
    exact ⟨h.update_queue hput, h.hold, h.send, h.popped, h.log⟩

theorem content_step (hc : N.Carries P)
    (hframes : ∀ n a, frames[n]? = some a → P N.source (n, a)) (hr : Reads frames s)
    (h : N.Content P s) (hst : N.Step s l t) : N.Content P t := by
  cases hst with
  | @read a rest u hunread hu =>
    have hnew := h.offer (hframes _ a (hr.next hunread)) hu
    exact ⟨hnew.queue, hnew.hold, hnew.send, hnew.popped, hnew.log⟩
  | @pop w x q hw hq =>
    have hitems := (BoundedQueue.pop_some hq).1
    have hx : P (N.input w) x := h.queue _ x (hitems ▸ List.mem_cons_self)
    have hnew : N.Content P (s.goto w (.hold x)) :=
      h.goto (fun y hy => by cases hy; exact hx) (by exact nofun)
    have hrest : ∀ y ∈ q.items, P (N.input w) y := fun y hy =>
      h.queue _ y (hitems ▸ List.mem_cons_of_mem x hy)
    have hpopped : ∀ y ∈ s.popped ++ [(w, x)], P (N.input y.1) y.2 :=
      List.forall_mem_append.mpr ⟨h.popped, List.forall_mem_singleton.mpr hx⟩
    exact ⟨h.update_queue hrest, hnew.hold, hnew.send, hpopped, hnew.log⟩
  | @work w e x σ out hw hwork =>
    have hx := h.hold w x hw
    have hnew : N.Content P (s.goto w (N.follow w x.1 out)) := by
      cases out with
      | none => exact h.goHead w
      | some r =>
        refine h.goto (by exact nofun) fun q y hy => ?_
        cases hy
        exact hc w e _ _ _ _ _ _ hx hwork
    have hlog : ∀ e ∈ s.log ++ [⟨w, x.1, x.2, out⟩], P (N.input e.worker) (e.ticket, e.item) ∧
        ∃ env σ σ', N.work e.worker env σ e.item = some (σ', e.out) :=
      List.forall_mem_append.mpr ⟨h.log, List.forall_mem_singleton.mpr ⟨hx, e, _, _, hwork⟩⟩
    exact ⟨hnew.queue, hnew.hold, hnew.send, hnew.popped, hlog⟩
  | @push w q x u hw hu =>
    have hnew := (h.offer (h.send w q x hw) hu).goHead w
    exact ⟨hnew.queue, hnew.hold, hnew.send, hnew.popped, hnew.log⟩
  | maintain hw => exact ⟨h.queue, h.hold, h.send, h.popped, h.log⟩
  | control _ hexec =>
    have hdata := sameData_exec hexec
    refine ⟨fun q x hx => h.queue q x (hdata.items q ▸ hx),
      fun w x hw => h.hold w x (hdata.position ▸ hw),
      fun w q x hw => h.send w q x (hdata.position ▸ hw),
      fun y hy => h.popped y (hdata.popped ▸ hy), fun e he => h.log e (hdata.log ▸ he)⟩
  | timeout _ | sawRunning _ | sawStopped _ | sawItems _ | sawEmpty _ =>
    exact h.goto (by exact nofun) (by exact nofun)

theorem run_content {ls : List (Label W E)} (hc : N.Carries P)
    (hframes : ∀ n a, frames[n]? = some a → P N.source (n, a))
    (h : Run N.Step (N.init frames) ls s) : N.Content P s := by
  apply h.invariant_under (I := Reads frames) (J := N.Content P) reads_step
  · intro s a t hr hcontent hst
    exact content_step hc hframes hr hcontent hst
  · exact ⟨rfl, rfl⟩
  · exact content_init frames

end Content

section History

variable {w : W} {R : S w → List (Entry Q W A) → Prop}

theorem history_step
    (hwork : ∀ {env σ es n a σ' out}, R σ es → N.work w env σ a = some (σ', out) →
      R σ' (es ++ [⟨w, n, a, out⟩]))
    (hsent : ∀ {σ es} q, R σ es → R (N.sent w q σ) es)
    (hmaintain : ∀ {σ es} env, R σ es → R (N.maintain w env σ) es)
    (h : R (s.loc w) (s.log.filter (·.worker = w))) (hst : N.Step s l t) :
    R (t.loc w) (t.log.filter (·.worker = w)) := by
  cases hst with
  | read _ hu =>
    have hsame := sameWorkers_offer hu
    simpa only [hsame.loc, hsame.log] using h
  | @work v e x σ out hv hw =>
    simp only [List.filter_append]
    by_cases hne : w = v
    · subst hne
      simpa using hwork h hw
    · simpa [hne, Ne.symm hne] using h
  | @push v q x u hv hu =>
    have hsame := sameWorkers_offer hu
    simp only [State.goto, hsame.loc, hsame.log]
    by_cases hne : w = v
    · subst hne
      simpa using hsent q h
    · simpa [hne] using h
  | @maintain v e hv =>
    by_cases hne : w = v
    · subst hne
      simpa using hmaintain e h
    · simpa [hne] using h
  | control _ hexec =>
    have hdata := sameData_exec hexec
    simpa only [hdata.loc, hdata.log] using h
  | _ => exact h

theorem run_history {ls : List (Label W E)} (hstart : R (N.start w) [])
    (hwork : ∀ {env σ es n a σ' out}, R σ es → N.work w env σ a = some (σ', out) →
      R σ' (es ++ [⟨w, n, a, out⟩]))
    (hsent : ∀ {σ es} q, R σ es → R (N.sent w q σ) es)
    (hmaintain : ∀ {σ es} env, R σ es → R (N.maintain w env σ) es)
    (h : Run N.Step (N.init frames) ls s) : R (s.loc w) (s.log.filter (·.worker = w)) :=
  h.invariant (I := fun s => R (s.loc w) (s.log.filter (·.worker = w)))
    (history_step hwork hsent hmaintain) hstart

end History

section Conservation

variable (N) (m : Q → ℕ × A → ℕ)

/-- The measure of what is in the hands of a worker. -/
def handWeight (w : W) : Position Q (ℕ × A) → ℕ
  | .hold x => m (N.input w) x
  | .send q x => m q x
  | _ => 0

def outWeight (n : ℕ) : Option (Q × A) → ℕ
  | none => 0
  | some (q, b) => m q (n, b)

/-- The measure of all that has arrived at some queue. -/
def arrived (s : State Q W A S) : ℕ :=
  (s.reads.map (m N.source)).sum + (s.log.map fun e => outWeight m e.ticket e.out).sum

/-- The measure of all that waits in a queue or is in the hands of a worker. -/
def present [Fintype Q] [Fintype W] (s : State Q W A S) : ℕ :=
  ∑ q, ((s.queue q).items.map (m q)).sum + ∑ w, N.handWeight m w (s.position w)

def finished (s : State Q W A S) : ℕ :=
  (s.log.map fun e => m (N.input e.worker) (e.ticket, e.item)).sum +
    (s.dropped.map fun d => m d.1 d.2).sum

variable {N m} [Fintype Q] [Fintype W]

omit [DecidableEq Q] [DecidableEq W] [Fintype Q] [Fintype W] in
theorem handWeight_hold (w : W) (x : ℕ × A) : N.handWeight m w (.hold x) = m (N.input w) x := rfl

omit [DecidableEq Q] [DecidableEq W] [Fintype Q] [Fintype W] in
theorem handWeight_send (w : W) (q : Q) (x : ℕ × A) : N.handWeight m w (.send q x) = m q x := rfl

omit [DecidableEq Q] [DecidableEq W] [Fintype Q] [Fintype W] in
theorem handWeight_head (w : W) : N.handWeight m w (N.head w) = 0 := by
  unfold head; split_ifs <;> rfl

omit [DecidableEq Q] [Fintype Q] in
theorem handWeight_goto (w : W) (p : Position Q (ℕ × A)) (s : State Q W A S) :
    ∑ v, N.handWeight m v ((s.goto w p).position v) + N.handWeight m w (s.position w) =
      ∑ v, N.handWeight m v (s.position v) + N.handWeight m w p :=
  Fintype.sum_update_add (fun v => N.handWeight m v) s.position w p

omit [DecidableEq W] [Fintype W] in
theorem queueWeight_update (q : Q) (r : BoundedQueue (ℕ × A)) (s : State Q W A S) :
    ∑ p, ((Function.update s.queue q r p).items.map (m p)).sum +
        ((s.queue q).items.map (m q)).sum =
      ∑ p, ((s.queue p).items.map (m p)).sum + (r.items.map (m q)).sum :=
  Fintype.sum_update_add (fun p (r : BoundedQueue (ℕ × A)) => (r.items.map (m p)).sum) s.queue q r

omit [DecidableEq Q] in
theorem conserved_goto {w : W} {p : Position Q (ℕ × A)}
    (h : N.arrived m s = N.present m s + N.finished m s)
    (hw : N.handWeight m w (s.position w) = 0) (hp : N.handWeight m w p = 0) :
    N.arrived m (s.goto w p) = N.present m (s.goto w p) + N.finished m (s.goto w p) := by
  have hhand := handWeight_goto (N := N) (m := m) w p s
  have hpresent : N.present m (s.goto w p) = N.present m s := by
    unfold present
    change ∑ q, ((s.queue q).items.map (m q)).sum + _ = _
    omega
  rw [hpresent]
  exact h

omit [DecidableEq W] in
theorem conserved_offer {q : Q} {x : ℕ × A} (h : s.offer q x = some t) :
    N.present m t + N.finished m t = N.present m s + N.finished m s + m q x := by
  rcases offer_some h with ⟨-, rfl⟩ | ⟨-, rfl⟩
  · simp only [present, finished, List.map_append, List.sum_append, List.map_singleton,
      List.sum_singleton]
    omega
  · have := queueWeight_update (m := m) q
      { s.queue q with items := (s.queue q).items ++ [x] } s
    simp only [List.map_append, List.sum_append, List.map_singleton, List.sum_singleton] at this
    simp only [present, finished]
    omega

/-- What has arrived is present or finished. -/
theorem conserved_step (h : N.arrived m s = N.present m s + N.finished m s)
    (hst : N.Step s l t) : N.arrived m t = N.present m t + N.finished m t := by
  cases hst with
  | @read a rest u hunread hu =>
    have hc := conserved_offer (N := N) (m := m) hu
    have hlog := (sameWorkers_offer hu).log
    simp only [arrived, present, finished, hlog, List.map_append, List.sum_append,
      List.map_singleton, List.sum_singleton] at h hc ⊢
    omega
  | @pop w x q hw hq =>
    have hhand := handWeight_goto (N := N) (m := m) w (.hold x) s
    have hqueue := queueWeight_update (m := m) (N.input w) q s
    rw [(BoundedQueue.pop_some hq).1, List.map_cons, List.sum_cons] at hqueue
    have hpop : N.handWeight m w .pop = 0 := rfl
    rw [hw, handWeight_hold, hpop] at hhand
    simp only [arrived, present, finished, State.goto] at h hhand ⊢
    omega
  | @work w e x σ out hw hwork =>
    have hhand := handWeight_goto (N := N) (m := m) w (N.follow w x.1 out) s
    have hout : N.handWeight m w (N.follow w x.1 out) = outWeight m x.1 out := by
      cases out with
      | none => exact handWeight_head w
      | some r => rfl
    rw [hw, hout, handWeight_hold] at hhand
    simp only [arrived, present, finished, State.goto, List.map_append, List.sum_append,
      List.map_singleton, List.sum_singleton, Prod.mk.eta] at h hhand ⊢
    omega
  | @push w q x u hw hu =>
    have hc := conserved_offer (N := N) (m := m) hu
    have hsame := sameWorkers_offer hu
    have hhand := handWeight_goto (N := N) (m := m) w (N.head w) u
    rw [hsame.position, hw, handWeight_head, handWeight_send] at hhand
    simp only [arrived, present, finished, State.goto, hsame.log, hsame.reads, hsame.position]
      at h hc hhand ⊢
    omega
  | maintain hw => exact h
  | @control c rest u _ hexec =>
    have hdata := sameData_exec hexec
    simp only [arrived, present, finished, hdata.items, hdata.position, hdata.reads, hdata.log,
      hdata.dropped] at h ⊢
    exact h
  | timeout hw _ | sawRunning hw _ | sawStopped hw _ | sawItems hw _ | sawEmpty hw _ =>
    exact conserved_goto h (by rw [hw]; rfl) rfl

omit [DecidableEq Q] [DecidableEq W] in
theorem present_eq_zero_of (hqueue : ∀ q, ∀ x ∈ (s.queue q).items, m q x = 0)
    (hhand : ∀ w, N.handWeight m w (s.position w) = 0) : N.present m s = 0 := by
  have hitems (q : Q) : ((s.queue q).items.map (m q)).sum = 0 := by
    apply List.sum_eq_zero
    intro c hc
    obtain ⟨x, hx, rfl⟩ := List.mem_map.mp hc
    exact hqueue q x hx
  rw [present, Finset.sum_eq_zero fun q _ => hitems q, Finset.sum_eq_zero fun w _ => hhand w,
    add_zero]

theorem run_conserved {ls : List (Label W E)} (h : Run N.Step (N.init frames) ls s) :
    N.arrived m s = N.present m s + N.finished m s := by
  apply h.invariant (I := fun s => N.arrived m s = N.present m s + N.finished m s) conserved_step
  simp [arrived, present, finished, init, handWeight_head]

end Conservation

end Network
