import DpiEngine.Library.Fairness
import DpiEngine.Library.Limits
import DpiEngine.Library.Potential

/-! # Progress of a network

As long as the script is not at its end, some agent can move something, or a
worker only has to look at its queue or at its flag first. So a fair execution
gets to the end of the script, unless some work does not return.
-/

section Before

/-- Every occurrence of the second element comes after the first. -/
def Before {α : Type*} (d c : α) (l : List α) : Prop := ∀ pre post, l = pre ++ c :: post → d ∈ pre

theorem before_of_notMem {α : Type*} {d c : α} {l : List α} (h : c ∉ l) : Before d c l := by
  rintro pre post rfl
  exact absurd (List.mem_append_right pre List.mem_cons_self) h

theorem Before.append {α : Type*} {d c : α} {l l' : List α} (h : Before d c l)
    (h' : Before d c l') : Before d c (l ++ l') := by
  intro pre post heq
  rcases List.append_eq_append_iff.mp heq with ⟨m, rfl, hm⟩ | ⟨m, rfl, hm⟩
  · exact List.mem_append_right l (h' m post hm)
  · cases m with
    | nil => exact absurd (h' [] post (by simpa using hm.symm)) List.not_mem_nil
    | cons e m =>
      obtain ⟨rfl, -⟩ := List.cons.inj hm
      exact h pre m rfl

theorem before_flatMap {α β : Type*} {d c : α} {f : β → List α} {l : List β}
    (h : ∀ x ∈ l, Before d c (f x)) : Before d c (l.flatMap f) := by
  induction l with
  | nil => exact before_of_notMem List.not_mem_nil
  | cons x l ih =>
    rw [List.flatMap_cons]
    exact (h x List.mem_cons_self).append (ih fun y hy => h y (List.mem_cons_of_mem x hy))

end Before

namespace Network

variable {Q W E A : Type} {S : W → Type} {N : Network Q W E A S} {s t u : State Q W A S}
  {a : Label W E} {v w : W} {q : Q}

inductive Agent (W : Type)
  | source
  | worker (w : W)
  | controller

/-- The agent that takes the step. Maintenance is nobody's duty. -/
def Label.agent : Label W E → Option (Agent W)
  | .read => some .source
  | .pop w | .timeout w | .work w _ | .push w | .test w => some (.worker w)
  | .maintain _ _ => none
  | .control => some .controller

def Idle (p : Position Q (ℕ × A)) : Prop := p = .pop ∨ p = .testRunning ∨ p = .testEmpty

def testsLeft : Position Q (ℕ × A) → ℕ
  | .testRunning => 2
  | .testEmpty => 1
  | _ => 0

def stepsToExit : Position Q (ℕ × A) → ℕ
  | .pop => 3
  | .testRunning => 2
  | .testEmpty => 1
  | _ => 0

def Blocked (N : Network Q W E A S) (s : State Q W A S) : Prop :=
  ∃ w x, s.position w = .hold x ∧ ∀ e, N.work w e (s.loc w) x.2 = none

variable [DecidableEq Q] [DecidableEq W]

/-- The facts that progress rests on. A full queue has a worker that can make room. -/
structure Sound (N : Network Q W E A S) (s : State Q W A S) : Prop where
  staged : N.Staged s
  room : ∀ q, 0 < (s.queue q).maxSize
  cleared : ∀ w, .clear w ∈ s.done → s.running w = false
  served : ∀ w q x, s.position w = .send q x → s.offer q x = none →
    ∃ v, N.input v = q ∧ s.position v ≠ .exited
  servedSource : s.unread ≠ [] → ∃ v, N.input v = N.source ∧ s.position v ≠ .exited

/-- The step stays possible until something moves. -/
def Label.steady : Label W E → Bool
  | .read | .work _ _ | .push _ | .control => true
  | .pop _ | .timeout _ | .test _ | .maintain _ _ => false

/-- What can lead to a move. -/
inductive Next (N : Network Q W E A S) (s : State Q W A S) : Prop
  | steady (b : Label W E) (s' : State Q W A S) : b.steady = true → N.Step s b s' → Next N s
  | item (v : W) : Idle (s.position v) → (s.queue (N.input v)).items ≠ [] → Next N s
  | leave (v : W) (rest : List (Command Q W)) : s.script = .join v :: rest →
      Idle (s.position v) → s.running v = false → Next N s

omit [DecidableEq W] in
theorem items_ne_nil_of_offer {x : ℕ × A} (hroom : 0 < (s.queue q).maxSize)
    (h : s.offer q x = none) : (s.queue q).items ≠ [] := by
  rw [State.offer, Option.map_eq_none_iff, BoundedQueue.push] at h
  split_ifs at h with hshut hfull
  rw [← List.length_pos_iff]
  omega

section Search

variable {rank : Q → ℕ} (hrank : N.Descends rank) (hs : N.Sound s) (hblocked : ¬ N.Blocked s)
include hrank hs hblocked

theorem next_of_worker (hw : s.position w ≠ .exited)
    (hbusy : (s.position w).Busy ∨ (s.queue (N.input w)).items ≠ []) : N.Next s := by
  induction hn : rank (N.input w) using Nat.strongRecOn generalizing w with
  | ind n ih =>
    subst hn
    cases hpos : s.position w with
    | pop =>
      rw [hpos] at hbusy
      exact .item w (.inl hpos) (hbusy.resolve_left id)
    | testRunning =>
      rw [hpos] at hbusy
      exact .item w (.inr (.inl hpos)) (hbusy.resolve_left id)
    | testEmpty =>
      rw [hpos] at hbusy
      exact .item w (.inr (.inr hpos)) (hbusy.resolve_left id)
    | hold x =>
      have hreturns : ∃ e, N.work w e (s.loc w) x.2 ≠ none := by
        by_contra hnone
        exact hblocked ⟨w, x, hpos, fun e => not_not.mp fun he => hnone ⟨e, he⟩⟩
      obtain ⟨e, he⟩ := hreturns
      obtain ⟨⟨σ, out⟩, hwork⟩ := Option.ne_none_iff_exists'.mp he
      exact .steady _ _ rfl (.work hpos hwork)
    | send q x =>
      cases hoffer : s.offer q x with
      | some t => exact .steady _ _ rfl (.push hpos hoffer)
      | none =>
        obtain ⟨v, hv, hexit⟩ := hs.served w q x hpos hoffer
        have hlt : rank (N.input v) < rank (N.input w) :=
          hv ▸ hrank w q (hs.staged.sends w q x hpos)
        exact ih _ hlt hexit (.inr (hv ▸ items_ne_nil_of_offer (hs.room q) hoffer)) rfl
    | exited => exact absurd hpos hw

theorem exists_next (hjoin : ∀ w, N.Precedes (.clear w) (.join w)) (hscript : s.script ≠ []) :
    N.Next s := by
  obtain ⟨c, rest, hc⟩ := List.exists_cons_of_ne_nil hscript
  cases c with
  | close q => exact .steady _ _ rfl (.control hc rfl)
  | clear w => exact .steady _ _ rfl (.control hc rfl)
  | joinSource =>
    cases hunread : s.unread with
    | nil => exact .steady _ _ rfl (.control hc (by rw [State.exec, hunread]; rfl))
    | cons a l =>
      cases hoffer : s.offer N.source (s.reads.length, a) with
      | some t => exact .steady _ _ rfl (.read hunread hoffer)
      | none =>
        obtain ⟨v, hv, hexit⟩ := hs.servedSource (by simp [hunread])
        exact next_of_worker hrank hs hblocked hexit
          (.inr (hv ▸ items_ne_nil_of_offer (hs.room _) hoffer))
  | join w =>
    have hcleared : s.running w = false := by
      refine hs.cleared w (hjoin w s.done rest ?_)
      rw [← hs.staged.script, hc]
    have hbusy (h : (s.position w).Busy) : N.Next s := by
      refine next_of_worker hrank hs hblocked (fun hexit => ?_) (.inl h)
      rw [hexit] at h
      exact h
    cases hpos : s.position w with
    | pop => exact .leave w rest hc (.inl hpos) hcleared
    | testRunning => exact .leave w rest hc (.inr (.inl hpos)) hcleared
    | testEmpty => exact .leave w rest hc (.inr (.inr hpos)) hcleared
    | hold x => exact hbusy (by rw [hpos]; trivial)
    | send q x => exact hbusy (by rw [hpos]; trivial)
    | exited => exact .steady _ _ rfl (.control hc (by rw [State.exec, hpos]))

end Search

structure Still (s t : State Q W A S) : Prop where
  queue : t.queue = s.queue
  unread : t.unread = s.unread
  running : t.running = s.running
  script : t.script = s.script
  reads : t.reads = s.reads
  worker : ∀ w, ¬ Idle (s.position w) → t.position w = s.position w ∧ t.loc w = s.loc w

/-- What a worker does without moving an item. -/
inductive Waits (N : Network Q W E A S) (s : State Q W A S) (w : W) : Position Q (ℕ × A) → Prop
  | timeout : s.position w = .pop → (s.queue (N.input w)).items = [] → Waits N s w .testRunning
  | sawRunning : s.position w = .testRunning → s.running w = true → Waits N s w .pop
  | sawStopped : s.position w = .testRunning → s.running w = false → Waits N s w .testEmpty
  | sawItems : s.position w = .testEmpty → (s.queue (N.input w)).items ≠ [] → Waits N s w .pop
  | sawEmpty : s.position w = .testEmpty → (s.queue (N.input w)).items = [] → Waits N s w .exited

theorem still_step (hst : N.Step s a t) (ha : a.moves = false) : Still s t := by
  have hgoto {w : W} (p : Position Q (ℕ × A)) (hw : Idle (s.position w)) : Still s (s.goto w p) :=
    ⟨rfl, rfl, rfl, rfl, rfl, fun v hv =>
      ⟨position_goto_of_ne s p fun hvw => hv (hvw ▸ hw), rfl⟩⟩
  cases hst with
  | read _ _ | pop _ _ | work _ _ | push _ _ | control _ _ => cases ha
  | @maintain w e hw =>
    refine ⟨rfl, rfl, rfl, rfl, rfl, fun v hv => ⟨rfl, ?_⟩⟩
    refine Function.update_of_ne ?_ ..
    rintro rfl
    exact hv (.inl hw)
  | timeout hw _ => exact hgoto _ (.inl hw)
  | sawRunning hw _ | sawStopped hw _ => exact hgoto _ (.inr (.inl hw))
  | sawItems hw _ | sawEmpty hw _ => exact hgoto _ (.inr (.inr hw))

/-- A step that moves nothing is the wait of one worker, or nobody's step. -/
theorem waits_step (hst : N.Step s a t) (ha : a.moves = false) (w : W) :
    (t.position w = s.position w ∧ a.agent ≠ some (.worker w)) ∨ N.Waits s w (t.position w) := by
  have hgoto {v : W} {p : Position Q (ℕ × A)} (hp : N.Waits s v p) :
      ((s.goto v p).position w = s.position w ∧ some (Agent.worker v) ≠ some (.worker w)) ∨
        N.Waits s w ((s.goto v p).position w) := by
    by_cases hw : w = v
    · subst hw
      exact .inr ((position_goto_self s w p).symm ▸ hp)
    · exact .inl ⟨position_goto_of_ne s p hw, fun h => hw (by cases h; rfl)⟩
  cases hst with
  | read _ _ | pop _ _ | work _ _ | push _ _ | control _ _ => cases ha
  | maintain hw => exact .inl ⟨rfl, nofun⟩
  | timeout hw hq => exact hgoto (.timeout hw hq)
  | sawRunning hw hr => exact hgoto (.sawRunning hw hr)
  | sawStopped hw hr => exact hgoto (.sawStopped hw hr)
  | sawItems hw hq => exact hgoto (.sawItems hw hq)
  | sawEmpty hw hq => exact hgoto (.sawEmpty hw hq)

omit [DecidableEq W] in
theorem Still.offer {x : ℕ × A} (h : Still s t) (hu : s.offer q x = some u) :
    ∃ u', t.offer q x = some u' := by
  obtain ⟨r, hr, -⟩ := Option.map_eq_some_iff.mp hu
  rw [← h.queue] at hr
  exact ⟨_, by rw [State.offer, hr]; rfl⟩

theorem Still.steady (h : Still s t) (hb : a.steady = true) (hst : N.Step s a u) :
    ∃ u', N.Step t a u' := by
  have hworker {w : W} {p : Position Q (ℕ × A)} (hw : s.position w = p) (hp : ¬ Idle p) :
      t.position w = p ∧ t.loc w = s.loc w := by
    subst hw
    exact h.worker w hp
  have hbusy {q : Q} {x : ℕ × A} : ¬ Idle (Position.hold x : Position Q _) ∧
      ¬ Idle (Position.send q x) := by simp [Idle]
  cases hst with
  | @read a rest v hunread hu =>
    rw [← h.unread] at hunread
    rw [← h.reads] at hu
    obtain ⟨u', hu'⟩ := h.offer hu
    exact ⟨_, .read hunread hu'⟩
  | @work w e x σ out hw hwork =>
    obtain ⟨hpos, hloc⟩ := hworker hw (hbusy (q := N.source)).1
    rw [← hloc] at hwork
    exact ⟨_, .work hpos hwork⟩
  | push hw hu =>
    obtain ⟨u', hu'⟩ := h.offer hu
    exact ⟨_, .push (hworker hw hbusy.2).1 hu'⟩
  | @control c rest v hscript hexec =>
    rw [← h.script] at hscript
    cases c with
    | joinSource =>
      obtain ⟨hunread, -⟩ := exec_joinSource hexec
      exact ⟨_, .control hscript (by rw [State.exec, h.unread, hunread]; rfl)⟩
    | close q => exact ⟨_, .control hscript rfl⟩
    | clear w => exact ⟨_, .control hscript rfl⟩
    | join w =>
      obtain ⟨hexit, -⟩ := exec_join hexec
      have hpos := (hworker hexit (by simp [Idle])).1
      exact ⟨_, .control hscript (by rw [State.exec, hpos])⟩
  | pop _ _ | timeout _ _ | sawRunning _ _ | sawStopped _ _ | sawItems _ _ | sawEmpty _ _ =>
    cases hb
  | maintain _ => cases hb

theorem moves_of_steady {b : Label W E} (hb : b.steady = true) (hu : N.Step s b u)
    (hst : N.Step s a t) (hagent : a.agent = b.agent) : a.moves = true := by
  refine Bool.eq_true_of_not_eq_false fun ha => ?_
  have hidle (w : W) (hw : a.agent = some (.worker w)) : Idle (s.position w) := by
    rcases waits_step hst ha w with ⟨-, hne⟩ | hwaits
    · exact absurd hw hne
    · generalize t.position w = p at hwaits
      cases hwaits with
      | timeout h _ => exact .inl h
      | sawRunning h _ | sawStopped h _ => exact .inr (.inl h)
      | sawItems h _ | sawEmpty h _ => exact .inr (.inr h)
  cases hu with
  | read _ _ | control _ _ =>
    cases a <;> cases hagent
    cases ha
  | work hw _ => simpa [Idle, hw] using hidle _ hagent
  | push hw _ => simpa [Idle, hw] using hidle _ hagent
  | pop _ _ | timeout _ _ | sawRunning _ _ | sawStopped _ _ | sawItems _ _ | sawEmpty _ _ =>
    cases hb
  | maintain _ => cases hb

section Fair

variable {p : State Q W A S → Label W E → Prop} {J : State Q W A S → Prop}
  {x : ℕ → State Q W A S} {act : ℕ → Option (Label W E)} {m : ℕ}

/-- The steps that the condition allows. -/
def Allowed (N : Network Q W E A S) (p : State Q W A S → Label W E → Prop) (s : State Q W A S)
    (a : Label W E) (t : State Q W A S) : Prop :=
  N.Step s a t ∧ p s a

/-- The condition keeps a worker from its exit at most, and not while the script waits for it. -/
structure Restrains (N : Network Q W E A S) (J : State Q W A S → Prop)
    (p : State Q W A S → Label W E → Prop) : Prop where
  exit : ∀ s a, p s a ∨
    ∃ w, a = .test w ∧ s.position w = .testEmpty ∧ (s.queue (N.input w)).items = []
  join : ∀ s w rest, J s → s.script = .join w :: rest → p s (.test w)

omit [DecidableEq Q] [DecidableEq W] in
theorem Restrains.of_position (h : Restrains N J p) (ha : ∀ w, a ≠ .test w) : p s a :=
  (h.exit s a).resolve_right fun ⟨w, hw, _⟩ => ha w hw

omit [DecidableEq Q] [DecidableEq W] in
theorem Restrains.test (h : Restrains N J p)
    (hw : s.position w ≠ .testEmpty ∨ (s.queue (N.input w)).items ≠ []) : p s (.test w) := by
  refine (h.exit s _).resolve_right ?_
  rintro ⟨v, hv, hpos, hitems⟩
  cases hv
  exact hw.elim (fun hne => hne hpos) fun hne => hne hitems

variable (hp : Restrains N J p) (h : FairExecution Label.agent (N.Allowed p) x act)
include hp h

theorem moves_of_ready {b : Label W E} (hb : b.steady = true) (hu : N.Step (x m) b u) :
    ∃ n, m ≤ n ∧ ∃ a, act n = some a ∧ a.moves = true := by
  obtain ⟨g, hg⟩ : ∃ g, b.agent = some g := by
    cases b <;> first | exact ⟨_, rfl⟩ | cases hb
  have hnext := h.leads (I := fun s => ∃ u, N.Step s b u) (K := fun _ => False) (ρ := fun _ => 0)
    (G := fun a => a.moves = true) (g := g) ?_ ?_ ⟨u, hu⟩
  · obtain ⟨n, hn, hmoves | hfalse⟩ := hnext
    · exact ⟨n, hn, hmoves⟩
    · exact hfalse.elim
  · rintro s ⟨u, hu⟩
    exact ⟨b, u, hg, hu, hp.of_position fun w hw => by rw [hw] at hb; cases hb⟩
  · rintro s a t ⟨u, hu⟩ ⟨hst, -⟩
    by_cases hmoves : a.moves = true
    · exact .inl hmoves
    · have hstill := still_step hst (Bool.eq_false_of_not_eq_true hmoves)
      exact .inr (.inr ⟨hstill.steady hb hu, le_rfl, fun hagent =>
        absurd (moves_of_steady hb hu hst (hagent.trans hg.symm)) hmoves⟩)

theorem moves_of_item (hidle : Idle ((x m).position w))
    (hitems : ((x m).queue (N.input w)).items ≠ []) :
    ∃ n, m ≤ n ∧ ∃ a, act n = some a ∧ a.moves = true := by
  have hnext := h.leads
    (I := fun s => Idle (s.position w) ∧ (s.queue (N.input w)).items ≠ [])
    (K := fun _ => False) (ρ := fun s => testsLeft (s.position w))
    (G := fun a => a.moves = true) (g := .worker w) ?_ ?_ ⟨hidle, hitems⟩
  · obtain ⟨n, hn, hmoves | hfalse⟩ := hnext
    · exact ⟨n, hn, hmoves⟩
    · exact hfalse.elim
  · rintro s ⟨hpos | hpos | hpos, hitems⟩
    · obtain ⟨y, rest, hy⟩ := List.exists_cons_of_ne_nil hitems
      have hpop : (s.queue (N.input w)).pop =
          some (y, { s.queue (N.input w) with items := rest }) := by
        rw [BoundedQueue.pop, hy]
      exact ⟨_, _, rfl, .pop hpos hpop, hp.of_position (by simp)⟩
    · have htest : p s (.test w) := hp.test (.inr hitems)
      cases hr : s.running w with
      | true => exact ⟨_, _, rfl, .sawRunning hpos hr, htest⟩
      | false => exact ⟨_, _, rfl, .sawStopped hpos hr, htest⟩
    · exact ⟨_, _, rfl, .sawItems hpos hitems, hp.test (.inr hitems)⟩
  · rintro s a t ⟨hidle, hitems⟩ ⟨hst, -⟩
    by_cases hmoves : a.moves = true
    · exact .inl hmoves
    have ha := Bool.eq_false_of_not_eq_true hmoves
    have hqueue := (still_step hst ha).queue
    refine .inr (.inr ?_)
    rcases waits_step hst ha w with ⟨hsame, hagent⟩ | hwaits
    · rw [hsame, hqueue]
      exact ⟨⟨hidle, hitems⟩, le_rfl, fun hw => absurd hw hagent⟩
    · rw [hqueue]
      generalize t.position w = p' at hwaits
      cases hwaits with
      | timeout _ hnil => exact absurd hnil hitems
      | sawRunning hpos _ => exact ⟨⟨.inl rfl, hitems⟩, by simp [hpos, testsLeft]⟩
      | sawStopped hpos _ => exact ⟨⟨.inr (.inr rfl), hitems⟩, by simp [hpos, testsLeft]⟩
      | sawItems hpos _ => exact ⟨⟨.inl rfl, hitems⟩, by simp [hpos, testsLeft]⟩
      | sawEmpty _ hnil => exact absurd hnil hitems

theorem moves_of_leave (hJ : ∀ {s a t}, J s → N.Allowed p s a t → J t) (hj : J (x m))
    {rest : List (Command Q W)} (hscript : (x m).script = .join w :: rest)
    (hidle : Idle ((x m).position w)) (hrunning : (x m).running w = false) :
    ∃ n, m ≤ n ∧ ∃ a, act n = some a ∧ a.moves = true := by
  by_cases hitems : ((x m).queue (N.input w)).items = []
  swap
  · exact moves_of_item hp h hidle hitems
  have hnext := h.leads
    (I := fun s => J s ∧ s.script = .join w :: rest ∧ Idle (s.position w) ∧ s.running w = false ∧
      (s.queue (N.input w)).items = [])
    (K := fun s => s.script = .join w :: rest ∧ s.position w = .exited)
    (ρ := fun s => stepsToExit (s.position w)) (G := fun a => a.moves = true) (g := .worker w)
    ?_ ?_ ⟨hj, hscript, hidle, hrunning, hitems⟩
  · obtain ⟨n, hn, hmoves | ⟨hscript, hexit⟩⟩ := hnext
    · exact ⟨n, hn, hmoves⟩
    · have hcontrol : N.Step (x n) .control _ :=
        .control hscript (t := x n) (by rw [State.exec, hexit])
      obtain ⟨n', hn', hmoves⟩ := moves_of_ready hp h rfl hcontrol
      exact ⟨n', hn.trans hn', hmoves⟩
  · rintro s ⟨hj, hscript, hpos | hpos | hpos, hrunning, hitems⟩
    · exact ⟨_, _, rfl, .timeout hpos hitems, hp.of_position (by simp)⟩
    · exact ⟨_, _, rfl, .sawStopped hpos hrunning, hp.join s w rest hj hscript⟩
    · exact ⟨_, _, rfl, .sawEmpty hpos hitems, hp.join s w rest hj hscript⟩
  · rintro s a t ⟨hj, hscript, hidle, hrunning, hitems⟩ hst
    by_cases hmoves : a.moves = true
    · exact .inl hmoves
    have ha := Bool.eq_false_of_not_eq_true hmoves
    have hstill := still_step hst.1 ha
    have hjt := hJ hj hst
    refine .inr ?_
    rw [hstill.script, hstill.running, hstill.queue]
    rcases waits_step hst.1 ha w with ⟨hsame, hagent⟩ | hwaits
    · rw [hsame]
      exact .inr ⟨⟨hjt, hscript, hidle, hrunning, hitems⟩, le_rfl, fun hw => absurd hw hagent⟩
    · generalize t.position w = p' at hwaits
      cases hwaits with
      | timeout hpos _ =>
        exact .inr ⟨⟨hjt, hscript, .inr (.inl rfl), hrunning, hitems⟩, by simp [hpos, stepsToExit]⟩
      | sawRunning _ hr => cases hr.symm.trans hrunning
      | sawStopped hpos _ =>
        exact .inr ⟨⟨hjt, hscript, .inr (.inr rfl), hrunning, hitems⟩, by simp [hpos, stepsToExit]⟩
      | sawItems _ hne => exact absurd hitems hne
      | sawEmpty _ _ => exact .inl ⟨hscript, rfl⟩

variable [Fintype Q] [Fintype W] {rank : Q → ℕ}

/-- In a fair execution the script comes to its end, unless a worker is blocked by an item or the
network gets into an unsound state. -/
theorem script_ends (hrank : N.Descends rank) (hjoin : ∀ w, N.Precedes (.clear w) (.join w))
    (hJ : ∀ {s a t}, J s → N.Allowed p s a t → J t) (hstart : J (x m)) :
    ∃ n, m ≤ n ∧ ((x n).script = [] ∨ N.Blocked (x n) ∨ ¬ N.Sound (x n)) := by
  refine h.reaches (J := J) (T := fun s => s.script = [] ∨ N.Blocked s ∨ ¬ N.Sound s)
    (U := N.potential rank) (G := fun a => a.moves = true) hJ ?_ ?_ ?_ hstart
  · intro s a t _ hst
    exact (Nat.le_add_right _ _).trans (potential_step hrank hst.1)
  · intro s a t _ hst hmoves
    have hstep := potential_step hrank hst.1
    rw [if_pos hmoves] at hstep
    exact hstep
  · intro m hj htarget
    rw [not_or, not_or, not_not] at htarget
    obtain ⟨hscript, hblocked, hsound⟩ := htarget
    have hmoves : ∃ n, m ≤ n ∧ ∃ a, act n = some a ∧ a.moves = true := by
      cases exists_next hrank hsound hblocked hjoin hscript with
      | steady b u hb hu => exact moves_of_ready hp h hb hu
      | item w hidle hitems => exact moves_of_item hp h hidle hitems
      | leave w rest hscript hidle hrunning =>
        exact moves_of_leave hp h hJ hj hscript hidle hrunning
    obtain ⟨n, hn, hmove⟩ := hmoves
    exact ⟨n, hn, .inl hmove⟩

end Fair

theorem not_enabled_of_exited {p : State Q W A S → Label W E → Prop} (hunread : s.unread = [])
    (hscript : s.script = []) (hexit : ∀ w, s.position w = .exited) (g : Agent W) :
    ¬ Enabled Label.agent (N.Allowed p) g s := by
  rintro ⟨a, t, -, hst, -⟩
  cases hst with
  | read hu _ => cases hunread.symm.trans hu
  | control hc _ => cases hscript.symm.trans hc
  | maintain hw => cases (hexit _).symm.trans hw
  | pop hw _ | timeout hw _ | work hw _ | push hw _ => cases (hexit _).symm.trans hw
  | sawRunning hw _ | sawStopped hw _ | sawItems hw _ | sawEmpty hw _ =>
    cases (hexit _).symm.trans hw

end Network
