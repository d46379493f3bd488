import DpiEngine.Library.Runs
import Mathlib.Logic.Function.Basic

/-! # Networks of queues and workers

Workers pop items from bounded queues, work on them and push results to other
queues, while a source feeds one queue and a controller executes a shutdown
script. Every critical section of a queue is one step. Items carry the number of
the source item they come from.
-/

structure BoundedQueue (α : Type) where
  maxSize : ℕ
  items : List α := []
  isShutdown : Bool := false

namespace BoundedQueue

variable {α : Type} {q q' : BoundedQueue α} {x : α}

def push (q : BoundedQueue α) (x : α) : Option (BoundedQueue α) :=
  if q.isShutdown then some q
  else if q.maxSize ≤ q.items.length then none
  else some { q with items := q.items ++ [x] }

/-- A pop takes the first item; it has none at an empty queue. -/
def pop (q : BoundedQueue α) : Option (α × BoundedQueue α) :=
  match q.items with
  | [] => none
  | x :: rest => some (x, { q with items := rest })

def shutdown (q : BoundedQueue α) : BoundedQueue α := { q with isShutdown := true }

theorem push_some (h : q.push x = some q') :
    q.isShutdown = true ∧ q' = q ∨
      q.isShutdown = false ∧ q' = { q with items := q.items ++ [x] } := by
  unfold push at h
  split_ifs at h with hshut hfull
  · exact .inl ⟨hshut, (Option.some.inj h).symm⟩
  · exact .inr ⟨Bool.not_eq_true _ ▸ hshut, (Option.some.inj h).symm⟩

theorem push_open (h : q.push x = some q') (hopen : q.isShutdown = false) :
    q.items.length < q.maxSize ∧ q' = { q with items := q.items ++ [x] } := by
  unfold push at h
  split_ifs at h with hshut hfull
  · exact absurd hshut (by simp [hopen])
  · exact ⟨not_le.mp hfull, (Option.some.inj h).symm⟩

theorem pop_some (h : q.pop = some (x, q')) :
    q.items = x :: q'.items ∧ q'.isShutdown = q.isShutdown := by
  unfold pop at h
  split at h
  · cases h
  · next hitems => cases h; exact ⟨hitems, rfl⟩

theorem maxSize_pop (h : q.pop = some (x, q')) : q'.maxSize = q.maxSize := by
  unfold pop at h
  split at h
  · cases h
  · cases h
    rfl

end BoundedQueue

/-- Where a worker stands in its loop. -/
inductive Position (Q X : Type)
  | pop
  | hold (x : X)
  | send (q : Q) (x : X)
  | testRunning
  | testEmpty
  | exited
  deriving DecidableEq

/-- The worker has an item in its hands. -/
def Position.Busy {Q X : Type} : Position Q X → Prop
  | .hold _ | .send _ _ => True
  | _ => False

instance {Q X : Type} : (p : Position Q X) → Decidable p.Busy
  | .hold _ | .send _ _ => isTrue trivial
  | .pop | .testRunning | .testEmpty | .exited => isFalse id

inductive Command (Q W : Type)
  | joinSource
  | close (q : Q)
  | clear (w : W)
  | join (w : W)
  deriving DecidableEq

structure Network (Q W E A : Type) (S : W → Type) where
  source : Q
  maxSize : Q → ℕ
  input : W → Q
  /-- Whether the worker tests its flag before each pop, and not only after a timeout. -/
  testsFirst : W → Bool
  start : (w : W) → S w
  /-- The work on an item, none if it does not return. -/
  work : (w : W) → E → S w → A → Option (S w × Option (Q × A))
  /-- What the worker does after it has pushed a result. -/
  sent : (w : W) → Q → S w → S w
  maintain : (w : W) → E → S w → S w
  script : List (Command Q W)

namespace Network

variable {Q W E A : Type} {S : W → Type}

structure Entry (Q W A : Type) where
  worker : W
  ticket : ℕ
  item : A
  out : Option (Q × A)

/-- The last five fields record the history. -/
structure State (Q W A : Type) (S : W → Type) where
  queue : Q → BoundedQueue (ℕ × A)
  position : W → Position Q (ℕ × A)
  running : W → Bool
  loc : (w : W) → S w
  unread : List A
  script : List (Command Q W)
  done : List (Command Q W) := []
  reads : List (ℕ × A) := []
  popped : List (W × ℕ × A) := []
  log : List (Entry Q W A) := []
  dropped : List (Q × ℕ × A) := []

inductive Label (W E : Type)
  | read
  | pop (w : W)
  | timeout (w : W)
  | work (w : W) (e : E)
  | push (w : W)
  | test (w : W)
  | maintain (w : W) (e : E)
  | control

def head (N : Network Q W E A S) (w : W) : Position Q (ℕ × A) :=
  if N.testsFirst w then .testRunning else .pop

def init (N : Network Q W E A S) (unread : List A) : State Q W A S where
  queue q := { maxSize := N.maxSize q }
  position := N.head
  running _ := true
  loc := N.start
  unread := unread
  script := N.script

/-- Where a worker goes with the result of its work. -/
def follow (N : Network Q W E A S) (w : W) (ticket : ℕ) : Option (Q × A) → Position Q (ℕ × A)
  | none => N.head w
  | some (q, b) => .send q (ticket, b)

section Step

variable [DecidableEq Q] [DecidableEq W] {s t : State Q W A S}

def State.offer (s : State Q W A S) (q : Q) (x : ℕ × A) : Option (State Q W A S) :=
  ((s.queue q).push x).map fun q' =>
    { s with
      queue := Function.update s.queue q q'
      dropped := if (s.queue q).isShutdown then s.dropped ++ [(q, x)] else s.dropped }

/-- A join waits for the end of the thread. -/
def State.exec (s : State Q W A S) : Command Q W → Option (State Q W A S)
  | .joinSource => if s.unread.isEmpty then some s else none
  | .close q => some { s with queue := Function.update s.queue q (s.queue q).shutdown }
  | .clear w => some { s with running := Function.update s.running w false }
  | .join w =>
    match s.position w with
    | .exited => some s
    | _ => none

def State.goto (s : State Q W A S) (w : W) (p : Position Q (ℕ × A)) : State Q W A S :=
  { s with position := Function.update s.position w p }

omit [DecidableEq Q] in
@[simp] theorem position_goto_self (s : State Q W A S) (w : W) (p : Position Q (ℕ × A)) :
    (s.goto w p).position w = p := Function.update_self ..

omit [DecidableEq Q] in
theorem position_goto_of_ne (s : State Q W A S) {v w : W} (p : Position Q (ℕ × A)) (h : v ≠ w) :
    (s.goto w p).position v = s.position v := Function.update_of_ne h ..

/-- The states differ in flags and in the script at most. -/
structure State.SameData (s t : State Q W A S) : Prop where
  items : ∀ q, (t.queue q).items = (s.queue q).items
  position : t.position = s.position
  loc : t.loc = s.loc
  unread : t.unread = s.unread
  reads : t.reads = s.reads
  popped : t.popped = s.popped
  log : t.log = s.log
  dropped : t.dropped = s.dropped

theorem exec_joinSource (h : s.exec .joinSource = some t) : s.unread = [] ∧ t = s := by
  simp only [State.exec, Option.ite_none_right_eq_some, List.isEmpty_iff] at h
  exact ⟨h.1, (Option.some.inj h.2).symm⟩

theorem exec_join {w : W} (h : s.exec (.join w) = some t) : s.position w = .exited ∧ t = s := by
  simp only [State.exec] at h
  split at h
  · next hw => exact ⟨hw, (Option.some.inj h).symm⟩
  · cases h

theorem sameData_exec {c : Command Q W} (h : s.exec c = some t) : s.SameData t := by
  cases c with
  | joinSource =>
    obtain ⟨-, rfl⟩ := exec_joinSource h
    exact ⟨fun _ => rfl, rfl, rfl, rfl, rfl, rfl, rfl, rfl⟩
  | close q =>
    cases h
    refine ⟨fun r => ?_, rfl, rfl, rfl, rfl, rfl, rfl, rfl⟩
    by_cases hr : r = q
    · subst hr; simp [BoundedQueue.shutdown]
    · simp [hr]
  | clear w =>
    cases h
    exact ⟨fun _ => rfl, rfl, rfl, rfl, rfl, rfl, rfl, rfl⟩
  | join w =>
    obtain ⟨-, rfl⟩ := exec_join h
    exact ⟨fun _ => rfl, rfl, rfl, rfl, rfl, rfl, rfl, rfl⟩

omit [DecidableEq W] in
theorem offer_some {q : Q} {x : ℕ × A} (h : s.offer q x = some t) :
    (s.queue q).isShutdown = true ∧ t = { s with dropped := s.dropped ++ [(q, x)] } ∨
      (s.queue q).isShutdown = false ∧ t = { s with
        queue := Function.update s.queue q
          { s.queue q with items := (s.queue q).items ++ [x] } } := by
  obtain ⟨q', hq, rfl⟩ := Option.map_eq_some_iff.mp h
  rcases BoundedQueue.push_some hq with ⟨hshut, rfl⟩ | ⟨hshut, rfl⟩
  · exact .inl ⟨hshut, by simp [hshut]⟩
  · exact .inr ⟨hshut, by simp [hshut]⟩

/-- The states differ in the queues and the dropped items at most. -/
structure State.SameWorkers (s t : State Q W A S) : Prop where
  position : t.position = s.position
  running : t.running = s.running
  loc : t.loc = s.loc
  unread : t.unread = s.unread
  script : t.script = s.script
  done : t.done = s.done
  reads : t.reads = s.reads
  popped : t.popped = s.popped
  log : t.log = s.log

omit [DecidableEq W] in
theorem sameWorkers_offer {q : Q} {x : ℕ × A} (h : s.offer q x = some t) : s.SameWorkers t := by
  rcases offer_some h with ⟨-, rfl⟩ | ⟨-, rfl⟩ <;>
    exact ⟨rfl, rfl, rfl, rfl, rfl, rfl, rfl, rfl, rfl⟩

def fire (N : Network Q W E A S) (s : State Q W A S) : Label W E → Option (State Q W A S)
  | .read =>
    match s.unread with
    | [] => none
    | a :: rest =>
      (s.offer N.source (s.reads.length, a)).map fun t =>
        { t with unread := rest, reads := s.reads ++ [(s.reads.length, a)] }
  | .pop w =>
    match s.position w, (s.queue (N.input w)).pop with
    | .pop, some (x, q) =>
      some { s.goto w (.hold x) with
        queue := Function.update s.queue (N.input w) q
        popped := s.popped ++ [(w, x)] }
    | _, _ => none
  | .timeout w =>
    match s.position w, (s.queue (N.input w)).items with
    | .pop, [] => some (s.goto w .testRunning)
    | _, _ => none
  | .work w e =>
    match s.position w with
    | .hold x =>
      (N.work w e (s.loc w) x.2).map fun (σ, out) =>
        { s.goto w (N.follow w x.1 out) with
          loc := Function.update s.loc w σ
          log := s.log ++ [⟨w, x.1, x.2, out⟩] }
    | _ => none
  | .push w =>
    match s.position w with
    | .send q x =>
      (s.offer q x).map fun t =>
        { t.goto w (N.head w) with loc := Function.update t.loc w (N.sent w q (t.loc w)) }
    | _ => none
  | .test w =>
    match s.position w with
    | .testRunning => some (s.goto w (if s.running w then .pop else .testEmpty))
    | .testEmpty =>
      some (s.goto w (if (s.queue (N.input w)).items.isEmpty then .exited else .pop))
    | _ => none
  | .maintain w e =>
    match s.position w with
    | .pop => some { s with loc := Function.update s.loc w (N.maintain w e (s.loc w)) }
    | _ => none
  | .control =>
    match s.script with
    | [] => none
    | c :: rest => (s.exec c).map fun t => { t with script := rest, done := s.done ++ [c] }

/-- What the steps of a network can do. -/
inductive Step (N : Network Q W E A S) (s : State Q W A S) : Label W E → State Q W A S → Prop
  | read {a rest t} : s.unread = a :: rest → s.offer N.source (s.reads.length, a) = some t →
      Step N s .read { t with unread := rest, reads := s.reads ++ [(s.reads.length, a)] }
  | pop {w x q} : s.position w = .pop → (s.queue (N.input w)).pop = some (x, q) →
      Step N s (.pop w) { s.goto w (.hold x) with
        queue := Function.update s.queue (N.input w) q
        popped := s.popped ++ [(w, x)] }
  | timeout {w} : s.position w = .pop → (s.queue (N.input w)).items = [] →
      Step N s (.timeout w) (s.goto w .testRunning)
  | work {w e x σ out} : s.position w = .hold x →
      N.work w e (s.loc w) x.2 = some (σ, out) →
      Step N s (.work w e) { s.goto w (N.follow w x.1 out) with
        loc := Function.update s.loc w σ
        log := s.log ++ [⟨w, x.1, x.2, out⟩] }
  | push {w q x t} : s.position w = .send q x → s.offer q x = some t →
      Step N s (.push w) { t.goto w (N.head w) with
        loc := Function.update t.loc w (N.sent w q (t.loc w)) }
  | sawRunning {w} : s.position w = .testRunning → s.running w = true →
      Step N s (.test w) (s.goto w .pop)
  | sawStopped {w} : s.position w = .testRunning → s.running w = false →
      Step N s (.test w) (s.goto w .testEmpty)
  | sawItems {w} : s.position w = .testEmpty → (s.queue (N.input w)).items ≠ [] →
      Step N s (.test w) (s.goto w .pop)
  | sawEmpty {w} : s.position w = .testEmpty → (s.queue (N.input w)).items = [] →
      Step N s (.test w) (s.goto w .exited)
  | maintain {w e} : s.position w = .pop →
      Step N s (.maintain w e) { s with
        loc := Function.update s.loc w (N.maintain w e (s.loc w)) }
  | control {c rest t} : s.script = c :: rest → s.exec c = some t →
      Step N s .control { t with script := rest, done := s.done ++ [c] }

theorem step_of_fire {N : Network Q W E A S} {a : Label W E} (h : N.fire s a = some t) :
    N.Step s a t := by
  cases a with
  | read =>
    cases hunread : s.unread with
    | nil => simp [fire, hunread] at h
    | cons a rest =>
      simp only [fire, hunread, Option.map_eq_some_iff] at h
      obtain ⟨u, hoffer, rfl⟩ := h
      exact .read hunread hoffer
  | pop w =>
    simp only [fire] at h
    split at h
    · next hw hq => cases h; exact .pop hw hq
    · cases h
  | timeout w =>
    simp only [fire] at h
    split at h
    · next hw hq => cases h; exact .timeout hw hq
    · cases h
  | work w e =>
    simp only [fire] at h
    split at h
    · next hw =>
      simp only [Option.map_eq_some_iff, Prod.exists] at h
      obtain ⟨σ, out, hwork, rfl⟩ := h
      exact .work hw hwork
    · cases h
  | push w =>
    simp only [fire] at h
    split at h
    · next hw =>
      simp only [Option.map_eq_some_iff] at h
      obtain ⟨u, hoffer, rfl⟩ := h
      exact .push hw hoffer
    · cases h
  | test w =>
    simp only [fire] at h
    split at h
    · next hw =>
      cases h
      split_ifs with hr
      · exact .sawRunning hw hr
      · exact .sawStopped hw (Bool.eq_false_of_not_eq_true hr)
    · next hw =>
      cases h
      split_ifs with hq
      · exact .sawEmpty hw (List.isEmpty_iff.mp hq)
      · exact .sawItems hw fun h => hq (List.isEmpty_iff.mpr h)
    · cases h
  | maintain w e =>
    simp only [fire] at h
    split at h
    · next hw => cases h; exact .maintain hw
    · cases h
  | control =>
    cases hscript : s.script with
    | nil => simp [fire, hscript] at h
    | cons c rest =>
      simp only [fire, hscript, Option.map_eq_some_iff] at h
      obtain ⟨u, hexec, rfl⟩ := h
      exact .control hscript hexec

/-- The end of the run with the given labels, none if a step is not possible or not allowed. -/
def runIf (N : Network Q W E A S) (p : State Q W A S → Label W E → Prop)
    [∀ s a, Decidable (p s a)] : State Q W A S → List (Label W E) → Option (State Q W A S)
  | s, [] => some s
  | s, a :: l => if p s a then (N.fire s a).bind fun t => N.runIf p t l else none

theorem run_of_runIf {N : Network Q W E A S} {p : State Q W A S → Label W E → Prop}
    [∀ s a, Decidable (p s a)] {l : List (Label W E)} (h : N.runIf p s l = some t) :
    Run (fun s a t => N.Step s a t ∧ p s a) s l t := by
  induction l generalizing s with
  | nil => cases h; exact .nil _
  | cons a l ih =>
    obtain ⟨hp, h⟩ := Option.ite_none_right_eq_some.mp h
    obtain ⟨u, hu, h⟩ := Option.bind_eq_some_iff.mp h
    exact .cons ⟨step_of_fire hu, hp⟩ (ih h)

def runLabels (N : Network Q W E A S) : State Q W A S → List (Label W E) → Option (State Q W A S) :=
  N.runIf fun _ _ => True

theorem run_of_runLabels {N : Network Q W E A S} {l : List (Label W E)}
    (h : N.runLabels s l = some t) : Run N.Step s l t :=
  (run_of_runIf h).mono And.left

end Step

end Network
