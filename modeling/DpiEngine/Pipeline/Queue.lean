import DpiEngine.Library.Network

/-! # The queue between the threads

Each call holds the mutex from its start to its end, except while it waits on a
condition variable. A step is what one thread does between two releases of the
mutex. A waiting thread may wake up at any time, notified or not, and tests its
condition again. Each step is an operation of the atomic bounded queue, or leaves
the queue alone.
-/

namespace DpiEngine.ThreadSafeQueue

/-- What a call returns. -/
inductive Reply (α : Type)
  | done
  | accepted (ok : Bool)
  | item (x : Option α)
  deriving DecidableEq

/-- A thread is outside the queue, with the reply of its last call, or waits inside a call. -/
inductive Caller (α : Type)
  | idle (last : Reply α)
  | pushing (x : α)
  | popping
  | poppingTimed
  deriving DecidableEq

inductive Label (T α : Type)
  | push (t : T) (x : α)
  | tryPush (t : T) (x : α)
  | pop (t : T)
  | popWithTimeout (t : T)
  | shutdown (t : T)
  | wake (t : T)
  | timeout (t : T)

structure State (T α : Type) where
  queue : BoundedQueue α
  caller : T → Caller α := fun _ => .idle .done

variable {T α : Type}

def init (maxSize : ℕ) : State T α where
  queue := { maxSize := maxSize }

namespace State

variable (s : State T α) (t : T) (x : α)

def Full : Prop := s.queue.maxSize ≤ s.queue.items.length ∧ s.queue.isShutdown = false

def Empty : Prop := s.queue.items.isEmpty = true ∧ s.queue.isShutdown = false

instance : Decidable s.Full := inferInstanceAs (Decidable (_ ∧ _))

instance : Decidable s.Empty := inferInstanceAs (Decidable (_ ∧ _))

section Calls

variable [DecidableEq T]

def moved (c : Caller α) : State T α := { s with caller := Function.update s.caller t c }

def enqueue (r : Reply α) : State T α :=
  { s.moved t (.idle r) with
    queue := { s.queue with items := s.queue.items ++ [x] } }

def finishPush : State T α :=
  if s.queue.isShutdown then s.moved t (.idle .done) else s.enqueue t x .done

def finishPop : State T α :=
  match s.queue.items with
  | [] => s.moved t (.idle (.item none))
  | x :: rest =>
    { s.moved t (.idle (.item (some x))) with
      queue := { s.queue with items := rest } }

def push : State T α := if s.Full then s.moved t (.pushing x) else s.finishPush t x

def tryPush : State T α :=
  if s.queue.maxSize ≤ s.queue.items.length ∨ s.queue.isShutdown = true then
    s.moved t (.idle (.accepted false))
  else s.enqueue t x (.accepted true)

def pop : State T α := if s.Empty then s.moved t .popping else s.finishPop t

def popWithTimeout : State T α := if s.Empty then s.moved t .poppingTimed else s.finishPop t

def shutdown : State T α := { s.moved t (.idle .done) with queue := s.queue.shutdown }

/-- A thread outside the queue starts a call. A waiting thread goes on if its condition has
changed, or with a pop when its time is over. -/
def step : Caller α → Label T α → Option (State T α)
  | .idle _, .push t x => some (s.push t x)
  | .idle _, .tryPush t x => some (s.tryPush t x)
  | .idle _, .pop t => some (s.pop t)
  | .idle _, .popWithTimeout t => some (s.popWithTimeout t)
  | .idle _, .shutdown t => some (s.shutdown t)
  | .pushing x, .wake t => some (if s.Full then s else s.finishPush t x)
  | .popping, .wake t => some (if s.Empty then s else s.finishPop t)
  | .poppingTimed, .wake t => some (if s.Empty then s else s.finishPop t)
  | .poppingTimed, .timeout t => some (s.finishPop t)
  | _, _ => none

end Calls

end State

def Label.thread : Label T α → T
  | .push t _ | .tryPush t _ | .pop t | .popWithTimeout t | .shutdown t | .wake t | .timeout t => t

/-! ### What the callers see -/

/-- The item of the push that the thread is in. -/
def State.handed (s : State T α) : Label T α → Option α
  | .push _ x | .tryPush _ x => some x
  | .wake t =>
    match s.caller t with
    | .pushing x => some x
    | _ => none
  | _ => none

/-- What a step has stored, by the reply to the call. `push` returns nothing: it has stored its item
unless the queue was shut down. -/
def State.stored (s : State T α) (a : Label T α) : Caller α → Option α
  | .idle .done => if s.queue.isShutdown then none else s.handed a
  | .idle (.accepted true) => s.handed a
  | _ => none

/-- What a step has taken, by the reply to the call. -/
def Caller.taken : Caller α → Option α
  | .idle (.item x) => x
  | _ => none

/-- The queue with the items that its callers know to be stored and taken. -/
structure Watched (T α : Type) extends State T α where
  accepted : List α := []
  popped : List α := []

namespace Watched

def init (maxSize : ℕ) : Watched T α := { ThreadSafeQueue.init maxSize with }

/-- The histories go on with what the thread has been told, and with nothing while it waits. -/
def watch (w : Watched T α) (a : Label T α) (s' : State T α) : Watched T α where
  toState := s'
  accepted := w.accepted ++ (w.stored a (s'.caller a.thread)).toList
  popped := w.popped ++ (s'.caller a.thread).taken.toList

end Watched

/-- One step of the thread that the label names. -/
def Step [DecidableEq T] (w : Watched T α) (a : Label T α) (w' : Watched T α) : Prop :=
  (w.step (w.caller a.thread) a).map (w.watch a) = some w'

/-! ### What one step does -/

/-- A step is an operation of the atomic queue, and the caller is told so, or leaves the queue
alone. -/
inductive Effect (s : State T α) (a : Label T α) (s' : State T α) : Prop
  | same (queue_eq : s'.queue = s.queue) (stored_eq : s.stored a (s'.caller a.thread) = none)
      (taken_eq : (s'.caller a.thread).taken = none)
  | accept (x : α) (isOpen : s.queue.isShutdown = false) (push_eq : s.queue.push x = some s'.queue)
      (stored_eq : s.stored a (s'.caller a.thread) = some x)
      (taken_eq : (s'.caller a.thread).taken = none)
  | take (x : α) (pop_eq : s.queue.pop = some (x, s'.queue))
      (stored_eq : s.stored a (s'.caller a.thread) = none)
      (taken_eq : (s'.caller a.thread).taken = some x)
  | close (queue_eq : s'.queue = s.queue.shutdown)
      (stored_eq : s.stored a (s'.caller a.thread) = none)
      (taken_eq : (s'.caller a.thread).taken = none)

/-- The items that were accepted have been popped or are in the queue, in their order, and the
queue is within its bound. -/
structure Invariant (maxSize : ℕ) (w : Watched T α) : Prop where
  fifo : w.accepted = w.popped ++ w.queue.items
  maxSize_eq : w.queue.maxSize = maxSize
  bounded : w.queue.items.length ≤ maxSize

theorem invariant_init {maxSize : ℕ} : Invariant maxSize (.init maxSize : Watched T α) where
  fifo := rfl
  maxSize_eq := rfl
  bounded := Nat.zero_le _

variable {s s' : State T α} {a : Label T α} {maxSize : ℕ}

namespace Effect

theorem invariant {w : Watched T α} (h : Effect w.toState a s') (hi : Invariant maxSize w) :
    Invariant maxSize (w.watch a s') := by
  have hfifo := hi.fifo
  have hmax := hi.maxSize_eq
  have hbound := hi.bounded
  cases h with
  | same hq hstored htaken =>
    constructor
    · simp only [Watched.watch, hstored, htaken, hq, Option.toList_none, List.append_nil, hfifo]
    · rw [Watched.watch, hq, hmax]
    · rw [Watched.watch, hq]
      exact hbound
  | accept x hopen hpush hstored htaken =>
    obtain ⟨hroom, hq⟩ := BoundedQueue.push_open hpush hopen
    constructor
    · simp only [Watched.watch, hstored, htaken, hq, Option.toList_none, Option.toList_some,
        List.append_nil, hfifo, List.append_assoc]
    · rw [Watched.watch, hq, ← hmax]
    · rw [Watched.watch, hq, List.length_append, List.length_singleton]
      omega
  | take x hpop hstored htaken =>
    obtain ⟨hitems, -⟩ := BoundedQueue.pop_some hpop
    constructor
    · simp only [Watched.watch, hstored, htaken, Option.toList_none, Option.toList_some,
        List.append_nil, hfifo, hitems, List.append_assoc, List.singleton_append]
    · rw [Watched.watch, BoundedQueue.maxSize_pop hpop, hmax]
    · rw [hitems, List.length_cons] at hbound
      exact Nat.le_of_succ_le hbound
  | close hq hstored htaken =>
    constructor
    · simp only [Watched.watch, hstored, htaken, hq, Option.toList_none, List.append_nil, hfifo,
        BoundedQueue.shutdown]
    · rw [Watched.watch, hq, BoundedQueue.shutdown, hmax]
    · rw [Watched.watch, hq]
      exact hbound

theorem stored_of_shutdown (h : Effect s a s') (hs : s.queue.isShutdown = true) :
    s'.queue.isShutdown = true ∧ s.stored a (s'.caller a.thread) = none := by
  cases h with
  | same hq hstored _ => exact ⟨hq ▸ hs, hstored⟩
  | accept x hopen _ _ _ => cases hs.symm.trans hopen
  | take x hpop hstored _ => exact ⟨by rw [(BoundedQueue.pop_some hpop).2, hs], hstored⟩
  | close hq hstored _ => exact ⟨hq ▸ rfl, hstored⟩

theorem waiting {p : Prop} [Decidable p] (hstored : s.stored a (s.caller a.thread) = none)
    (htaken : (s.caller a.thread).taken = none) (h : ¬ p → Effect s a s') :
    Effect s a (if p then s else s') := by
  split_ifs with hp
  · exact .same rfl hstored htaken
  · exact h hp

variable [DecidableEq T] {x : α} {r : Reply α} {c : Caller α}

theorem moved (hstored : s.stored a c = none) (htaken : c.taken = none) :
    Effect s a (s.moved a.thread c) := by
  have hcaller : (s.moved a.thread c).caller a.thread = c := Function.update_self _ _ _
  exact .same rfl (hcaller.symm ▸ hstored) (hcaller.symm ▸ htaken)

theorem enqueue (hopen : s.queue.isShutdown = false)
    (hroom : s.queue.items.length < s.queue.maxSize) (hstored : s.stored a (.idle r) = some x)
    (htaken : (Caller.idle r).taken = none) : Effect s a (s.enqueue a.thread x r) := by
  have hcaller : (s.enqueue a.thread x r).caller a.thread = .idle r := Function.update_self _ _ _
  refine .accept x hopen ?_ (hcaller.symm ▸ hstored) (hcaller.symm ▸ htaken)
  rw [BoundedQueue.push, if_neg (by simp [hopen]), if_neg (not_le.mpr hroom)]
  rfl

theorem finishPush (hhanded : s.handed a = some x) (h : ¬ s.Full) :
    Effect s a (s.finishPush a.thread x) := by
  rw [State.finishPush]
  split_ifs with hshut
  · exact moved (by rw [State.stored, if_pos hshut]) rfl
  · have hopen : s.queue.isShutdown = false := by simpa using hshut
    have hroom : s.queue.items.length < s.queue.maxSize := not_le.mp fun hfull => h ⟨hfull, hopen⟩
    exact enqueue hopen hroom (by rw [State.stored, if_neg hshut, hhanded]) rfl

theorem finishPop : Effect s a (s.finishPop a.thread) := by
  rw [State.finishPop]
  split
  · exact moved rfl rfl
  · next x rest hitems =>
    refine .take x ?_ ?_ ?_
    · rw [BoundedQueue.pop, hitems]
    all_goals
      dsimp only [State.moved]
      rw [Function.update_self]
      rfl

theorem push {t : T} : Effect s (.push t x) (s.push t x) := by
  rw [State.push]
  split_ifs with h
  · exact moved (a := .push t x) rfl rfl
  · exact finishPush (a := .push t x) rfl h

theorem tryPush {t : T} : Effect s (.tryPush t x) (s.tryPush t x) := by
  rw [State.tryPush]
  split_ifs with h
  · exact moved (a := .tryPush t x) rfl rfl
  · rw [not_or, not_le, Bool.not_eq_true] at h
    exact enqueue (a := .tryPush t x) h.2 h.1 rfl rfl

theorem pop {t : T} : Effect s (.pop t) (s.pop t) := by
  rw [State.pop]
  split_ifs
  · exact moved (a := .pop t) rfl rfl
  · exact finishPop (a := .pop t)

theorem popWithTimeout {t : T} : Effect s (.popWithTimeout t) (s.popWithTimeout t) := by
  rw [State.popWithTimeout]
  split_ifs
  · exact moved (a := .popWithTimeout t) rfl rfl
  · exact finishPop (a := .popWithTimeout t)

theorem shutdown {t : T} : Effect s (.shutdown t) (s.shutdown t) := by
  have hcaller : (s.shutdown t).caller t = .idle .done := Function.update_self _ _ _
  refine .close rfl ?_ ?_ <;> rw [Label.thread, hcaller]
  · exact ite_self none
  · rfl

end Effect

variable [DecidableEq T] {w w' : Watched T α} {l : List (Label T α)}

theorem State.step_effect (h : s.step (s.caller a.thread) a = some s') : Effect s a s' := by
  generalize hc : s.caller a.thread = c at h
  unfold State.step at h
  split at h <;> cases h
  · exact .push
  · exact .tryPush
  · exact .pop
  · exact .popWithTimeout
  · exact .shutdown
  · next x t =>
    rw [Label.thread] at hc
    refine .waiting ?_ ?_ (.finishPush (a := .wake t) ?_)
    · rw [Label.thread, hc]
      rfl
    · rw [Label.thread, hc]
      rfl
    · rw [State.handed, hc]
  · next t =>
    refine .waiting ?_ ?_ fun _ => .finishPop (a := .wake t) <;> rw [hc] <;> rfl
  · next t =>
    refine .waiting ?_ ?_ fun _ => .finishPop (a := .wake t) <;> rw [hc] <;> rfl
  · next t => exact .finishPop (a := .timeout t)

theorem step_effect (h : Step w a w') :
    ∃ s', Effect w.toState a s' ∧ w' = w.watch a s' := by
  obtain ⟨s', hstep, rfl⟩ := Option.map_eq_some_iff.mp h
  exact ⟨s', State.step_effect hstep, rfl⟩

/-! ### Runs -/

theorem run_accepted_of_shutdown (h : Run Step w l w') (hw : w.queue.isShutdown = true) :
    w'.accepted = w.accepted := by
  have hrun : w'.queue.isShutdown = true ∧ w'.accepted = w.accepted := by
    refine h.invariant (I := fun u => u.queue.isShutdown = true ∧ u.accepted = w.accepted) ?_
      ⟨hw, rfl⟩
    rintro u b u' ⟨hu, ha⟩ hstep
    obtain ⟨s', heffect, rfl⟩ := step_effect hstep
    obtain ⟨hu', hstored⟩ := heffect.stored_of_shutdown hu
    refine ⟨hu', ?_⟩
    rw [Watched.watch, hstored, Option.toList_none, List.append_nil, ha]
  exact hrun.2

/-- In every reachable state the items that the callers were told to be accepted are those that they
were given by a pop and then the content of the queue, the queue is within its bound, and once it is
shut down nothing more is accepted. -/
theorem bounded_fifo (maxSize : ℕ) (h : Run Step (.init maxSize) l w) :
    w.accepted = w.popped ++ w.queue.items ∧ w.queue.items.length ≤ maxSize ∧
      ∀ l' w', w.queue.isShutdown = true → Run Step w l' w' → w'.accepted = w.accepted := by
  have hi : Invariant maxSize w := by
    refine h.invariant (fun hi hstep => ?_) invariant_init
    obtain ⟨s', heffect, rfl⟩ := step_effect hstep
    exact heffect.invariant hi
  exact ⟨hi.fifo, hi.bounded, fun l' w' hw hrun => run_accepted_of_shutdown hrun hw⟩

/-- The second push waits for room and goes on behind a pop, which is followed by an attempt without
room; the third push comes too late. -/
theorem bounded_fifo_waiting : ∃ w : Watched ℕ ℕ,
    Run Step (.init 1)
        [.push 0 10, .push 1 20, .wake 1, .pop 2, .wake 1, .tryPush 0 25, .shutdown 2,
          .push 0 30] w ∧
      w.accepted = [10, 20] ∧ w.popped = [10] ∧
      w.accepted = w.popped ++ w.queue.items ∧ w.queue.items.length ≤ 1 ∧
      ∀ l' w', w.queue.isShutdown = true → Run Step w l' w' → w'.accepted = w.accepted := by
  have hrun : ∃ w : Watched ℕ ℕ, Run Step (.init 1)
      [.push 0 10, .push 1 20, .wake 1, .pop 2, .wake 1, .tryPush 0 25, .shutdown 2,
        .push 0 30] w ∧ w.accepted = [10, 20] ∧ w.popped = [10] := by
    refine ⟨_, .cons rfl (.cons rfl (.cons rfl (.cons rfl (.cons rfl (.cons rfl (.cons rfl
      (.cons rfl (.nil _)))))))), rfl, rfl⟩
  obtain ⟨w, hw, haccepted, hpopped⟩ := hrun
  exact ⟨w, hw, haccepted, hpopped, bounded_fifo 1 hw⟩

end DpiEngine.ThreadSafeQueue
