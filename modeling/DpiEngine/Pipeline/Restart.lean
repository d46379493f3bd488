import DpiEngine.Library.Restart
import DpiEngine.Pipeline.Delivery

/-! # An engine that is used again

The queues and the data of the threads outlive a call of `processFile` or
`processSynthetic`. The first call that starts the threads closes the queue of the
raw packets for good, so that no later call gets a frame to its parser workers.
-/

namespace DpiEngine

/-- The calls of an engine. A file for the output that cannot be opened ends the call before the
threads start; the frames are those that the reader offers. -/
inductive Call
  | processFile (opens : Bool) (frames : List RawPacketJob)
  | processSynthetic (dataset : List RawPacketJob)

namespace Call

def starts : Call → Bool
  | processFile opens _ => opens
  | processSynthetic _ => true

def offered : Call → List RawPacketJob
  | processFile opens frames => if opens then frames else []
  | processSynthetic dataset => dataset

def writes : Call → Bool
  | processFile opens _ => opens
  | processSynthetic _ => false

theorem offered_of_not_starts {c : Call} (h : c.starts = false) : c.offered = [] := by
  cases c with
  | processFile opens frames => exact if_neg (ne_true_of_eq_false h)
  | processSynthetic dataset => cases h

end Call

def ParserStats.frames (stats : ParserStats) : ℕ := stats.totalParsed + stats.totalErrors

variable (cfg : Config)

/-- What an engine keeps between two calls. -/
structure Engine where
  queue : QueueId cfg → ThreadSafeQueue (ℕ × Item)
  loc : (w : Thread cfg) → ThreadState cfg w

/-- A call with the state of the engine before it, the rules during it and the state of the threads
when it returns. -/
structure Execution where
  before : Engine cfg
  call : Call
  rules : RuleManager
  final : DPIEngine.State cfg

namespace DPIEngine

open Network Command

def fresh (H : StdHash) : Engine cfg where
  queue q := { maxSize := (processSynthetic cfg H {}).maxSize q }
  loc := (processSynthetic cfg H {}).start

variable {cfg}

def openFile (loc : (w : Thread cfg) → ThreadState cfg w) :
    Call → (w : Thread cfg) → ThreadState cfg w
  | .processFile _ _ => Function.update loc .output ([] : List PacketJob)
  | .processSynthetic _ => loc

def launch (H : StdHash) (e : Engine cfg) (rules : RuleManager) (c : Call) : State cfg :=
  (network cfg H rules c.writes).resume e.queue (openFile e.loc c) (c.offered.map .raw)

/-- A call that completes: `stop` has returned. -/
def CallStep (H : StdHash) (e : Engine cfg) (x : Execution cfg) (e' : Engine cfg) : Prop :=
  x.before = e ∧
    if x.call.starts then
      (∃ ls, Run (network cfg H x.rules x.call.writes).Step (launch H e x.rules x.call) ls
        x.final) ∧
        x.final.script = [] ∧ e' = ⟨x.final.queue, x.final.loc⟩
    else e' = e

variable {H : StdHash} {rules : RuleManager} {isOpen : Bool} {frames : List RawPacketJob}
  {ls : List (Label (Thread cfg) PacketEnv)} {s t : State cfg} {a : Label (Thread cfg) PacketEnv}
  {e e' : Engine cfg} {x : Execution cfg}

theorem launch_fresh (rules : RuleManager) (c : Call) : launch H (fresh cfg H) rules c =
    start (network cfg H rules c.writes) c.offered := by
  cases c with
  | processSynthetic dataset => rfl
  | processFile opens frames =>
    have hloc : Function.update (fresh cfg H).loc .output ([] : List PacketJob) =
        (fresh cfg H).loc := Function.update_eq_self Thread.output (fresh cfg H).loc
    rw [launch, openFile, hloc]
    rfl

/-! ### The counters of the parser workers -/

def counted (p : Fin cfg.parserCount) (loc : (w : Thread cfg) → ThreadState cfg w) : ℕ :=
  ParserStats.frames (loc (.parser p))

def sending {cfg : Config} : Position (QueueId cfg) (ℕ × Item) → ℕ
  | .send _ _ => 1
  | _ => 0

theorem sending_of_not_busy {p : Position (QueueId cfg) (ℕ × Item)} (h : ¬ p.Busy) :
    sending p = 0 := by
  cases p with
  | send q x => exact absurd trivial h
  | _ => rfl

/-- A worker counts each frame that it parses. -/
def Counting (n : ℕ) (p : Fin cfg.parserCount) (s : State cfg) : Prop :=
  counted p s.loc + sending (s.position (.parser p)) = n + s.log.countP (·.worker = .parser p)

theorem sending_goto {w : Thread cfg} {q : Position (QueueId cfg) (ℕ × Item)}
    (hw : sending (s.position w) = 0) (hq : sending q = 0) (v : Thread cfg) :
    sending ((s.goto w q).position v) = sending (s.position v) := by
  by_cases hv : v = w
  · subst hv
    rw [position_goto_self, hw, hq]
  · rw [position_goto_of_ne s q hv]

theorem sending_head (N : Network (QueueId cfg) (Thread cfg) PacketEnv Item (ThreadState cfg))
    (w : Thread cfg) : sending (N.head w) = 0 := sending_of_not_busy (N.head_not_busy w)

theorem counted_update_self (p : Fin cfg.parserCount)
    (loc : (w : Thread cfg) → ThreadState cfg w) (stats : ThreadState cfg (.parser p)) :
    counted p (Function.update loc (.parser p) stats) = ParserStats.frames stats :=
  congrArg ParserStats.frames (Function.update_self ..)

theorem counted_update {p : Fin cfg.parserCount} {w : Thread cfg} (hw : w ≠ .parser p)
    (loc : (w : Thread cfg) → ThreadState cfg w) (σ : ThreadState cfg w) :
    counted p (Function.update loc w σ) = counted p loc := by
  rw [counted, counted, Function.update_of_ne (Ne.symm hw)]

theorem counting_step {n : ℕ} {p : Fin cfg.parserCount} (h : Counting n p s)
    (hst : (network cfg H rules isOpen).Step s a t) : Counting n p t := by
  unfold Counting at h ⊢
  cases hst with
  | read _ hu =>
    have hsame := sameWorkers_offer hu
    simpa only [hsame.loc, hsame.position, hsame.log] using h
  | control _ hexec =>
    have hdata := sameData_exec hexec
    simpa only [hdata.loc, hdata.position, hdata.log] using h
  | pop hw _ | timeout hw _ | sawRunning hw _ | sawStopped hw _ | sawItems hw _ | sawEmpty hw _ =>
    rw [sending_goto (by rw [hw]; rfl) rfl]
    exact h
  | @maintain w env hw =>
    by_cases hp : w = .parser p
    · subst hp
      simpa [counted, network] using h
    · rw [counted_update hp]
      exact h
  | @work w env y σ out hw hwork =>
    rw [List.countP_append, List.countP_singleton, ← add_assoc]
    by_cases hp : w = .parser p
    · subst hp
      rw [hw] at h
      rw [counted_update_self, position_goto_self]
      obtain ⟨r, -, ⟨-, rfl, rfl⟩ | ⟨job, -, rfl, rfl⟩⟩ := Thread.parse_some hwork
      · simp only [follow, sending_head, decide_true, if_true, ← h]
        simp only [counted, sending, ParserStats.frames]
        omega
      · simp only [follow, decide_true, if_true, ← h]
        rfl
    · rw [counted_update hp, position_goto_of_ne s _ (Ne.symm hp), h]
      simp [hp]
  | @push w q y u hw hu =>
    have hsame := sameWorkers_offer hu
    by_cases hp : w = .parser p
    · subst hp
      rw [hsame.loc.symm, hsame.log.symm, hw] at h
      rw [counted_update_self, position_goto_self, sending_head]
      simp only [State.goto, ← h]
      simp only [counted, sending, network, ParserStats.frames]
      omega
    · rw [counted_update hp, position_goto_of_ne u _ (Ne.symm hp), hsame.loc, hsame.position]
      simpa only [State.goto, hsame.log] using h

theorem counting_launch (e : Engine cfg) (rules : RuleManager) (c : Call)
    (p : Fin cfg.parserCount) : Counting (counted p e.loc) p (launch H e rules c) := by
  have hloc : counted p (openFile e.loc c) = counted p e.loc := by
    cases c with
    | processFile opens frames => exact counted_update (by exact nofun) e.loc _
    | processSynthetic dataset => rfl
  have hhead : sending ((launch H e rules c).position (.parser p)) = 0 :=
    sending_head (network cfg H rules c.writes) (.parser p)
  unfold Counting
  rw [hhead]
  exact hloc

theorem run_counted {c : Call} {p : Fin cfg.parserCount}
    (h : Run (network cfg H rules c.writes).Step (launch H e rules c) ls s)
    (hidle : ¬ (s.position (.parser p)).Busy) :
    counted p s.loc = counted p e.loc + s.log.countP (·.worker = .parser p) := by
  have hcounting := h.invariant counting_step (counting_launch e rules c p)
  unfold Counting at hcounting
  rwa [sending_of_not_busy hidle, add_zero] at hcounting

/-! ### The first call -/

def isParsed (n : ℕ) (r : RawPacketJob) (e : Entry (QueueId cfg) (Thread cfg) Item) : Bool :=
  e.worker.isParser && decide ((e.ticket, e.item) = (n, .raw r))

def unparsed (n : ℕ) (r : RawPacketJob) : QueueId cfg → ℕ × Item → ℕ
  | .rawPacket, x => if decide (x = (n, .raw r)) then 1 else 0
  | _, _ => 0

theorem unparsed_of_feeds {w : Thread cfg} {q : QueueId cfg}
    (h : (network cfg H rules isOpen).Feeds w q) (n : ℕ) (r : RawPacketJob) (x : ℕ × Item) :
    unparsed n r q x = 0 := by
  rcases feeds_cases h with ⟨_, _, -, rfl⟩ | ⟨_, _, -, rfl⟩ | ⟨_, _, -, rfl⟩ <;> rfl

theorem unparsed_input (n : ℕ) (r : RawPacketJob) (e : Entry (QueueId cfg) (Thread cfg) Item) :
    unparsed n r ((network cfg H rules isOpen).input e.worker) (e.ticket, e.item) =
      if isParsed n r e then 1 else 0 := by
  obtain ⟨w, m, x, out⟩ := e
  cases w with
  | parser p => simp [network, unparsed, isParsed, Thread.isParser]
  | _ => rfl

theorem present_unparsed (h : Run (network cfg H rules isOpen).Step
    (start (network cfg H rules isOpen) frames) ls s)
    (hexit : ∀ p, s.position (.parser p) = .exited) (n : ℕ) (r : RawPacketJob) :
    (network cfg H rules isOpen).present (unparsed n r) s = 0 := by
  apply present_eq_zero_of
  · rintro q x hx
    cases q with
    | rawPacket =>
      have hnil := items_nil h (w := .parser ⟨0, cfg.parserCount_pos⟩) nofun (hexit _)
      exact absurd (hnil ▸ hx) List.not_mem_nil
    | _ => rfl
  · rintro w
    cases hpos : s.position w with
    | hold x =>
      cases w with
      | parser p =>
        rw [hexit p] at hpos
        cases hpos
      | _ => rfl
    | send q x => exact unparsed_of_feeds ((run_staged h).sends w q x hpos) n r x
    | _ => rfl

theorem parsed_once (h : Run (network cfg H rules isOpen).Step
    (start (network cfg H rules isOpen) frames) ls s)
    (hexit : ∀ p, s.position (.parser p) = .exited) {n : ℕ} {r : RawPacketJob}
    (hr : frames[n]? = some r) : s.log.countP (isParsed n r) = 1 := by
  have hconserved := run_conserved (m := unparsed n r) h
  have hdropped := run_dropped settles_close h
  have hunread := unread_nil h (hexit ⟨0, cfg.parserCount_pos⟩)
  have hreads : (s.reads.map (unparsed n r (network cfg H rules isOpen).source)).sum = 1 := by
    have hframe : (frames.map Item.raw)[n]? = some (.raw r) := by simp [hr]
    have hmem := (run_reads h).mem hunread hframe
    rw [← List.count_eq_one_of_mem (run_reads h).nodup hmem, List.count, ← sum_map_indicator]
    exact congrArg List.sum (List.map_congr_left fun x _ => by simp [network, unparsed])
  have hout : (s.log.map fun e => outWeight (unparsed n r) e.ticket e.out).sum = 0 := by
    apply List.sum_eq_zero
    rintro k hk
    obtain ⟨e, he, rfl⟩ := List.mem_map.mp hk
    obtain ⟨-, env, σ, σ', hwork⟩ := (run_onItsWay h).log e he
    cases hres : e.out with
    | none => rfl
    | some y => exact unparsed_of_feeds ⟨env, σ, e.item, σ', y.2, hres ▸ hwork⟩ n r (e.ticket, y.2)
  have hentries : (s.log.map fun e => unparsed n r ((network cfg H rules isOpen).input e.worker)
      (e.ticket, e.item)).sum = s.log.countP (isParsed n r) := by
    rw [← sum_map_indicator]
    exact congrArg List.sum (List.map_congr_left fun e _ => unparsed_input n r e)
  rw [arrived, finished, present_unparsed h hexit n r, hreads, hout, hentries, hdropped,
    List.map_nil, List.sum_nil] at hconserved
  omega

/-- Each frame that the reader has offered is parsed once, and each worker has counted the frames
that it has parsed. -/
structure EachCounted (x : Execution cfg) : Prop where
  parsed : ∀ n r, x.call.offered[n]? = some r → x.final.log.countP (isParsed n r) = 1
  counted : ∀ p, counted p x.final.loc =
    counted p x.before.loc + x.final.log.countP (·.worker = .parser p)

structure Spent (e : Engine cfg) : Prop where
  isShutdown : (e.queue .rawPacket).isShutdown = true
  items : (e.queue .rawPacket).items = []

theorem first_call (hx : CallStep H (fresh cfg H) x e') (hstart : x.call.starts = true) :
    EachCounted x ∧ Spent e' := by
  obtain ⟨hbefore, hcall⟩ := hx
  rw [if_pos hstart] at hcall
  obtain ⟨⟨ls, hrun⟩, hscript, rfl⟩ := hcall
  have hfirst := launch_fresh (H := H) x.rules x.call ▸ hrun
  have hdone : x.final.done = (network cfg H x.rules x.call.writes).script := by
    have hstaged := (run_staged hfirst).script
    rwa [hscript, List.append_nil] at hstaged
  have hexit (p : Fin cfg.parserCount) : x.final.position (.parser p) = .exited := by
    apply (run_staged hfirst).joined
    rw [hdone]
    exact List.mem_append_left _ (List.mem_append_right _ (mem_stopParsers.mpr ⟨p, .inr rfl⟩))
  have hclosing := hrun.invariant closing_step (closing_resume _ _ _)
  constructor
  · constructor
    · rintro n r hr
      exact parsed_once hfirst hexit hr
    · rintro p
      rw [hbefore]
      exact run_counted hrun (by rw [hexit p]; exact id)
  · constructor
    · apply hclosing.closed
      rw [hdone]
      exact List.mem_append_left _ (List.mem_append_left _ (by simp))
    · exact items_nil hfirst (w := .parser ⟨0, cfg.parserCount_pos⟩) nofun (hexit _)

/-! ### The later calls -/

theorem dead_of_spent {c : Call} (he : Spent e)
    (h : Run (network cfg H rules c.writes).Step (launch H e rules c) ls s) :
    (network cfg H rules c.writes).Dead .rawPacket s :=
  h.invariant dead_step (dead_resume he.isShutdown he.items _ _)

theorem spent_step (he : Spent e) (hx : CallStep H e x e') : Spent e' := by
  obtain ⟨-, hcall⟩ := hx
  split_ifs at hcall
  · obtain ⟨⟨ls, hrun⟩, -, rfl⟩ := hcall
    have hdead := dead_of_spent he hrun
    exact ⟨hdead.isShutdown, hdead.items⟩
  · exact hcall ▸ he

theorem later_call (he : Spent e) (hx : CallStep H e x e') (hstart : x.call.starts = true) :
    EachCounted x ↔ x.call.offered = [] := by
  obtain ⟨hbefore, hcall⟩ := hx
  rw [if_pos hstart] at hcall
  obtain ⟨⟨ls, hrun⟩, -, rfl⟩ := hcall
  have hdead := dead_of_spent he hrun
  have hnone : ∀ entry ∈ x.final.log, entry.worker.isParser = false := by
    rintro ⟨w, m, y, out⟩ hentry
    cases w with
    | parser p => exact absurd rfl (hdead.log _ hentry)
    | _ => rfl
  constructor
  · rintro hcounted
    cases hoffered : x.call.offered with
    | nil => rfl
    | cons r rest =>
      have hone := hcounted.parsed 0 r (by rw [hoffered]; rfl)
      have hzero : x.final.log.countP (isParsed 0 r) = 0 :=
        List.countP_eq_zero.mpr fun entry hentry => by simp [isParsed, hnone entry hentry]
      rw [hzero] at hone
      cases hone
  · rintro hoffered
    constructor
    · rintro n r hr
      rw [hoffered] at hr
      cases hr
    · rintro p
      rw [hbefore]
      exact run_counted hrun (hdead.idle _ rfl)

theorem run_spent {l : List (Execution cfg)} (he : Spent e) (h : Run (CallStep H) e l e') :
    (∀ x ∈ l, x.call.starts = true → EachCounted x) ↔ ∀ x ∈ l, x.call.offered = [] := by
  induction h with
  | nil => simp
  | @cons e f _ x l hx _ ih =>
    have hfirst : (x.call.starts = true → EachCounted x) ↔ x.call.offered = [] := by
      cases hstart : x.call.starts with
      | true => simpa using later_call he hx hstart
      | false => simpa using Call.offered_of_not_starts hstart
    rw [List.forall_mem_cons, List.forall_mem_cons, hfirst, ih (spent_step he hx)]

/-- Every frame of every call is parsed and counted if and only if no call offers a frame after one
that has started the threads. -/
theorem run_eachCounted_iff {l : List (Execution cfg)} (h : Run (CallStep H) (fresh cfg H) l e) :
    (∀ x ∈ l, x.call.starts = true → EachCounted x) ↔
      l.Pairwise fun x y => x.call.starts = true → y.call.offered = [] := by
  induction l with
  | nil => simp
  | cons x l ih =>
    obtain ⟨f, hx, hrest⟩ := Run.cons_iff.mp h
    rw [List.forall_mem_cons, List.pairwise_cons]
    cases hstart : x.call.starts with
    | true =>
      obtain ⟨hcounted, hspent⟩ := first_call hx hstart
      have hlater := run_spent hspent hrest
      constructor
      · rintro ⟨-, hall⟩
        have hnone := hlater.mp hall
        exact ⟨fun y hy _ => hnone y hy,
          List.pairwise_of_forall_mem_list fun y _ z hz _ => hnone z hz⟩
      · rintro ⟨hnone, -⟩
        exact ⟨fun _ => hcounted, hlater.mpr fun y hy => hnone y hy rfl⟩
    | false =>
      obtain ⟨-, hcall⟩ := hx
      rw [hstart, if_neg Bool.false_ne_true] at hcall
      simpa using ih (hcall ▸ hrest)

variable (H e) in
def runCall (c : Call) (ls : List (Label (Thread cfg) PacketEnv)) : Option (State cfg) :=
  (network cfg H {} c.writes).runLabels (launch H e {} c) ls

theorem callStep_of_runCall {c : Call} (hstart : c.starts = true)
    (h : runCall H e c ls = some s) (hscript : s.script = []) :
    CallStep H e ⟨e, c, {}, s⟩ ⟨s.queue, s.loc⟩ := by
  refine ⟨rfl, ?_⟩
  rw [if_pos hstart]
  exact ⟨⟨ls, run_of_runLabels h⟩, hscript, rfl⟩

def emptyFrame : Call := .processSynthetic [{ data := [] }]

def allStop : List (Label (Thread oneEach) PacketEnv) :=
  [.control, .control, .timeout parser0, .control, .test parser0, .test parser0, .control,
    .control, .control, .control, .control, .timeout lb0, .test lb0, .test lb0, .control,
    .control, .control, .timeout fp0, .test fp0, .test fp0, .control,
    .control, .test .output, .test .output, .control]

def firstCall : Option (State oneEach) :=
  runCall identityHash (fresh oneEach identityHash) emptyFrame
    ([.read, .pop parser0, .work parser0 {}] ++ allStop)

def secondCall (e : Engine oneEach) : Option (State oneEach) :=
  runCall identityHash e emptyFrame (.read :: allStop)

/-- The frame of the first call is counted, and a second call without frames does no harm. -/
theorem run_eachCounted_two : ∃ (x y : Execution oneEach) (e : Engine oneEach),
    Run (CallStep identityHash) (fresh oneEach identityHash) [x, y] e ∧
      x.call.offered = [{ data := [] }] ∧ y.call.starts = true ∧ EachCounted x ∧ EachCounted y := by
  have hcalls : (firstCall.bind fun s =>
      (runCall identityHash ⟨s.queue, s.loc⟩ (.processSynthetic []) allStop).map fun t =>
        (s.script, t.script)) = some ([], []) := by decide +kernel
  obtain ⟨s, hs, hsecond⟩ := Option.bind_eq_some_iff.mp hcalls
  obtain ⟨t, ht, hfacts⟩ := Option.map_eq_some_iff.mp hsecond
  obtain ⟨hscript, hscript'⟩ := Prod.mk.inj hfacts
  have hcall := callStep_of_runCall (c := emptyFrame) rfl hs hscript
  have hcall' := callStep_of_runCall (c := .processSynthetic []) rfl ht hscript'
  have hrun := Run.cons hcall (.cons hcall' (.nil _))
  have hcounted := (run_eachCounted_iff hrun).mpr (by simp [Call.offered])
  exact ⟨_, _, _, hrun, rfl, rfl, hcounted _ List.mem_cons_self rfl,
    hcounted _ (List.mem_cons_of_mem _ List.mem_cons_self) rfl⟩

/-- The frame of the second call is lost. -/
theorem not_run_eachCounted : ¬ ∀ (l : List (Execution oneEach)) (e : Engine oneEach),
    Run (CallStep identityHash) (fresh oneEach identityHash) l e →
      ∀ x ∈ l, x.call.starts = true → EachCounted x := by
  intro hall
  have hcalls : (firstCall.bind fun s => (secondCall ⟨s.queue, s.loc⟩).map fun t =>
      (s.script, t.script, t.log.length)) = some ([], [], 0) := by decide +kernel
  obtain ⟨s, hs, hsecond⟩ := Option.bind_eq_some_iff.mp hcalls
  obtain ⟨t, ht, hfacts⟩ := Option.map_eq_some_iff.mp hsecond
  simp only [Prod.mk.injEq] at hfacts
  have hcall := callStep_of_runCall (c := emptyFrame) rfl hs hfacts.1
  have hcall' := callStep_of_runCall (c := emptyFrame) rfl ht hfacts.2.1
  have hrun := Run.cons hcall (.cons hcall' (.nil _))
  have hcounted := hall _ _ hrun _ (List.mem_cons_of_mem _ List.mem_cons_self) rfl
  have hone := hcounted.parsed 0 _ rfl
  rw [List.length_eq_zero_iff.mp hfacts.2.2] at hone
  cases hone

end DPIEngine

end DpiEngine
