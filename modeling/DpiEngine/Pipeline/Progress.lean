import DpiEngine.Library.Progress
import DpiEngine.Pipeline.Order
import DpiEngine.Pipeline.Output

/-! # The end of a run

A fair execution of the engine gets to the end of `stop`, or an exception leaves
a thread. There is one more way to fail: the output thread exits early, its queue
gets full and a processor waits for room in it forever.
-/

namespace DpiEngine

/-- All queues have room for a packet. -/
structure Config.Roomy (cfg : Config) : Prop where
  queueSize : 0 < cfg.queueSize
  lbQueueSize : 0 < cfg.lbQueueSize
  fpQueueSize : 0 < cfg.fpQueueSize

namespace DPIEngine

open Network Command

variable {cfg : Config} {H : StdHash} {rules : RuleManager} {isOpen : Bool}
  {frames : List RawPacketJob} {ls ls' : List (Label (Thread cfg) PacketEnv)} {s t : State cfg}
  {a : Label (Thread cfg) PacketEnv} {i : Fin cfg.numLoadBalancers} {j : Fin cfg.fpsPerLb}

def stagesBehind : QueueId cfg → ℕ
  | .rawPacket => 3
  | .lb _ => 2
  | .fp _ _ => 1
  | .output => 0

theorem descends : (network cfg H rules isOpen).Descends stagesBehind := by
  intro w q h
  rcases feeds_cases h with ⟨p, i, rfl, rfl⟩ | ⟨i, j, rfl, rfl⟩ | ⟨i, j, rfl, rfl⟩ <;>
    simp [network, stagesBehind]

/-- In any run the threads move a frame at most 13 times, from its reading to its writing. -/
theorem moves_le (h : Run (network cfg H rules isOpen).Step
    (start (network cfg H rules isOpen) frames) ls s) :
    ls.countP Label.moves ≤
      13 * frames.length + (network cfg H rules isOpen).script.length := by
  have hmoves := run_moves descends h
  have hstart : (network cfg H rules isOpen).potential stagesBehind
      (start (network cfg H rules isOpen) frames) =
        13 * frames.length + (network cfg H rules isOpen).script.length := by
    simp [potential, start, init, handSteps_head, queueSteps, stagesBehind, network]
  omega

theorem moves_le_one : ∃ s : State oneEach,
    Run (processFile oneEach identityHash {}).Step
      (start (processFile oneEach identityHash {}) oneFrame) patientRun s ∧
    patientRun.countP Label.moves ≤
      13 * oneFrame.length + (processFile oneEach identityHash {}).script.length := by
  let N := processFile oneEach identityHash {}
  have hsome : (N.runLabels (start N oneFrame) patientRun).isSome := rfl
  have hrun := run_of_runLabels (Option.some_get hsome).symm
  exact ⟨_, hrun, moves_le hrun⟩

section Script

theorem before_join {w v : Thread cfg} {l : List (Command (QueueId cfg) (Thread cfg))}
    (hl : ∀ u, join u ∉ l) : Before (clear w) (join w) (clear v :: l ++ [join v]) := by
  by_cases hw : w = v
  · subst hw
    intro pre post heq
    cases pre with
    | nil => cases heq
    | cons e pre =>
      obtain ⟨rfl, -⟩ := List.cons.inj heq
      exact List.mem_cons_self
  · refine before_of_notMem fun hmem => ?_
    simp [hl, hw] at hmem

theorem clear_precedes_join (w : Thread cfg) :
    (network cfg H rules isOpen).Precedes (clear w) (join w) := by
  have hparsers : Before (clear w) (join w) (stopParsers cfg) :=
    before_flatMap fun p _ => before_join (l := []) (by simp)
  have hlbs : Before (clear w) (join w) (stopLBs cfg) :=
    before_flatMap fun i _ => before_join (l := [close (.lb i)]) (by simp)
  have hfps : Before (clear w) (join w) (stopFPs cfg) :=
    before_flatMap fun i _ => before_flatMap fun j _ =>
      before_join (l := [close (.fp i j)]) (by simp)
  have hinit : Before (clear w) (join w)
      (waitForCompletion cfg ++
        ([clear .output, close .rawPacket] ++ stopLBs cfg ++ stopFPs cfg)) :=
    ((before_of_notMem (by simp)).append hparsers).append
      (((before_of_notMem (by simp)).append hlbs).append hfps)
  by_cases hw : w = .output
  · subst hw
    have hscript : (network cfg H rules isOpen).script = (waitForCompletion cfg ++
        ([clear .output, close .rawPacket] ++ stopLBs cfg ++ stopFPs cfg)) ++
          [close .output, join .output] := by simp [network, stop]
    refine precedes_of_append hscript ?_ ?_
    · simp
    · simp [waitForCompletion, mem_stopParsers, mem_stopLBs, mem_stopFPs]
  · have hscript : (network cfg H rules isOpen).script =
        (waitForCompletion cfg ++
          ([clear .output, close .rawPacket] ++ stopLBs cfg ++ stopFPs cfg)) ++
          [close .output, join .output] := by simp [network, stop]
    intro pre post heq
    exact hinit.append (before_of_notMem (by simp [hw])) pre post (hscript ▸ heq)

end Script

/-- An exception leaves the thread, at every time of the clock. -/
def Faulty (rules : RuleManager) (s : State cfg) : Prop :=
  (∃ p n r, s.position (.parser p) = .hold (n, .raw r) ∧
    (ParserWorker.parseJob r.toRawPacket r.packetId).value = none) ∨
  ∃ i j n job, s.position (.fp i j) = .hold (n, .packet job) ∧
    ∀ env, ¬ (FastPathProcessor.processPacket rules env job (s.loc (.fp i j))).Returns

theorem faulty_of_blocked (h : Run (network cfg H rules isOpen).Step
    (start (network cfg H rules isOpen) frames) ls s)
    (hblocked : (network cfg H rules isOpen).Blocked s) : Faulty rules s := by
  obtain ⟨w, ⟨n, x⟩, hpos, hnone⟩ := hblocked
  have hway := (run_onItsWay h).hold w _ hpos
  cases w with
  | parser p =>
    obtain ⟨r, rfl, -⟩ := hway
    refine .inl ⟨p, n, r, hpos, ?_⟩
    have hparse := hnone {}
    simp only [network, Thread.parse] at hparse
    split at hparse
    · assumption
    · cases hparse
    · cases hparse
  | lb i =>
    obtain ⟨job, rfl, -⟩ := hway
    cases hnone {}
  | fp i j =>
    obtain ⟨job, rfl, -⟩ := hway
    refine .inr ⟨i, j, n, job, hpos, fun env hreturns => ?_⟩
    obtain ⟨fp', hok⟩ := hreturns
    have hprocess := hnone env
    simp only [network, Thread.process, hok] at hprocess
    cases hprocess
  | output =>
    obtain ⟨job, rfl, -⟩ := hway
    cases hnone {}

/-- The output thread has exited, and a processor waits for room in its queue. -/
def Deadlocked (s : State cfg) : Prop :=
  s.position .output = .exited ∧ (s.queue .output).maxSize ≤ (s.queue .output).items.length ∧
    ∃ i j x, s.position (.fp i j) = .send .output x

theorem sound_of_run (hroomy : cfg.Roomy) (h : Run (network cfg H rules isOpen).Step
    (start (network cfg H rules isOpen) frames) ls s) (hdeadlock : ¬ Deadlocked s) :
    (network cfg H rules isOpen).Sound s where
  staged := run_staged h
  room q := by
    rw [(run_kept h).maxSize q]
    cases q with
    | rawPacket => exact hroomy.queueSize
    | lb i => exact hroomy.lbQueueSize
    | fp i j => exact hroomy.fpQueueSize
    | output => exact hroomy.queueSize
  cleared := (run_kept h).cleared
  served w q x hpos hoffer := by
    have hstaged := run_staged h
    have hsender {v : Thread cfg} (hv : v ≠ .output)
        (hq : (network cfg H rules isOpen).input v = q) : s.position v ≠ .exited := by
      subst hq
      intro hexit
      exact (hstaged.quiet_of_exited hexit (settles_clear hv)).not_push hstaged hpos
    rcases feeds_cases (hstaged.sends w q x hpos) with
      ⟨p, i, rfl, rfl⟩ | ⟨i, j, rfl, rfl⟩ | ⟨i, j, rfl, rfl⟩
    · exact ⟨.lb i, rfl, hsender nofun rfl⟩
    · exact ⟨.fp i j, rfl, hsender nofun rfl⟩
    · refine ⟨.output, rfl, fun hexit => hdeadlock ⟨hexit, ?_, i, j, x, hpos⟩⟩
      rw [State.offer, Option.map_eq_none_iff, BoundedQueue.push] at hoffer
      split_ifs at hoffer with hshut hfull
      exact hfull
  servedSource hunread :=
    ⟨.parser ⟨0, cfg.parserCount_pos⟩, rfl, fun hexit => hunread (unread_nil h hexit)⟩

section Deadlock

theorem not_joined {x : ℕ × Item} (hs : (network cfg H rules isOpen).Staged s)
    (hsend : s.position (.fp i j) = .send .output x) : join (.fp i j) ∉ s.done := by
  intro hdone
  have hexit := hs.joined _ hdone
  rw [hsend] at hexit
  cases hexit

theorem deadlock_step {x : ℕ × Item} (hs : (network cfg H rules isOpen).Staged s)
    (hout : s.position .output = .exited)
    (hfull : (s.queue .output).maxSize ≤ (s.queue .output).items.length)
    (hsend : s.position (.fp i j) = .send .output x)
    (hst : (network cfg H rules isOpen).Step s a t) :
    t.position .output = .exited ∧ t.queue .output = s.queue .output ∧
      t.position (.fp i j) = .send .output x := by
  have hopen : (s.queue .output).isShutdown = false := by
    refine Bool.eq_false_of_not_eq_true fun hshut => ?_
    exact (hs.quiet_of_closed hshut (settles_close _)).not_push hs hsend
  have hnone (y : ℕ × Item) : s.offer .output y = none := by
    rw [State.offer, BoundedQueue.push, hopen, if_neg Bool.false_ne_true, if_pos hfull]
    rfl
  have hoffer {q : QueueId cfg} {y : ℕ × Item} {u : State cfg} (hu : s.offer q y = some u) :
      u.queue .output = s.queue .output ∧ u.position = s.position := by
    have hq : q ≠ .output := by
      rintro rfl
      cases (hnone y).symm.trans hu
    refine ⟨?_, (sameWorkers_offer hu).position⟩
    rcases offer_some hu with ⟨-, rfl⟩ | ⟨-, rfl⟩
    · rfl
    · exact Function.update_of_ne (Ne.symm hq) ..
  have hgoto {u : State cfg} {w : Thread cfg} {p' : Position (QueueId cfg) (ℕ × Item)}
      (hu : u.position = s.position) (p : Position (QueueId cfg) (ℕ × Item))
      (hw : s.position w = p') (hexit : p' ≠ .exited) (hp : p' ≠ .send .output x) :
      (u.goto w p).position .output = .exited ∧
        (u.goto w p).position (.fp i j) = .send .output x := by
    rw [position_goto_of_ne u p (by rintro rfl; exact hexit (hw.symm.trans hout)),
      position_goto_of_ne u p (by rintro rfl; exact hp (hw.symm.trans hsend)), hu]
    exact ⟨hout, hsend⟩
  cases hst with
  | read _ hu =>
    obtain ⟨hqueue, hposition⟩ := hoffer hu
    exact ⟨hposition ▸ hout, hqueue, hposition ▸ hsend⟩
  | @pop w y q hw hq =>
    obtain ⟨hexit, hfp⟩ := hgoto (u := s) rfl (.hold y) hw (by simp) (by simp)
    refine ⟨hexit, Function.update_of_ne (fun hinput => ?_) .., hfp⟩
    cases w with
    | output => cases hw.symm.trans hout
    | _ => cases hinput
  | work hw _ =>
    obtain ⟨hexit, hfp⟩ := hgoto (u := s) rfl _ hw (by simp) (by simp)
    exact ⟨hexit, rfl, hfp⟩
  | @push w q y u hw hu =>
    obtain ⟨hqueue, hposition⟩ := hoffer hu
    have hother : (.send q y : Position (QueueId cfg) (ℕ × Item)) ≠ .send .output x := by
      intro heq
      cases heq
      cases (hnone _).symm.trans hu
    obtain ⟨hexit, hfp⟩ :=
      hgoto hposition ((network cfg H rules isOpen).head w) hw (by simp) hother
    exact ⟨hexit, hqueue, hfp⟩
  | maintain _ => exact ⟨hout, rfl, hsend⟩
  | @control c rest u hscript hexec =>
    have hdata := sameData_exec hexec
    refine ⟨hdata.position ▸ hout, ?_, hdata.position ▸ hsend⟩
    cases c with
    | close q =>
      cases hexec
      refine Function.update_of_ne ?_ ..
      rintro rfl
      have hprecedes := (settles_close .output).feeders _ (hs.sends _ _ _ hsend)
      refine not_joined hs hsend (hprecedes s.done rest ?_)
      rw [← hs.script, hscript]
    | joinSource => rw [(exec_joinSource hexec).2]
    | clear w => cases hexec; rfl
    | join w => rw [(exec_join hexec).2]
  | timeout hw _ | sawRunning hw _ | sawStopped hw _ | sawItems hw _ | sawEmpty hw _ =>
    obtain ⟨hexit, hfp⟩ := hgoto (u := s) rfl _ hw (by simp) (by simp)
    exact ⟨hexit, rfl, hfp⟩

/-- Once it has come about, the deadlock stays, and `stop` never returns. -/
theorem deadlock_stays (h : Run (network cfg H rules isOpen).Step
    (start (network cfg H rules isOpen) frames) ls s) (hdeadlock : Deadlocked s)
    (h' : Run (network cfg H rules isOpen).Step s ls' t) : Deadlocked t ∧ t.script ≠ [] := by
  obtain ⟨hout, hfull, i, j, x, hsend⟩ := hdeadlock
  have hstays : t.position .output = .exited ∧ t.queue .output = s.queue .output ∧
      t.position (.fp i j) = .send .output x := by
    apply h'.invariant_under (I := (network cfg H rules isOpen).Staged)
      (J := fun t => t.position .output = .exited ∧ t.queue .output = s.queue .output ∧
        t.position (.fp i j) = .send .output x) step_staged
    · rintro t a u hs ⟨hout, hqueue, hsend⟩ hst
      obtain ⟨hout', hqueue', hsend'⟩ :=
        deadlock_step hs hout (hqueue ▸ hfull) hsend hst
      exact ⟨hout', hqueue'.trans hqueue, hsend'⟩
    · exact run_staged h
    · exact ⟨hout, rfl, hsend⟩
  obtain ⟨hout', hqueue, hsend'⟩ := hstays
  refine ⟨⟨hout', hqueue ▸ hfull, i, j, x, hsend'⟩, fun hscript => ?_⟩
  have hstaged := run_staged (Run.append_iff.mpr ⟨s, h, h'⟩)
  refine not_joined hstaged hsend' ?_
  have hdone := hstaged.script
  rw [hscript, List.append_nil] at hdone
  rw [hdone]
  simp [network, stop, mem_stopFPs]

def tightOutput : Config := { oneEach with queueSize := 1 }

def deadlockRun : List (Label (Thread tightOutput) PacketEnv) :=
  let p : Thread tightOutput := .parser ⟨0, by decide⟩
  let lb : Thread tightOutput := .lb ⟨0, by decide⟩
  let fp : Thread tightOutput := .fp ⟨0, by decide⟩ ⟨0, by decide⟩
  [.read, .pop p, .work p {}, .push p, .read, .control, .control, .pop p, .work p {}, .push p,
    .control, .timeout p, .test p, .test p, .control, .control, .test .output, .test .output,
    .pop lb, .work lb {}, .push lb, .pop lb, .work lb {}, .push lb, .pop fp, .work fp {}, .push fp,
    .pop fp, .work fp {}]

theorem deadlock_stays_tight : ∃ s : State tightOutput,
    Run (processFile tightOutput identityHash {}).Step
      (start (processFile tightOutput identityHash {}) oneFlow) deadlockRun s ∧
    ∀ ls t, Run (processFile tightOutput identityHash {}).Step s ls t → t.script ≠ [] := by
  let N := processFile tightOutput identityHash {}
  let final := N.runLabels (start N oneFlow) deadlockRun
  have hsome : final.isSome := rfl
  have hrun := run_of_runLabels (Option.some_get hsome).symm
  have hdeadlock : Deadlocked (final.get hsome) := by
    exact ⟨rfl, le_rfl, ⟨0, by decide⟩, ⟨0, by decide⟩, _, rfl⟩
  exact ⟨_, hrun, fun ls t h => (deadlock_stays hrun hdeadlock h).2⟩

end Deadlock

section Fair

variable {x : ℕ → State cfg} {act : ℕ → Option (Label (Thread cfg) PacketEnv)}

theorem isOpen_of_deadlocked (h : Run (network cfg H rules isOpen).Step
    (start (network cfg H rules isOpen) frames) ls s) (hdeadlock : Deadlocked s) :
    isOpen = true := by
  obtain ⟨-, -, i, j, x, hsend⟩ := hdeadlock
  obtain ⟨env, σ, a, σ', b, hwork⟩ := (run_staged h).sends _ _ _ hsend
  obtain ⟨job, action, -, -, -, hout⟩ := Thread.process_some hwork
  exact (handleOutput_some hout.symm).2.1

/-- In a fair execution `stop` returns, unless an exception leaves a thread or the output thread has
exited too early. -/
theorem stop_returns (hroomy : cfg.Roomy)
    (h : FairExecution Label.agent ((network cfg H rules isOpen).Allowed fun _ _ => True) x act)
    (hstart : x 0 = start (network cfg H rules isOpen) frames) :
    ∃ n, (x n).script = [] ∨ Faulty rules (x n) ∨ isOpen = true ∧ Deadlocked (x n) := by
  let J (s : State cfg) : Prop := ∃ ls, Run (network cfg H rules isOpen).Step
    (start (network cfg H rules isOpen) frames) ls s
  have hp : (network cfg H rules isOpen).Restrains J fun _ _ => True :=
    ⟨fun _ _ => .inl trivial, fun _ _ _ _ _ => trivial⟩
  obtain ⟨n, -, hends⟩ := script_ends hp h descends clear_precedes_join (J := J) (m := 0) (by
      rintro s a t ⟨ls, hls⟩ ⟨hst, -⟩
      exact ⟨ls ++ [a], Run.append_iff.mpr ⟨s, hls, .cons hst (.nil t)⟩⟩)
    ⟨[], hstart ▸ .nil _⟩
  obtain ⟨ls, hrun⟩ := h.exists_run n
  rw [hstart] at hrun
  replace hrun : Run (network cfg H rules isOpen).Step _ ls (x n) := hrun.mono And.left
  refine ⟨n, ?_⟩
  rcases hends with hscript | hblocked | hsound
  · exact .inl hscript
  · exact .inr (.inl (faulty_of_blocked hrun hblocked))
  · have hdeadlock : Deadlocked (x n) :=
      not_not.mp fun hdeadlock => hsound (sound_of_run hroomy hrun hdeadlock)
    exact .inr (.inr ⟨isOpen_of_deadlocked hrun hdeadlock, hdeadlock⟩)

theorem drained_of_join (h : Run (network cfg H rules isOpen).Step
    (start (network cfg H rules isOpen) frames) ls s)
    {rest : List (Command (QueueId cfg) (Thread cfg))} (hscript : s.script = join .output :: rest) :
    (network cfg H rules isOpen).Drained Inner s := by
  have hstaged := run_staged h
  have hexit (i : Fin cfg.numLoadBalancers) (j : Fin cfg.fpsPerLb) :
      s.position (.fp i j) = .exited := by
    have hprecedes : (network cfg H rules isOpen).Precedes (join (.fp i j)) (join .output) :=
      joinFP_precedes i j (by simp [waitForCompletion, mem_stopParsers, mem_stopLBs, mem_stopFPs])
    refine hstaged.joined _ (hprecedes s.done rest ?_)
    rw [← hstaged.script, hscript]
  exact drained_of_fps h hexit

theorem not_deadlocked_of_patient (h : Run (PatientStep (network cfg H rules isOpen))
    (start (network cfg H rules isOpen) frames) ls s) : ¬ Deadlocked s := by
  rintro ⟨hout, -, i, j, x, hsend⟩
  have hrun := run_of_patient h
  exact not_send_output (drained_of_exited h hout).1 (run_staged hrun) hsend

theorem patient_restrains : (network cfg H rules isOpen).Restrains
    (fun s => ∃ ls, Run (PatientStep (network cfg H rules isOpen))
      (start (network cfg H rules isOpen) frames) ls s) (Patient (network cfg H rules isOpen)) where
  exit s a := by
    cases a with
    | test w =>
      cases w with
      | output =>
        by_cases hexit : s.position .output = .testEmpty ∧ (s.queue .output).items = []
        · exact .inr ⟨.output, rfl, hexit⟩
        · exact .inl fun hpos hitems => absurd ⟨hpos, hitems⟩ hexit
      | _ => exact .inl trivial
    | _ => exact .inl trivial
  join s w rest h hscript := by
    obtain ⟨ls, h⟩ := h
    cases w with
    | output => exact fun _ _ => drained_of_join (run_of_patient h) hscript
    | _ => trivial

/-- If the output thread waits for what is on its way, `stop` returns in a fair execution, unless an
exception leaves a thread. -/
theorem stop_returns_patient (hroomy : cfg.Roomy)
    (h : FairExecution Label.agent (PatientStep (network cfg H rules isOpen)) x act)
    (hstart : x 0 = start (network cfg H rules isOpen) frames) :
    ∃ n, (x n).script = [] ∨ Faulty rules (x n) := by
  have hrestrains : (network cfg H rules isOpen).Restrains
      (fun s => ∃ ls, Run (PatientStep (network cfg H rules isOpen))
        (start (network cfg H rules isOpen) frames) ls s) _ := patient_restrains
  obtain ⟨n, -, hends⟩ := script_ends hrestrains h descends
    clear_precedes_join (m := 0) (by
      rintro s a t ⟨ls, hls⟩ hst
      exact ⟨ls ++ [a], Run.append_iff.mpr ⟨s, hls, .cons hst (.nil t)⟩⟩)
    ⟨[], hstart ▸ .nil _⟩
  obtain ⟨ls, hrun⟩ := h.exists_run n
  rw [hstart] at hrun
  refine ⟨n, ?_⟩
  rcases hends with hscript | hblocked | hsound
  · exact .inl hscript
  · exact .inr (faulty_of_blocked (run_of_patient hrun) hblocked)
  · have hdeadlock := not_deadlocked_of_patient hrun
    exact absurd (sound_of_run hroomy (run_of_patient hrun) hdeadlock) hsound

theorem roomy_oneEach : oneEach.Roomy := ⟨by decide, by decide, by decide⟩

/-- A whole run is a fair execution. -/
theorem exists_fair_one {p : State oneEach → Label (Thread oneEach) PacketEnv → Prop}
    [∀ s a, Decidable (p s a)]
    (hfinal : ((processFile oneEach identityHash {}).runIf p
      (start (processFile oneEach identityHash {}) oneFrame) patientRun).map (fun s =>
        decide (s.unread = [] ∧ s.script = [] ∧ ∀ w, s.position w = .exited)) = some true) :
    ∃ x act, FairExecution Label.agent ((processFile oneEach identityHash {}).Allowed p) x act ∧
      x 0 = start (processFile oneEach identityHash {}) oneFrame := by
  obtain ⟨s, hs, hend⟩ := Option.map_eq_some_iff.mp hfinal
  obtain ⟨hunread, hscript, hexit⟩ := of_decide_eq_true hend
  exact FairExecution.exists_of_run (run_of_runIf hs) (not_enabled_of_exited hunread hscript hexit)

theorem stop_returns_one : ∃ x act, FairExecution Label.agent
      ((processFile oneEach identityHash {}).Allowed fun _ _ => True) x act ∧
    ∃ n, (x n).script = [] ∨ Faulty {} (x n) ∨ true = true ∧ Deadlocked (x n) := by
  obtain ⟨x, act, hfair, hstart⟩ := exists_fair_one (p := fun _ _ => True) (by decide +kernel)
  exact ⟨x, act, hfair, stop_returns roomy_oneEach hfair hstart⟩

theorem stop_returns_patient_one : ∃ x act,
    FairExecution Label.agent (PatientStep (processFile oneEach identityHash {})) x act ∧
    ∃ n, (x n).script = [] ∨ Faulty {} (x n) := by
  obtain ⟨x, act, hfair, hstart⟩ :=
    exists_fair_one (p := Patient (processFile oneEach identityHash {})) (by decide +kernel)
  exact ⟨x, act, hfair, stop_returns_patient roomy_oneEach hfair hstart⟩

end Fair

end DPIEngine

end DpiEngine
