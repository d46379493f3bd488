import DpiEngine.Pipeline.Delivery

/-! # The output thread

The flag of the output thread is cleared before the load balancers and the fast
path processors have drained their queues. The packets that they forward are all
written if the thread passes its exit test only when nothing is on its way.
-/

namespace DpiEngine.DPIEngine

open Network

variable {cfg : Config} {H : StdHash} {rules : RuleManager} {isOpen : Bool}
  {frames : List RawPacketJob} {ls : List (Label (Thread cfg) PacketEnv)} {s t : State cfg}
  {a : Label (Thread cfg) PacketEnv}

/-- The job that a processor forwards while the output file is open. -/
def forwardedJob (e : Entry (QueueId cfg) (Thread cfg) Item) : Option (ℕ × PacketJob) :=
  match e.worker, e.out with
  | .fp _ _, some (_, .packet job) => some (e.ticket, job)
  | _, _ => none

def writtenJob (e : Entry (QueueId cfg) (Thread cfg) Item) : Option (ℕ × PacketJob) :=
  match e.worker, e.item with
  | .output, .packet job => some (e.ticket, job)
  | _, _ => none

def forwarded (s : State cfg) : List (ℕ × PacketJob) := s.log.filterMap forwardedJob

def written (s : State cfg) : List (ℕ × PacketJob) := s.log.filterMap writtenJob

/-- The queues between the parser workers and the output queue. -/
def Inner : QueueId cfg → Prop
  | .lb _ | .fp _ _ => True
  | _ => False

instance : DecidablePred (@Inner cfg)
  | .lb _ | .fp _ _ => isTrue trivial
  | .rawPacket | .output => isFalse id

/-- The output thread passes its exit test only when nothing is on its way to its queue. -/
def Patient (N : Network (QueueId cfg) (Thread cfg) PacketEnv Item (ThreadState cfg))
    (s : State cfg) : Label (Thread cfg) PacketEnv → Prop
  | .test .output => s.position .output = .testEmpty → (s.queue .output).items = [] →
      N.Drained Inner s
  | _ => True

def PatientStep (N : Network (QueueId cfg) (Thread cfg) PacketEnv Item (ThreadState cfg))
    (s : State cfg) (a : Label (Thread cfg) PacketEnv) (t : State cfg) : Prop :=
  N.Step s a t ∧ Patient N s a

theorem not_send_output {w : Thread cfg} {x : ℕ × Item}
    (hd : (network cfg H rules isOpen).Drained Inner s)
    (hs : (network cfg H rules isOpen).Staged s) :
    s.position w ≠ .send .output x := by
  intro hw
  rcases feeds_cases (hs.sends _ _ _ hw) with ⟨p, i, -, hq⟩ | ⟨i, j, -, hq⟩ | ⟨i, j, rfl, -⟩
  · cases hq
  · cases hq
  · exact hd.idle (.fp i j) trivial (by rw [hw]; trivial)

theorem drained_step (hd : (network cfg H rules isOpen).Drained Inner s)
    (hs : (network cfg H rules isOpen).Staged s) (hout : s.position .output = .exited)
    (hst : (network cfg H rules isOpen).Step s a t) :
    (network cfg H rules isOpen).Drained Inner t := by
  refine hd.step hs (fun h => h.elim) (fun w q hq hw => ?_) hst
  rcases feeds_cases hw with ⟨p, i, rfl, -⟩ | ⟨i, j, rfl, -⟩ | ⟨i, j, -, rfl⟩
  · right
    exact hs.exited_of_precedes hout
      (joinParser_precedes p (by simp [waitForCompletion, mem_stopParsers]))
  · exact .inl trivial
  · exact hq.elim

theorem drained_exit (hd : (network cfg H rules isOpen).Drained Inner s) :
    (network cfg H rules isOpen).Drained Inner (s.goto .output .exited) where
  items := hd.items
  idle w hw := by
    have hne : w ≠ .output := by rintro rfl; exact hw
    rw [position_goto_of_ne s _ hne]
    exact hd.idle w hw

theorem drained_of_exited (h : Run (PatientStep (network cfg H rules isOpen))
    (start (network cfg H rules isOpen) frames) ls s) (hout : s.position .output = .exited) :
    (network cfg H rules isOpen).Drained Inner s ∧ (s.queue .output).items = [] := by
  revert hout
  apply h.invariant_under (I := (network cfg H rules isOpen).Staged)
    (J := fun s => s.position .output = .exited →
      (network cfg H rules isOpen).Drained Inner s ∧ (s.queue .output).items = [])
    (fun hs hst => step_staged hs hst.1)
  · intro s a t hs hexit hst ht
    by_cases hold : s.position .output = .exited
    · obtain ⟨hd, hitems⟩ := hexit hold
      constructor
      · exact drained_step hd hs hold hst.1
      · rcases items_step hst.1 .output with hsuffix | ⟨hq, -⟩ | ⟨w, x, hw⟩
        · exact List.suffix_nil.mp (hitems ▸ hsuffix)
        · cases hq
        · exact absurd hw (not_send_output hd hs)
    · obtain ⟨rfl, hpos, hitems, rfl⟩ := exits_step hst.1 hold ht
      exact ⟨drained_exit (hst.2 hpos hitems), hitems⟩
  · exact staged_init _
  · intro hout; cases hout

section Counting

def atOutput (y : ℕ × PacketJob) : QueueId cfg → ℕ × Item → ℕ
  | .output, x => if x = (y.1, .packet y.2) then 1 else 0
  | _, _ => 0

theorem atOutput_entry {e : Entry (QueueId cfg) (Thread cfg) Item} (y : ℕ × PacketJob)
    (he : ∃ env σ σ', (network cfg H rules isOpen).work e.worker env σ e.item = some (σ', e.out)) :
    outWeight (atOutput y) e.ticket e.out =
        (if ((forwardedJob e).map (· == y)).getD false then 1 else 0) ∧
      atOutput y ((network cfg H rules isOpen).input e.worker) (e.ticket, e.item) =
        if ((writtenJob e).map (· == y)).getD false then 1 else 0 := by
  obtain ⟨env, σ, σ', hwork⟩ := he
  obtain ⟨w, m, x, out⟩ := e
  cases w with
  | parser p =>
    obtain ⟨r, -, ⟨-, -, rfl⟩ | ⟨job, -, -, rfl⟩⟩ := Thread.parse_some hwork <;>
      exact ⟨rfl, rfl⟩
  | lb i =>
    obtain ⟨job, -, rfl⟩ := Thread.dispatch_some hwork
    exact ⟨rfl, rfl⟩
  | fp i j =>
    refine ⟨?_, rfl⟩
    obtain ⟨job, action, -, -, -, hout⟩ := Thread.process_some hwork
    cases out with
    | none => rfl
    | some r =>
      obtain ⟨q, b⟩ := r
      obtain ⟨-, -, rfl, rfl⟩ := handleOutput_some hout.symm
      obtain ⟨n, job'⟩ := y
      simp [outWeight, atOutput, forwardedJob]
  | output =>
    obtain ⟨job, rfl, -, rfl⟩ := Thread.write_some hwork
    obtain ⟨n, job'⟩ := y
    simp [network, outWeight, atOutput, forwardedJob, writtenJob]

/-- A packet is forwarded as often as it is written, waits for that or is dropped. -/
theorem output_balance (h : Run (network cfg H rules isOpen).Step
    (start (network cfg H rules isOpen) frames) ls s) (y : ℕ × PacketJob) :
    (forwarded s).count y =
      (network cfg H rules isOpen).present (atOutput y) s + (written s).count y := by
  have hconserved := run_conserved (m := atOutput y) h
  have hdropped := run_dropped settles_close h
  have hlog := (run_onItsWay h).log
  have hreads : (s.reads.map (atOutput y (network cfg H rules isOpen).source)).sum = 0 := by
    refine List.sum_eq_zero fun c hc => ?_
    obtain ⟨x, -, rfl⟩ := List.mem_map.mp hc
    rfl
  have hforwarded : (s.log.map fun e => outWeight (atOutput y) e.ticket e.out).sum =
      (forwarded s).count y := by
    rw [forwarded, List.count, List.countP_filterMap, ← sum_map_indicator]
    exact congrArg List.sum (List.map_congr_left fun e he => (atOutput_entry y (hlog e he).2).1)
  have hwritten : (s.log.map fun e =>
      atOutput y ((network cfg H rules isOpen).input e.worker) (e.ticket, e.item)).sum =
      (written s).count y := by
    rw [written, List.count, List.countP_filterMap, ← sum_map_indicator]
    exact congrArg List.sum (List.map_congr_left fun e he => (atOutput_entry y (hlog e he).2).2)
  rw [arrived, finished, hreads, hforwarded, hwritten, hdropped] at hconserved
  simp only [List.map_nil, List.sum_nil] at hconserved
  omega

theorem present_atOutput (hs : (network cfg H rules isOpen).Staged s)
    (hd : (network cfg H rules isOpen).Drained Inner s) (hitems : (s.queue .output).items = [])
    (hout : s.position .output = .exited) (y : ℕ × PacketJob) :
    (network cfg H rules isOpen).present (atOutput y) s = 0 := by
  apply present_eq_zero_of
  · intro q x hx
    cases q with
    | output => rw [hitems] at hx; cases hx
    | _ => rfl
  · intro w
    cases hw : s.position w with
    | hold x =>
      cases w with
      | output => rw [hout] at hw; cases hw
      | _ => rfl
    | send q x =>
      cases q with
      | output => exact absurd hw (not_send_output hd hs)
      | _ => rfl
    | _ => rfl

theorem forwarded_nodup (h : Run (network cfg H rules isOpen).Step
    (start (network cfg H rules isOpen) frames) ls s) : ((forwarded s).map Prod.fst).Nodup := by
  rw [List.nodup_iff_count_le_one]
  intro n
  refine le_trans ?_ (processed_le_one h n)
  rw [processed, forwarded, List.count, List.countP_map, List.countP_filterMap]
  refine List.countP_mono_left fun e _ he => ?_
  cases hjob : forwardedJob e with
  | none => rw [hjob] at he; cases he
  | some y =>
    rw [hjob] at he
    simp only [forwardedJob] at hjob
    split at hjob
    · next i j _ _ hw _ =>
      cases hjob
      simpa [isProcessed, hw, Thread.isFP] using he
    · cases hjob

end Counting

section Files

theorem actions_eq (h : Run (processFile cfg H rules).Step
    (start (processFile cfg H rules) frames) ls s) (i : Fin cfg.numLoadBalancers)
    (j : Fin cfg.fpsPerLb) :
    ((FastPathProcessor.actions (s.loc (.fp i j))).filter (·.2 ≠ .drop)).map Prod.fst =
      (s.log.filter (·.worker = .fp i j)).filterMap fun e => (forwardedJob e).map Prod.snd := by
  refine run_history (w := .fp i j)
    (R := fun (fp : FastPathProcessor) es => (fp.actions.filter (·.2 ≠ .drop)).map Prod.fst =
      es.filterMap fun e => (forwardedJob e).map Prod.snd)
    rfl ?_ (fun q hR => hR) (fun env hR => hR) h
  intro env fp es n a fp' out hR hwork
  obtain ⟨job, action, -, -, hactions, rfl⟩ := Thread.process_some hwork
  rw [hactions, List.filter_append, List.map_append, hR, List.filterMap_append]
  by_cases hdrop : action = .drop <;> simp [hdrop, handleOutput, forwardedJob]

/-- The output file has the written packets in order. -/
theorem file_eq (h : Run (network cfg H rules isOpen).Step
    (start (network cfg H rules isOpen) frames) ls s) :
    s.loc .output = (written s).map Prod.snd := by
  have hfile : s.loc .output = (s.log.filter (·.worker = .output)).filterMap
      fun e => (writtenJob e).map Prod.snd := by
    refine run_history (w := .output)
      (R := fun (file : List PacketJob) es =>
        file = es.filterMap fun e => (writtenJob e).map Prod.snd)
      rfl ?_ (fun q hR => hR) (fun env hR => hR) h
    intro env file es n a file' out hR hwork
    obtain ⟨job, rfl, rfl, rfl⟩ := Thread.write_some hwork
    rw [List.filterMap_append, ← hR]
    rfl
  rw [hfile, written, List.map_filterMap, List.filterMap_filter]
  refine List.filterMap_congr fun e _ => ?_
  by_cases hw : e.worker = .output
  · simp [hw]
  · have hnone : writtenJob e = none := by
      unfold writtenJob
      split
      · next hw' _ => exact absurd hw' hw
      · rfl
    simp [hw, hnone]

end Files

section Final

/-- `stop` has returned, or no thread can move. -/
def Final (N : Network (QueueId cfg) (Thread cfg) PacketEnv Item (ThreadState cfg))
    (s : State cfg) : Prop :=
  s.script = [] ∨ ∀ a t, ¬ N.Step s a t

theorem run_of_patient {N : Network (QueueId cfg) (Thread cfg) PacketEnv Item (ThreadState cfg)}
    {s₀ : State cfg} (h : Run (PatientStep N) s₀ ls s) : Run N.Step s₀ ls s :=
  h.mono And.left

theorem output_exited (h : Run (network cfg H rules isOpen).Step
    (start (network cfg H rules isOpen) frames) ls s)
    (hfinal : Final (network cfg H rules isOpen) s) : s.position .output = .exited := by
  rcases hfinal with hscript | hstuck
  · refine (run_staged h).joined .output ?_
    have hdone := (run_staged h).script
    rw [hscript, List.append_nil] at hdone
    rw [hdone]
    simp [network, stop]
  · cases hpos : s.position .output with
    | pop =>
      cases hpop : (s.queue .output).pop with
      | none =>
        refine absurd (Step.timeout hpos ?_) (hstuck (.timeout .output) _)
        unfold BoundedQueue.pop at hpop
        split at hpop
        · assumption
        · cases hpop
      | some r => exact absurd (Step.pop hpos hpop) (hstuck (.pop .output) _)
    | hold x =>
      obtain ⟨job, hjob, -⟩ := (run_onItsWay h).hold .output x hpos
      have hwork : ∃ file, (network cfg H rules isOpen).work .output {} (s.loc .output) x.2 =
          some (file, none) := ⟨_, by rw [hjob]; rfl⟩
      obtain ⟨file, hwork⟩ := hwork
      exact absurd (Step.work hpos hwork) (hstuck (.work .output {}) _)
    | send q x =>
      exact absurd hpos (output_not_send (run_staged h))
    | testRunning =>
      cases hr : s.running .output with
      | true => exact absurd (Step.sawRunning hpos hr) (hstuck (.test .output) _)
      | false => exact absurd (Step.sawStopped hpos hr) (hstuck (.test .output) _)
    | testEmpty =>
      by_cases hq : (s.queue .output).items = []
      · exact absurd (Step.sawEmpty hpos hq) (hstuck (.test .output) _)
      · exact absurd (Step.sawItems hpos hq) (hstuck (.test .output) _)
    | exited => rfl

theorem exited_of_returned (h : Run (network cfg H rules isOpen).Step
    (start (network cfg H rules isOpen) frames) ls s) (hscript : s.script = [])
    (i : Fin cfg.numLoadBalancers) (j : Fin cfg.fpsPerLb) : s.position (.fp i j) = .exited := by
  refine (run_staged h).joined (.fp i j) ?_
  have hdone := (run_staged h).script
  rw [hscript, List.append_nil] at hdone
  rw [hdone]
  simp [network, stop, mem_stopFPs]

theorem drained_of_fps (h : Run (network cfg H rules isOpen).Step
    (start (network cfg H rules isOpen) frames) ls s)
    (hexit : ∀ i j, s.position (.fp i j) = .exited) :
    (network cfg H rules isOpen).Drained Inner s := by
  constructor
  · intro q hq
    exact items_nil_of_ne_output h hexit (by rintro rfl; exact hq)
  · intro w hw hbusy
    have hne : w ≠ .output := by
      rintro rfl
      exact hw
    rw [exited_of_ne_output h hexit hne] at hbusy
    exact hbusy

theorem written_perm (h : Run (network cfg H rules isOpen).Step
    (start (network cfg H rules isOpen) frames) ls s) (hscript : s.script = [])
    (hdrained : (s.queue .output).items = []) : (written s).Perm (forwarded s) := by
  have hout := output_exited h (.inl hscript)
  have hinner := drained_of_fps h (exited_of_returned h hscript)
  rw [List.perm_iff_count]
  intro y
  rw [output_balance h y, present_atOutput (run_staged h) hinner hdrained hout y, zero_add]

end Final

/-- If the output thread waits for what is on its way, no processor can push after its exit, and in
a final state every forwarded packet has been written exactly once. -/
theorem written_perm_forwarded (h : Run (PatientStep (processFile cfg H rules))
    (start (processFile cfg H rules) frames) ls s) :
    (s.position .output = .exited → (processFile cfg H rules).Drained Inner s) ∧
    (Final (processFile cfg H rules) s →
      (written s).Perm (forwarded s) ∧ ((forwarded s).map Prod.fst).Nodup) := by
  have hrun := run_of_patient h
  constructor
  · intro hout
    exact (drained_of_exited h hout).1
  · intro hfinal
    have hout := output_exited hrun hfinal
    obtain ⟨hd, hitems⟩ := drained_of_exited h hout
    constructor
    · rw [List.perm_iff_count]
      intro y
      rw [output_balance hrun y, present_atOutput (run_staged hrun) hd hitems hout y, zero_add]
    · exact forwarded_nodup hrun

instance (N : Network (QueueId cfg) (Thread cfg) PacketEnv Item (ThreadState cfg)) (s : State cfg) :
    (a : Label (Thread cfg) PacketEnv) → Decidable (Patient N s a)
  | .test .output => inferInstanceAs (Decidable (_ → _ → _))
  | .test (.parser _) | .test (.lb _) | .test (.fp _ _) => isTrue trivial
  | .read | .pop _ | .timeout _ | .work _ _ | .push _ | .maintain _ _ | .control => isTrue trivial

def stopBegins : List (Label (Thread oneEach) PacketEnv) :=
  [.read, .control, .control, .pop parser0, .work parser0 {}, .push parser0, .timeout parser0,
    .control, .test parser0, .test parser0, .control, .pop lb0, .work lb0 {}, .push lb0, .control,
    .control]

def stopReturns : List (Label (Thread oneEach) PacketEnv) :=
  [.pop fp0, .work fp0 {}, .push fp0, .timeout lb0, .control, .control, .test lb0, .test lb0,
    .control, .timeout fp0, .control, .control, .test fp0, .test fp0, .control]

def oneFrame : List RawPacketJob := [{ data := FastPathProcessor.webFrame TCPFlags.ACK }]

def patientRun : List (Label (Thread oneEach) PacketEnv) :=
  [.test .output] ++ stopBegins ++ stopReturns ++
    [.pop .output, .work .output {}, .test .output, .test .output, .control, .control]

theorem written_perm_forwarded_one : ∃ s : State oneEach,
    Run (PatientStep (processFile oneEach identityHash {}))
      (start (processFile oneEach identityHash {}) oneFrame) patientRun s ∧
    s.script = [] ∧ (forwarded s).length = 1 ∧ (written s).Perm (forwarded s) := by
  let N := processFile oneEach identityHash {}
  have hfinal : ((N.runIf (Patient N) (start N oneFrame) patientRun).map fun s =>
      (s.script, (forwarded s).length)) = some ([], 1) := by decide +kernel
  obtain ⟨s, hs, hfacts⟩ := Option.map_eq_some_iff.mp hfinal
  obtain ⟨hscript, hforwarded⟩ := Prod.mk.inj hfacts
  have hrun := run_of_runIf hs
  exact ⟨s, hrun, hscript, hforwarded, ((written_perm_forwarded hrun).2 (.inl hscript)).1⟩

def hastyRun : List (Label (Thread oneEach) PacketEnv) :=
  stopBegins ++ [.test .output, .test .output] ++ stopReturns ++ [.control, .control]

/-- Then the forwarded segment is never written. -/
theorem forwarded_not_written : ¬ ∀ ls (s : State oneEach),
    Run (processFile oneEach identityHash {}).Step
      (start (processFile oneEach identityHash {}) oneFrame) ls s →
    Final (processFile oneEach identityHash {}) s → (written s).Perm (forwarded s) := by
  intro hall
  let N := processFile oneEach identityHash {}
  have hfinal : ((N.runLabels (start N oneFrame) hastyRun).map fun s =>
      (s.script, (forwarded s).length, (written s).length)) = some ([], 1, 0) := by decide +kernel
  obtain ⟨s, hs, hfacts⟩ := Option.map_eq_some_iff.mp hfinal
  simp only [Prod.mk.injEq] at hfacts
  have hlength := (hall _ s (run_of_runLabels hs) (.inl hfacts.1)).length_eq
  rw [hfacts.2.1, hfacts.2.2] at hlength
  cases hlength

end DpiEngine.DPIEngine
