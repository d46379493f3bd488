import DpiEngine.Library.Channel
import DpiEngine.Pipeline.Output
import DpiEngine.Pipeline.Sequential

/-! # The order of the output file

The output queue is a channel between the processor of a flow and the output
thread. So the file has the packets of every flow in the order of the input, and
in the end exactly those that one processor for all packets forwards.
-/

namespace DpiEngine.DPIEngine

open Network FastPathProcessor

variable {cfg : Config} {H : StdHash} {rules : RuleManager} {isOpen : Bool}
  {frames : List RawPacketJob} {ls : List (Label (Thread cfg) PacketEnv)} {s t : State cfg}
  {a : Label (Thread cfg) PacketEnv} {k : FlowKey} {i : Fin cfg.numLoadBalancers}
  {j : Fin cfg.fpsPerLb}

def packetItem (y : ℕ × PacketJob) : ℕ × Item := (y.1, .packet y.2)

theorem packetItem_injective : Function.Injective packetItem := by
  rintro ⟨n, job⟩ ⟨n', job'⟩ h
  cases h
  rfl

def isOfFlow (k : FlowKey) (x : ℕ × Item) : Bool := x.2.flow = some k

theorem filter_map_packetItem (k : FlowKey) (l : List (ℕ × PacketJob)) :
    (l.map packetItem).filter (isOfFlow k) = (ofFlow k l).map packetItem := by
  rw [List.filter_map, ofFlow]
  congr 1
  refine List.filter_congr fun y _ => ?_
  simp [isOfFlow, packetItem, Item.flow]

theorem filterMap_sublist {α β : Type*} {f g : α → Option β} {l : List α}
    (h : ∀ a ∈ l, ∀ b, f a = some b → g a = some b) :
    (l.filterMap f).Sublist (l.filterMap g) := by
  induction l with
  | nil => exact List.Sublist.refl _
  | cons a l ih =>
    have hrest := ih fun a' ha' => h a' (List.mem_cons_of_mem a ha')
    cases hb : f a with
    | none =>
      rw [List.filterMap_cons_none hb]
      exact hrest.trans ((List.sublist_cons_self a l).filterMap g)
    | some b =>
      rw [List.filterMap_cons_some hb, List.filterMap_cons_some (h a List.mem_cons_self b hb)]
      exact hrest.cons_cons b

def forwardedBy (s : State cfg) (i : Fin cfg.numLoadBalancers) (j : Fin cfg.fpsPerLb) :
    List (ℕ × PacketJob) :=
  (s.log.filter (·.worker = .fp i j)).filterMap forwardedJob

section Channel

variable (h : Run (network cfg H rules isOpen).Step
  (start (network cfg H rules isOpen) frames) ls s)
include h

theorem fp_entry {e : Entry (QueueId cfg) (Thread cfg) Item} (he : e ∈ s.log)
    (hw : e.worker = .fp i j) : ∃ job, e.item = .packet job ∧ IsJobOf frames e.ticket job ∧
      (getLBForPacket cfg H job.tuple = i ∧ selectFP cfg H job.tuple = j) ∧
      (e.out = none ∧ forwardedJob e = none ∨
        e.out = some (.output, .packet job) ∧ forwardedJob e = some (e.ticket, job)) := by
  obtain ⟨hway, env, σ, σ', hwork⟩ := (run_onItsWay h).log e he
  obtain ⟨w, n, x, out⟩ := e
  cases hw
  obtain ⟨job, action, rfl, -, -, hout⟩ := Thread.process_some hwork
  obtain ⟨job', hjob', hframe, hroute⟩ := hway
  cases hjob'
  refine ⟨job, rfl, hframe, hroute, ?_⟩
  cases out with
  | none => exact .inl ⟨rfl, rfl⟩
  | some r =>
    obtain ⟨q, x⟩ := r
    obtain ⟨-, -, rfl, rfl⟩ := handleOutput_some hout.symm
    exact .inr ⟨rfl, rfl⟩

theorem results_eq (i : Fin cfg.numLoadBalancers) (j : Fin cfg.fpsPerLb) :
    s.results (.fp i j) .output = (forwardedBy s i j).map packetItem := by
  have hentries : ∀ e ∈ s.log.filter (·.worker = .fp i j),
      e.outTo .output = ((forwardedJob e).map packetItem).toList := by
    intro e he
    obtain ⟨hmem, hw⟩ := List.mem_filter.mp he
    obtain ⟨job, -, -, -, ⟨hout, hjob⟩ | ⟨hout, hjob⟩⟩ := fp_entry h hmem (of_decide_eq_true hw)
    · rw [Entry.outTo, hout, hjob]
      rfl
    · rw [Entry.outTo, hout, hjob]
      rfl
  rw [State.results, forwardedBy, List.map_filterMap, List.filterMap_eq_flatMap_toList]
  exact List.flatMap_congr hentries

theorem worked_output : s.worked .output = (written s).map packetItem := by
  have hentries : ∀ e ∈ s.log, (if e.worker = .output then [(e.ticket, e.item)] else []) =
      ((writtenJob e).map packetItem).toList := by
    intro e he
    obtain ⟨hway, -⟩ := (run_onItsWay h).log e he
    obtain ⟨w, n, x, out⟩ := e
    cases w with
    | output =>
      obtain ⟨job, rfl, -⟩ := hway
      rfl
    | _ => rfl
  rw [written, List.map_filterMap, List.filterMap_eq_flatMap_toList, ← List.flatMap_congr hentries,
    State.worked]
  induction s.log with
  | nil => rfl
  | cons e l ih =>
    rw [List.flatMap_cons, ← ih]
    by_cases hw : e.worker = .output <;> simp [hw]

theorem send_other (hroute : RoutedTo cfg H k i j) {w : Thread cfg} {x : ℕ × Item}
    (hw : w ≠ .fp i j) (hsend : s.position w = .send .output x) : isOfFlow k x = false := by
  obtain ⟨e, he, rfl, -, hout⟩ := run_logged h _ _ _ hsend
  rcases feeds_cases ((run_staged h).sends _ _ _ hsend) with
    ⟨_, _, -, hq⟩ | ⟨_, _, -, hq⟩ | ⟨i', j', hfp, -⟩
  · cases hq
  · cases hq
  · obtain ⟨job, -, ⟨r, -, haccepted⟩, ⟨rfl, rfl⟩, ⟨hnone, -⟩ | ⟨hsome, -⟩⟩ := fp_entry h he hfp
    · rw [hnone] at hout
      cases hout
    · rw [hsome] at hout
      obtain ⟨n, x⟩ := x
      cases hout
      refine decide_eq_false fun hflow => hw ?_
      obtain ⟨hi, hj⟩ := hroute r job haccepted (Option.some.inj hflow)
      rw [hfp, hi, hj]

theorem output_open {w : Thread cfg} {x : ℕ × Item} (hsend : s.position w = .send .output x) :
    (s.queue .output).isShutdown = false := by
  refine Bool.eq_false_of_not_eq_true fun hshut => ?_
  exact ((run_staged h).quiet_of_closed hshut (settles_close _)).not_push (run_staged h) hsend

theorem run_passes (hroute : RoutedTo cfg H k i j) :
    Passes (isOfFlow k) s .output (.fp i j) .output := by
  have hstates := h.with_states (P := fun u => ∃ ls, Run (network cfg H rules isOpen).Step
    (start (network cfg H rules isOpen) frames) ls u) fun l' u _ hu => ⟨l', hu⟩
  apply hstates.invariant (I := fun s => Passes (isOfFlow k) s .output (.fp i j) .output)
  · rintro s a t hpasses ⟨⟨ls, hs⟩, hst⟩
    refine passes_step (by exact nofun) (fun u => ?_) (fun u x hsend => output_open hs hsend)
      (fun u x hw hsend => send_other hs hroute hw hsend) hpasses hst
    cases u <;> simp [network]
  · simp [Passes, State.channel, State.taken, State.results, start, init, outgoing_head]

/-- The packets of a flow that are written come first among those that are forwarded. -/
theorem exists_unwritten (hroute : RoutedTo cfg H k i j) :
    ∃ l : List (ℕ × Item), (ofFlow k (forwardedBy s i j)).map packetItem =
      (ofFlow k (written s)).map packetItem ++ l.filter (isOfFlow k) ∧
      l = (s.position .output).holding ++ (s.queue .output).items ++
        (s.position (.fp i j)).outgoing .output := by
  refine ⟨_, ?_, rfl⟩
  have hpasses := run_passes h hroute
  rw [Passes, State.channel, run_inOrder h, results_eq h, filter_map_packetItem,
    worked_output h] at hpasses
  rw [← hpasses, ← filter_map_packetItem, ← List.filter_append]
  simp only [List.append_assoc]

theorem written_begins (hroute : RoutedTo cfg H k i j) :
    ofFlow k (written s) <+: ofFlow k (forwardedBy s i j) := by
  obtain ⟨l, hl, -⟩ := exists_unwritten h hroute
  rw [← List.prefix_map_iff_of_injective packetItem_injective, hl]
  exact List.prefix_append _ _

theorem forwardedBy_sublist (i : Fin cfg.numLoadBalancers) (j : Fin cfg.fpsPerLb) :
    (forwardedBy s i j).Sublist (workedJobs s (.fp i j)) := by
  have hentries : ∀ e ∈ s.log.filter (·.worker = .fp i j), ∀ y, forwardedJob e = some y →
      e.item.job.map (e.ticket, ·) = some y := by
    intro e he y hy
    obtain ⟨hmem, hw⟩ := List.mem_filter.mp he
    obtain ⟨job, hitem, -, -, ⟨-, hjob⟩ | ⟨-, hjob⟩⟩ := fp_entry h hmem (of_decide_eq_true hw)
    · rw [hjob] at hy
      cases hy
    · rw [hjob] at hy
      cases hy
      rw [hitem]
      rfl
  rw [forwardedBy, workedJobs, State.worked, List.filterMap_map]
  exact filterMap_sublist hentries

theorem written_isJobOf {y : ℕ × PacketJob} (hy : y ∈ written s) : IsJobOf frames y.1 y.2 := by
  obtain ⟨e, he, hjob⟩ := List.mem_filterMap.mp hy
  have hway := ((run_onItsWay h).log e he).1
  unfold writtenJob at hjob
  split at hjob
  · next job hw hitem =>
    cases hjob
    rw [hw, hitem] at hway
    obtain ⟨job', hjob', hframe⟩ := hway
    cases hjob'
    exact hframe
  · cases hjob

end Channel

/-- In every state the written packets of each flow are in the order in which they were read. -/
theorem written_in_order (h : Run (OrderlyStep (network cfg H rules isOpen))
    (start (network cfg H rules isOpen) frames) ls s) :
    (written s).Pairwise fun a b => a.2.flow = b.2.flow → a.1 < b.1 := by
  have hrun := run_of_orderly h
  rw [List.pairwise_iff_forall_sublist]
  intro a b hab hflow
  obtain ⟨r, -, haccepted⟩ := written_isJobOf hrun (hab.subset List.mem_cons_self)
  have hroute : RoutedTo cfg H a.2.flow _ _ := routedTo haccepted
  have hwritten : [a, b].Sublist (ofFlow a.2.flow (written s)) := by
    have hpair : ofFlow a.2.flow [a, b] = [a, b] := by simp [ofFlow, hflow]
    rw [← hpair]
    exact hab.filter _
  have hpairwise := (pairwise_workedJobs h hroute).sublist
    (((hwritten.trans (written_begins hrun hroute).sublist)).trans
      ((forwardedBy_sublist hrun _ _).filter _))
  simpa using hpairwise

def writingRun (p p' : Fin 2) : List (Label (Thread twoParsers) PacketEnv) :=
  [.read, .read, .pop (.parser p), .pop (.parser p'), .work (.parser p') {},
    .work (.parser p) {}, .push (.parser p), .push (.parser p'), .pop lb00, .work lb00 {},
    .push lb00, .pop lb00, .work lb00 {}, .push lb00, .pop fp00, .work fp00 {}, .push fp00,
    .pop fp00, .work fp00 {}, .push fp00, .test .output, .pop .output, .work .output {},
    .test .output, .pop .output, .work .output {}]

theorem written_in_order_two : ∃ s : State twoParsers,
    Run (OrderlyStep (processFile twoParsers identityHash {}))
      (start (processFile twoParsers identityHash {}) oneFlow) (writingRun 0 1) s ∧
    (written s).length = 2 ∧
      (written s).Pairwise fun a b => a.2.flow = b.2.flow → a.1 < b.1 := by
  let N := processFile twoParsers identityHash {}
  have hfinal : ((N.runIf InTurn (start N oneFlow) (writingRun 0 1)).map fun s =>
      (written s).length) = some 2 := by decide +kernel
  obtain ⟨s, hs, hlength⟩ := Option.map_eq_some_iff.mp hfinal
  exact ⟨s, run_of_runIf hs, hlength, written_in_order (run_of_runIf hs)⟩

section Returned

def forwardedJobs (fp : FastPathProcessor) : List PacketJob :=
  (fp.actions.filter (·.2 ≠ .drop)).map Prod.fst

theorem filter_forwardedJobs (fp : FastPathProcessor) (k : FlowKey) :
    (forwardedJobs fp).filter (·.flow = k) =
      ((fp.verdicts k).filter (·.2 ≠ .drop)).map Prod.fst := by
  rw [forwardedJobs, verdicts, List.filter_map, List.filter_filter, List.filter_filter]
  congr 1
  refine List.filter_congr fun a _ => ?_
  exact Bool.and_comm _ _

def outputFile (s : State cfg) : List PacketJob := s.loc .output

theorem ofFlow_eq_nil {l : List (ℕ × PacketJob)} (hl : ∀ y ∈ l, IsJobOf frames y.1 y.2)
    (hk : ¬ ∃ job ∈ acceptedJobs frames, job.flow = k) : ofFlow k l = [] := by
  refine List.filter_eq_nil_iff.mpr fun y hy hflow => hk ⟨y.2, ?_, of_decide_eq_true hflow⟩
  rw [← map_numberedJobs frames]
  exact List.mem_map.mpr ⟨y, mem_numberedJobs.mpr (hl y hy), rfl⟩

theorem count_filter_flow (l : List PacketJob) (job : PacketJob) :
    (l.filter fun job' => job'.flow = job.flow).count job = l.count job :=
  List.count_filter (by simp)

theorem map_forwardedBy (h : Run (processFile cfg H rules).Step
    (start (processFile cfg H rules) frames) ls s) (i : Fin cfg.numLoadBalancers)
    (j : Fin cfg.fpsPerLb) :
    (forwardedBy s i j).map Prod.snd = forwardedJobs (fastPath s i j) := by
  rw [forwardedBy, List.map_filterMap]
  exact (actions_eq h i j).symm

section Flows

variable (hscript : s.script = []) (hdrained : (s.queue .output).items = [])
include hscript hdrained

/-- If the output queue is empty in the end, all forwarded packets of a flow are written, in their
order. -/
theorem ofFlow_written (h : Run (processFile cfg H rules).Step
    (start (processFile cfg H rules) frames) ls s) (hroute : RoutedTo cfg H k i j) :
    ofFlow k (written s) = ofFlow k (forwardedBy s i j) := by
  have hout := output_exited h (.inl hscript)
  obtain ⟨l, hl, rfl⟩ := exists_unwritten h hroute
  have houtgoing : (s.position (.fp i j)).outgoing .output = [] := by
    rw [exited_of_returned h hscript i j]
    rfl
  have hholding : (s.position .output).holding = [] := by
    rw [hout]
    rfl
  rw [houtgoing, hholding, hdrained, List.append_nil, List.append_nil, List.filter_nil,
    List.append_nil] at hl
  exact (List.map_injective_iff.mpr packetItem_injective hl).symm

theorem filter_outputFile (h : Run (OrderlyStep (processFile cfg H rules))
    (start (processFile cfg H rules) frames) ls s)
    (hcomplete : ∀ i j, (fastPath s i j).tracker.Complete) :
    ∃ fp, sequential rules frames.length (acceptedJobs frames) = .ok fp ∧
      Follows rules (acceptedJobs frames) fp ∧
      ∀ k, (outputFile s).filter (·.flow = k) = (forwardedJobs fp).filter (·.flow = k) := by
  have hrun := run_of_orderly h
  obtain ⟨fp, hsequential, hfollows, hfp⟩ :=
    exists_sequential h (exited_of_returned hrun hscript) hcomplete
  refine ⟨fp, hsequential, hfollows, fun k => ?_⟩
  obtain ⟨i, j, hto, hverdicts, -⟩ := hfp k
  have hforwarded : (forwardedJobs fp).filter (·.flow = k) =
      (ofFlow k (forwardedBy s i j)).map Prod.snd := by
    rw [map_ofFlow, map_forwardedBy hrun, filter_forwardedJobs, filter_forwardedJobs, hverdicts,
      if_pos ⟨rfl, rfl⟩]
  rw [outputFile, file_eq hrun, ← map_ofFlow, hforwarded]
  by_cases hk : ∃ job ∈ acceptedJobs frames, job.flow = k
  · obtain ⟨job, hjob, rfl⟩ := hk
    obtain ⟨r, -, hr⟩ := List.mem_filterMap.mp hjob
    have hroute : RoutedTo cfg H job.flow _ _ := routedTo (RawPacketJob.acceptedJob_eq_some.mp hr)
    obtain ⟨hi, hj⟩ := hto job hjob rfl
    rw [hi, hj] at hroute
    rw [ofFlow_written hscript hdrained hrun hroute]
  · rw [ofFlow_eq_nil (fun y hy => written_isJobOf hrun hy) hk, ofFlow_eq_nil (fun y hy => ?_) hk]
    exact (mem_workedJobs hrun ((forwardedBy_sublist hrun i j).subset hy)).1

/-- When `stop` has returned and the output queue is drained, the output file is what one processor
for all packets forwards, up to the order of different flows. -/
theorem written_sequential (h : Run (OrderlyStep (processFile cfg H rules))
    (start (processFile cfg H rules) frames) ls s)
    (hcomplete : ∀ i j, (fastPath s i j).tracker.Complete) :
    ∃ fp, sequential rules frames.length (acceptedJobs frames) = .ok fp ∧
      (∀ k, (outputFile s).filter (·.flow = k) = (forwardedJobs fp).filter (·.flow = k)) ∧
      (outputFile s).Perm (forwardedJobs fp) := by
  obtain ⟨fp, hsequential, -, hfile⟩ := filter_outputFile hscript hdrained h hcomplete
  refine ⟨fp, hsequential, hfile, ?_⟩
  rw [List.perm_iff_count]
  intro job
  rw [← count_filter_flow, hfile, count_filter_flow]

end Flows

theorem written_sequential_two : ∃ (s : State twoParsers) (fp : FastPathProcessor),
    (outputFile s).length = 2 ∧ sequential {} 2 (acceptedJobs oneFlow) = .ok fp ∧
      (∀ k, (outputFile s).filter (·.flow = k) = (forwardedJobs fp).filter (·.flow = k)) ∧
      (outputFile s).Perm (forwardedJobs fp) := by
  let N := processFile twoParsers identityHash {}
  let labels := writingRun 0 1 ++ windDown 0 1 ++ [.test .output, .test .output, .control, .control]
  have hfinal : ((N.runIf InTurn (start N oneFlow) labels).map fun s =>
      (s.script, (s.queue .output).items.isEmpty,
        decide (∀ i j, (fastPath s i j).tracker.Complete), (outputFile s).length)) =
      some ([], true, true, 2) := by decide +kernel
  obtain ⟨s, hs, hfacts⟩ := Option.map_eq_some_iff.mp hfinal
  simp only [Prod.mk.injEq, List.isEmpty_iff, decide_eq_true_eq] at hfacts
  obtain ⟨hscript, hdrained, hcomplete, hlength⟩ := hfacts
  have horderly : Run (OrderlyStep N) (start N oneFlow) labels s := run_of_runIf hs
  obtain ⟨fp, hfp⟩ := written_sequential hscript hdrained horderly hcomplete
  exact ⟨s, fp, hlength, hfp⟩

end Returned

end DpiEngine.DPIEngine
