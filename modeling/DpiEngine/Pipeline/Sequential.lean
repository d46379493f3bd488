import DpiEngine.FastPath.FlowHistory
import DpiEngine.Library.Worked
import DpiEngine.Pipeline.Order

/-! # One processor for all packets

When all threads have exited, each processor has worked on the packets of its
flows in the order of the input. So the engine has done what one processor does
that gets all packets one after the other, unless some table has lost an entry.
-/

namespace DpiEngine

def RawPacketJob.acceptedJob (r : RawPacketJob) : Option PacketJob :=
  (ParserWorker.parseJob r.toRawPacket r.packetId).value.join

theorem RawPacketJob.acceptedJob_eq_some {r : RawPacketJob} {job : PacketJob} :
    r.acceptedJob = some job ↔ r.Accepted job := Option.join_eq_some_iff

def Item.job : Item → Option PacketJob
  | .raw _ => none
  | .packet job => some job

namespace DPIEngine

open Network FastPathProcessor

variable {cfg : Config} {H : StdHash} {rules : RuleManager} {isOpen : Bool}
  {frames : List RawPacketJob} {ls : List (Label (Thread cfg) PacketEnv)} {s : State cfg}
  {k : FlowKey} {n : ℕ} {job : PacketJob} {i i' : Fin cfg.numLoadBalancers}
  {j j' : Fin cfg.fpsPerLb}

/-- The jobs of the frames that are accepted, in the order of the frames. -/
def acceptedJobs (frames : List RawPacketJob) : List PacketJob :=
  frames.filterMap RawPacketJob.acceptedJob

def numberedJobs (frames : List RawPacketJob) : List (ℕ × PacketJob) :=
  frames.zipIdx.filterMap fun f => f.1.acceptedJob.map (f.2, ·)

def workedJobs (s : State cfg) (w : Thread cfg) : List (ℕ × PacketJob) :=
  (s.worked w).filterMap fun x => x.2.job.map (x.1, ·)

def ofFlow (k : FlowKey) (jobs : List (ℕ × PacketJob)) : List (ℕ × PacketJob) :=
  jobs.filter (·.2.flow = k)

theorem map_numberedJobs (frames : List RawPacketJob) :
    (numberedJobs frames).map Prod.snd = acceptedJobs frames := by
  have hjob (f : RawPacketJob × ℕ) :
      (f.1.acceptedJob.map (f.2, ·)).map Prod.snd = f.1.acceptedJob := by
    rw [Option.map_map]
    exact Option.map_id'
  have hframes : frames.zipIdx.map Prod.fst = frames := List.zipIdx_map_fst ..
  rw [numberedJobs, List.map_filterMap, acceptedJobs]
  conv_rhs => rw [← hframes, List.filterMap_map]
  exact List.filterMap_congr fun f _ => hjob f

theorem mem_numberedJobs : (n, job) ∈ numberedJobs frames ↔ IsJobOf frames n job := by
  simp only [numberedJobs, List.mem_filterMap, List.mem_zipIdx_iff_getElem?, Prod.exists,
    Option.map_eq_some_iff, RawPacketJob.acceptedJob_eq_some, Prod.mk.injEq, IsJobOf]
  constructor
  · rintro ⟨r, m, hr, job', hjob, rfl, rfl⟩
    exact ⟨r, hr, hjob⟩
  · rintro ⟨r, hr, hjob⟩
    exact ⟨r, n, hr, job, hjob, rfl, rfl⟩

theorem pairwise_numberedJobs (frames : List RawPacketJob) :
    (numberedJobs frames).Pairwise fun a b => a.1 < b.1 := by
  rw [numberedJobs, List.pairwise_filterMap]
  have hnumbers : (frames.zipIdx.map Prod.snd).Pairwise (· < ·) := by
    rw [List.zipIdx_map_snd]
    exact List.pairwise_lt_range'
  refine (List.pairwise_map.mp hnumbers).imp fun {f g} hlt a ha b hb => ?_
  obtain ⟨job, -, rfl⟩ := Option.map_eq_some_iff.mp ha
  obtain ⟨job', -, rfl⟩ := Option.map_eq_some_iff.mp hb
  exact hlt

section Finished

theorem mem_workedJobs (h : Run (network cfg H rules isOpen).Step
    (start (network cfg H rules isOpen) frames) ls s)
    (hjob : (n, job) ∈ workedJobs s (.fp i j)) : IsJobOf frames n job ∧
      getLBForPacket cfg H job.tuple = i ∧ selectFP cfg H job.tuple = j := by
  obtain ⟨⟨m, x⟩, hx, hmap⟩ := List.mem_filterMap.mp hjob
  obtain ⟨e, he, hentry⟩ := List.mem_map.mp hx
  obtain ⟨hmem, hw⟩ := List.mem_filter.mp he
  obtain ⟨job', hjob', heq⟩ := Option.map_eq_some_iff.mp hmap
  cases heq
  have hway := ((run_onItsWay h).log e hmem).1
  rw [of_decide_eq_true hw, hentry] at hway
  obtain ⟨job'', rfl, hframe, hi, hj⟩ := hway
  cases hjob'
  exact ⟨hframe, hi, hj⟩

theorem flatMap_ticket (k : FlowKey) {l : List (ℕ × Item)}
    (hl : ∀ x ∈ l, ∃ job, x.2 = .packet job) :
    l.flatMap (ticket k) =
      (ofFlow k (l.filterMap fun x => x.2.job.map (x.1, ·))).map Prod.fst := by
  induction l with
  | nil => rfl
  | cons x l ih =>
    obtain ⟨job, hjob⟩ := hl x List.mem_cons_self
    have hrest := ih fun y hy => hl y (List.mem_cons_of_mem x hy)
    obtain ⟨m, x⟩ := x
    cases hjob
    simp only [List.flatMap_cons, hrest, ofFlow, ticket, Item.flow, Item.job, Option.some.injEq,
      Option.map_some, List.filterMap_cons_some]
    split_ifs with hflow <;> simp [hflow]

theorem worked_packet (h : Run (network cfg H rules isOpen).Step
    (start (network cfg H rules isOpen) frames) ls s) :
    ∀ x ∈ s.worked (.fp i j), ∃ job, x.2 = .packet job := by
  intro x hx
  obtain ⟨e, he, rfl⟩ := List.mem_map.mp hx
  obtain ⟨hmem, hw⟩ := List.mem_filter.mp he
  have hway := ((run_onItsWay h).log e hmem).1
  rw [of_decide_eq_true hw] at hway
  obtain ⟨job, hjob, -⟩ := hway
  exact ⟨job, hjob⟩

theorem pairwise_workedJobs (h : Run (OrderlyStep (network cfg H rules isOpen))
    (start (network cfg H rules isOpen) frames) ls s) (hroute : RoutedTo cfg H k i j) :
    (ofFlow k (workedJobs s (.fp i j))).Pairwise fun a b => a.1 < b.1 := by
  have hrun := run_of_orderly h
  have : Nonempty (Fin cfg.parserCount) := ⟨⟨0, cfg.parserCount_pos⟩⟩
  have hpopped : (s.taken (.fp i j)).Sublist ((fpPops s).map Prod.snd) := by
    refine List.Sublist.map _ (List.monotone_filter_right _ fun y hy => ?_)
    rw [of_decide_eq_true hy]
    rfl
  have hworked : (s.worked (.fp i j)).Sublist (way i j s) := by
    have hfinished := List.sublist_append_left (s.worked (.fp i j)) (s.position (.fp i j)).holding
    rw [← run_inOrder hrun] at hfinished
    unfold way
    rw [List.append_assoc, List.append_assoc]
    exact (hfinished.trans hpopped).trans (List.sublist_append_left _ _)
  have hordered := (view_ordered hroute h).out.sublist (hworked.flatMap (ticket k))
  rw [flatMap_ticket k (worked_packet hrun)] at hordered
  exact List.pairwise_map.mp hordered

variable (hexit : ∀ i j, s.position (.fp i j) = .exited)
include hexit

theorem workedJobs_complete (h : Run (network cfg H rules isOpen).Step
    (start (network cfg H rules isOpen) frames) ls s) (hjob : IsJobOf frames n job) :
    (n, job) ∈ workedJobs s (.fp (getLBForPacket cfg H job.tuple) (selectFP cfg H job.tuple)) := by
  have hparser : s.position (.parser ⟨0, cfg.parserCount_pos⟩) = .exited :=
    exited_of_ne_output h hexit nofun
  have hreads := (run_reads h).items
  rw [unread_nil h hparser, List.append_nil] at hreads
  obtain ⟨r, hr, haccepted⟩ := hjob
  rcases frame_delivered h hexit hreads hr with ⟨hrejected, -⟩ | hdelivered
  · cases haccepted.symm.trans hrejected
  · obtain ⟨job', haccepted', -, -, i, j, out, hmem⟩ := hdelivered
    cases haccepted.symm.trans haccepted'
    obtain ⟨⟨job'', heq, -, hi, hj⟩, -⟩ := (run_onItsWay h).log _ hmem
    cases heq
    rw [hi, hj]
    refine List.mem_filterMap.mpr ⟨(n, .packet job), ?_, rfl⟩
    exact List.mem_map.mpr ⟨_, List.mem_filter.mpr ⟨hmem, decide_eq_true rfl⟩, rfl⟩

/-- In the end the processor of a flow has finished its packets in the order of the input. -/
theorem ofFlow_eq (h : Run (OrderlyStep (network cfg H rules isOpen))
    (start (network cfg H rules isOpen) frames) ls s) (hroute : RoutedTo cfg H k i j) :
    ofFlow k (workedJobs s (.fp i j)) = ofFlow k (numberedJobs frames) := by
  have hrun := run_of_orderly h
  refine List.Pairwise.eq_of_mem_iff (r := fun a b => a.1 < b.1) (pairwise_workedJobs h hroute)
    ((pairwise_numberedJobs frames).filter _) fun {a} => ?_
  obtain ⟨n, job⟩ := a
  simp only [ofFlow, List.mem_filter, mem_numberedJobs, decide_eq_true_eq]
  refine and_congr_left fun hflow => ⟨fun hmem => (mem_workedJobs hrun hmem).1, fun hjob => ?_⟩
  have hmem := workedJobs_complete hexit hrun hjob
  obtain ⟨r, -, haccepted⟩ := hjob
  obtain ⟨hi, hj⟩ := hroute r job haccepted hflow
  rwa [hi, hj] at hmem

omit hexit in
theorem ofFlow_nil (h : Run (network cfg H rules isOpen).Step
    (start (network cfg H rules isOpen) frames) ls s) (hroute : RoutedTo cfg H k i j)
    (hne : ¬ (i' = i ∧ j' = j)) : ofFlow k (workedJobs s (.fp i' j')) = [] := by
  refine List.filter_eq_nil_iff.mpr fun a ha hflow => hne ?_
  obtain ⟨⟨r, -, haccepted⟩, rfl, rfl⟩ := mem_workedJobs h ha
  exact hroute r _ haccepted (of_decide_eq_true hflow)

end Finished

section Agreement

def fastPath (s : State cfg) (i : Fin cfg.numLoadBalancers) (j : Fin cfg.fpsPerLb) :
    FastPathProcessor :=
  s.loc (.fp i j)

theorem map_workedJobs (s : State cfg) (w : Thread cfg) :
    (workedJobs s w).map Prod.snd =
      (s.log.filter (·.worker = w)).filterMap fun e => e.item.job := by
  have hjob (e : Entry (QueueId cfg) (Thread cfg) Item) :
      (e.item.job.map (e.ticket, ·)).map Prod.snd = e.item.job := by
    rw [Option.map_map]
    exact Option.map_id'
  rw [workedJobs, State.worked, List.filterMap_map, List.map_filterMap]
  exact List.filterMap_congr fun e _ => hjob e

/-- A processor tracks the packets that it has finished. -/
theorem run_tracks (h : Run (network cfg H rules isOpen).Step
    (start (network cfg H rules isOpen) frames) ls s) (i : Fin cfg.numLoadBalancers)
    (j : Fin cfg.fpsPerLb) :
    Tracks rules ((workedJobs s (.fp i j)).map Prod.snd) (fastPath s i j) := by
  rw [map_workedJobs]
  refine run_history (w := .fp i j)
    (R := fun (fp : FastPathProcessor) es => Tracks rules (es.filterMap fun e => e.item.job) fp)
    (tracks_empty rules) ?_ (fun q hR => hR) (fun env hR => hR.cleanup _ _) h
  intro env fp es n a fp' out hR hwork
  obtain ⟨job, action, rfl, hok, -, -⟩ := Thread.process_some hwork
  rw [List.filterMap_append]
  exact hR.packet hok

theorem map_ofFlow (k : FlowKey) (jobs : List (ℕ × PacketJob)) :
    (ofFlow k jobs).map Prod.snd = (jobs.map Prod.snd).filter (·.flow = k) := by
  rw [List.filter_map]
  rfl

theorem exists_route (hexit : ∀ i j, s.position (.fp i j) = .exited)
    (h : Run (OrderlyStep (network cfg H rules isOpen))
      (start (network cfg H rules isOpen) frames) ls s) (k : FlowKey) :
    ∃ i j, (∀ job ∈ acceptedJobs frames, job.flow = k →
        getLBForPacket cfg H job.tuple = i ∧ selectFP cfg H job.tuple = j) ∧
      ∀ i' j', ((workedJobs s (.fp i' j')).map Prod.snd).filter (·.flow = k) =
        if i' = i ∧ j' = j then (acceptedJobs frames).filter (·.flow = k) else [] := by
  have hrun := run_of_orderly h
  by_cases hk : ∃ job ∈ acceptedJobs frames, job.flow = k
  · obtain ⟨job, hjob, rfl⟩ := hk
    obtain ⟨r, -, hr⟩ := List.mem_filterMap.mp hjob
    have hroute : RoutedTo cfg H job.flow _ _ := routedTo (RawPacketJob.acceptedJob_eq_some.mp hr)
    refine ⟨getLBForPacket cfg H job.tuple, selectFP cfg H job.tuple,
      fun job' hjob' hflow => ?_, fun i' j' => ?_⟩
    · obtain ⟨r', -, hr'⟩ := List.mem_filterMap.mp hjob'
      exact hroute r' job' (RawPacketJob.acceptedJob_eq_some.mp hr') hflow
    · rw [← map_ofFlow, ← map_numberedJobs frames, ← map_ofFlow]
      split_ifs with hij
      · obtain ⟨rfl, rfl⟩ := hij
        rw [ofFlow_eq hexit h hroute]
      · rw [ofFlow_nil hrun hroute hij]
        rfl
  · have hnil : (acceptedJobs frames).filter (·.flow = k) = [] :=
      List.filter_eq_nil_iff.mpr fun job hjob hflow => hk ⟨job, hjob, of_decide_eq_true hflow⟩
    refine ⟨⟨0, cfg.numLoadBalancers_pos⟩, ⟨0, cfg.fpsPerLb_pos⟩,
      fun job hjob hflow => absurd ⟨job, hjob, hflow⟩ hk, fun i' j' => ?_⟩
    rw [hnil, ite_self]
    refine List.filter_eq_nil_iff.mpr fun job hjob hflow => hk ⟨job, ?_, of_decide_eq_true hflow⟩
    obtain ⟨⟨n, job'⟩, hmem, rfl⟩ := List.mem_map.mp hjob
    obtain ⟨hframe, -, -⟩ := mem_workedJobs hrun hmem
    rw [← map_numberedJobs frames]
    exact List.mem_map.mpr ⟨_, mem_numberedJobs.mpr hframe, rfl⟩

/-- The packets with their actions, of all processors. -/
def allActions (s : State cfg) : List (PacketJob × PacketAction) :=
  (List.finRange cfg.numLoadBalancers).flatMap fun i =>
    (List.finRange cfg.fpsPerLb).flatMap fun j => (fastPath s i j).actions

theorem count_allActions (s : State cfg) (x : PacketJob × PacketAction) :
    (allActions s).count x = ∑ i, ∑ j, (fastPath s i j).actions.count x := by
  simp only [allActions, List.count_flatMap, Function.comp_def, ← List.ofFn_eq_map,
    List.sum_ofFn]

theorem count_actions (fp : FastPathProcessor) (x : PacketJob × PacketAction) :
    fp.actions.count x = (fp.verdicts x.1.flow).count x := by
  rw [verdicts]
  exact (List.count_filter (by simp)).symm

/-- One processor for all packets returns, and on every flow it agrees with the processor of the
flow. -/
theorem exists_sequential (h : Run (OrderlyStep (network cfg H rules isOpen))
    (start (network cfg H rules isOpen) frames) ls s)
    (hexit : ∀ i j, s.position (.fp i j) = .exited)
    (hcomplete : ∀ i j, (fastPath s i j).tracker.Complete) :
    ∃ fp, sequential rules frames.length (acceptedJobs frames) = .ok fp ∧
      Follows rules (acceptedJobs frames) fp ∧
      ∀ k, ∃ i j, (∀ job ∈ acceptedJobs frames, job.flow = k →
          getLBForPacket cfg H job.tuple = i ∧ selectFP cfg H job.tuple = j) ∧
        (∀ i' j', (fastPath s i' j').verdicts k =
          if i' = i ∧ j' = j then fp.verdicts k else []) ∧
        ∀ i' j', ((fastPath s i' j').tracker.connections.lookup k).map Connection.untimed =
          if i' = i ∧ j' = j then (fp.tracker.connections.lookup k).map Connection.untimed
          else none := by
  have hfollows (i : Fin cfg.numLoadBalancers) (j : Fin cfg.fpsPerLb) :=
    (run_tracks (run_of_orderly h) i j).follows (hcomplete i j)
  have hroute := exists_route hexit h
  have hreturns (k : FlowKey) :
      (flowHistory rules ((acceptedJobs frames).filter (·.flow = k))).Returns := by
    obtain ⟨i, j, -, hjobs⟩ := hroute k
    obtain ⟨r, hr, -⟩ := hfollows i j k
    rw [hjobs, if_pos ⟨rfl, rfl⟩] at hr
    exact ⟨r, hr⟩
  obtain ⟨fp, hsequential, hfp⟩ :=
    sequential_follows (List.length_filterMap_le RawPacketJob.acceptedJob frames) hreturns
  refine ⟨fp, hsequential, hfp, fun k => ?_⟩
  obtain ⟨i, j, hto, hjobs⟩ := hroute k
  have hagree := (hfollows i j).agree hfp (k := k) (by rw [hjobs, if_pos ⟨rfl, rfl⟩]; rfl)
  have hother (i' : Fin cfg.numLoadBalancers) (j' : Fin cfg.fpsPerLb)
      (hij : ¬ (i' = i ∧ j' = j)) :=
    (hfollows i' j').of_nil ((hjobs i' j').trans (if_neg hij))
  refine ⟨i, j, hto, fun i' j' => ?_, fun i' j' => ?_⟩
  · split_ifs with hij
    · obtain ⟨rfl, rfl⟩ := hij
      exact hagree.1
    · exact (hother i' j' hij).1
  · split_ifs with hij
    · obtain ⟨rfl, rfl⟩ := hij
      exact hagree.2
    · rw [(hother i' j' hij).2]
      rfl

/-- The engine has taken the actions that one processor takes which gets all accepted packets one
after the other, and has the same entries, provided that the tables have lost nothing. -/
theorem sequential_agreement (h : Run (OrderlyStep (network cfg H rules isOpen))
    (start (network cfg H rules isOpen) frames) ls s)
    (hexit : ∀ i j, s.position (.fp i j) = .exited)
    (hcomplete : ∀ i j, (fastPath s i j).tracker.Complete) :
    ∃ fp, sequential rules frames.length (acceptedJobs frames) = .ok fp ∧
      (allActions s).Perm fp.actions ∧
      ∀ job ∈ acceptedJobs frames,
        let fp' := fastPath s (getLBForPacket cfg H job.tuple) (selectFP cfg H job.tuple)
        fp'.verdicts job.flow = fp.verdicts job.flow ∧
          (fp'.tracker.connections.lookup job.flow).map Connection.untimed =
            (fp.tracker.connections.lookup job.flow).map Connection.untimed := by
  obtain ⟨fp, hsequential, -, hfp⟩ := exists_sequential h hexit hcomplete
  refine ⟨fp, hsequential, ?_, fun job hjob => ?_⟩
  · rw [List.perm_iff_count]
    intro x
    obtain ⟨i, j, -, hverdicts, -⟩ := hfp x.1.flow
    have hcount (i' : Fin cfg.numLoadBalancers) (j' : Fin cfg.fpsPerLb) :
        (fastPath s i' j').actions.count x =
          if i' = i ∧ j' = j then fp.actions.count x else 0 := by
      rw [count_actions, count_actions, hverdicts]
      split_ifs <;> rfl
    simp [count_allActions, hcount, ite_and]
  · obtain ⟨i, j, hto, hverdicts, hentry⟩ := hfp job.flow
    obtain ⟨hi, hj⟩ := hto job hjob rfl
    rw [hi, hj]
    constructor
    · rw [hverdicts, if_pos ⟨rfl, rfl⟩]
    · rw [hentry, if_pos ⟨rfl, rfl⟩]

def lb00 : Thread twoParsers := .lb (0 : Fin 1)

def fp00 : Thread twoParsers := .fp (0 : Fin 1) (0 : Fin 1)

def windDown (p p' : Fin 2) : List (Label (Thread twoParsers) PacketEnv) :=
  [.control, .control, .control, .timeout (.parser p), .test (.parser p), .test (.parser p),
    .control, .control, .timeout (.parser p'), .test (.parser p'), .test (.parser p'), .control,
    .control, .control, .control, .control, .timeout lb00, .test lb00, .test lb00, .control,
    .control, .control, .timeout fp00, .test fp00, .test fp00, .control]

theorem exists_exited_two : ∃ (ls : List (Label (Thread twoParsers) PacketEnv))
    (s : State twoParsers), Run (OrderlyStep (processSynthetic twoParsers identityHash {}))
      (start (processSynthetic twoParsers identityHash {}) oneFlow) ls s ∧
    (∀ i j, s.position (.fp i j) = .exited) ∧ (∀ i j, (fastPath s i j).tracker.Complete) ∧
    (allActions s).length = 2 := by
  let N := processSynthetic twoParsers identityHash {}
  have hfinal : ((N.runIf InTurn (start N oneFlow)
      (racingRun 0 1 ++ .work fp00 {} :: windDown 0 1)).map fun s =>
      (decide (∀ i j, s.position (.fp i j) = .exited),
        decide (∀ i j, (fastPath s i j).tracker.Complete), (allActions s).length)) =
      some (true, true, 2) := by decide +kernel
  obtain ⟨s, hs, hfacts⟩ := Option.map_eq_some_iff.mp hfinal
  simp only [Prod.mk.injEq, decide_eq_true_eq] at hfacts
  exact ⟨_, s, run_of_runIf hs, hfacts⟩

theorem sequential_agreement_two : ∃ (s : State twoParsers) (fp : FastPathProcessor),
    (allActions s).length = 2 ∧ sequential {} 2 (acceptedJobs oneFlow) = .ok fp ∧
      (allActions s).Perm fp.actions := by
  obtain ⟨ls, s, hrun, hexit, hcomplete, hlength⟩ := exists_exited_two
  obtain ⟨fp, hfp, hperm, -⟩ := sequential_agreement hrun hexit hcomplete
  exact ⟨s, fp, hlength, hfp, hperm⟩

end Agreement

end DPIEngine

end DpiEngine
