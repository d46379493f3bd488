import DpiEngine.Library.Counters
import DpiEngine.Library.Limits
import DpiEngine.Pipeline.Output
import Mathlib.Algebra.Order.BigOperators.Group.Finset

/-! # The statistics of the threads

Each thread counts its packets by itself. In every state the sums of two stages
differ by what waits between them, so that the numbers agree in the end.
-/

namespace DpiEngine

open Network

variable {cfg : Config} {H : StdHash} {rules : RuleManager} {isOpen : Bool}
  {frames : List RawPacketJob}

namespace ParserManager

structure AggregatedStats where
  totalParsed : ℕ
  totalErrors : ℕ

def getAggregatedStats (s : DPIEngine.State cfg) : AggregatedStats where
  totalParsed := ∑ p, ParserStats.totalParsed (s.loc (.parser p))
  totalErrors := ∑ p, ParserStats.totalErrors (s.loc (.parser p))

end ParserManager

namespace LBManager

structure AggregatedStats where
  totalReceived : ℕ
  totalDispatched : ℕ

def getAggregatedStats (s : DPIEngine.State cfg) : AggregatedStats where
  totalReceived := ∑ i, LBStats.packetsReceived (s.loc (.lb i))
  totalDispatched := ∑ i, LBStats.packetsDispatched (s.loc (.lb i))

end LBManager

namespace FPManager

structure AggregatedStats where
  totalProcessed : ℕ
  totalForwarded : ℕ
  totalDropped : ℕ
  totalConnections : ℕ

def getAggregatedStats (s : DPIEngine.State cfg) : AggregatedStats where
  totalProcessed := ∑ i, ∑ j, FastPathProcessor.totalProcessed (s.loc (.fp i j))
  totalForwarded := ∑ i, ∑ j, FastPathProcessor.totalForwarded (s.loc (.fp i j))
  totalDropped := ∑ i, ∑ j, FastPathProcessor.totalDropped (s.loc (.fp i j))
  totalConnections := ∑ i, ∑ j,
    (FastPathProcessor.tracker (s.loc (.fp i j))).connections.entries.length

end FPManager

namespace DPIEngine

variable {ls : List (Label (Thread cfg) PacketEnv)} {s : State cfg}

section Sums

def threadEquiv (cfg : Config) : Thread cfg ≃ Fin cfg.parserCount ⊕ Fin cfg.numLoadBalancers ⊕
    (Fin cfg.numLoadBalancers × Fin cfg.fpsPerLb) ⊕ Unit where
  toFun
    | .parser p => .inl p
    | .lb i => .inr (.inl i)
    | .fp i j => .inr (.inr (.inl (i, j)))
    | .output => .inr (.inr (.inr ()))
  invFun
    | .inl p => .parser p
    | .inr (.inl i) => .lb i
    | .inr (.inr (.inl (i, j))) => .fp i j
    | .inr (.inr (.inr ())) => .output
  left_inv w := by cases w <;> rfl
  right_inv x := by rcases x with p | i | ⟨i, j⟩ | ⟨⟩ <;> rfl

theorem sum_threads (f : Thread cfg → ℕ) : ∑ w, f w =
    ∑ p, f (.parser p) + (∑ i, f (.lb i) + (∑ i, ∑ j, f (.fp i j) + f .output)) := by
  rw [Fintype.sum_equiv (threadEquiv cfg) f (f ∘ (threadEquiv cfg).symm) fun w => by simp]
  simp [Fintype.sum_prod_type, threadEquiv]

def queueEquiv (cfg : Config) : QueueId cfg ≃ Unit ⊕ Fin cfg.numLoadBalancers ⊕
    (Fin cfg.numLoadBalancers × Fin cfg.fpsPerLb) ⊕ Unit where
  toFun
    | .rawPacket => .inl ()
    | .lb i => .inr (.inl i)
    | .fp i j => .inr (.inr (.inl (i, j)))
    | .output => .inr (.inr (.inr ()))
  invFun
    | .inl () => .rawPacket
    | .inr (.inl i) => .lb i
    | .inr (.inr (.inl (i, j))) => .fp i j
    | .inr (.inr (.inr ())) => .output
  left_inv q := by cases q <;> rfl
  right_inv x := by rcases x with ⟨⟩ | i | ⟨i, j⟩ | ⟨⟩ <;> rfl

theorem sum_queues (f : QueueId cfg → ℕ) : ∑ q, f q =
    f .rawPacket + (∑ i, f (.lb i) + (∑ i, ∑ j, f (.fp i j) + f .output)) := by
  rw [Fintype.sum_equiv (queueEquiv cfg) f (f ∘ (queueEquiv cfg).symm) fun w => by simp]
  simp [Fintype.sum_prod_type, queueEquiv]

theorem sum_map_comm {ι α : Type*} [Fintype ι] (f : ι → α → ℕ) (l : List α) :
    ∑ i, (l.map (f i)).sum = (l.map fun a => ∑ i, f i a).sum := by
  induction l with
  | nil => simp
  | cons a l ih =>
    simp only [List.map_cons, List.sum_cons, Finset.sum_add_distrib, ih]

end Sums

/-- One for a thread that has a packet in its hands. -/
def hands (p : Position (QueueId cfg) (ℕ × Item)) : ℕ := holds p + sendWeight (fun _ => 1) p

section Counters

variable (h : Run (network cfg H rules isOpen).Step
  (start (network cfg H rules isOpen) frames) ls s)
include h

def isRawQueue : QueueId cfg → ℕ
  | .rawPacket => 1
  | _ => 0

def isLbQueue : QueueId cfg → ℕ
  | .lb _ => 1
  | _ => 0

def isFpQueue (i : Fin cfg.numLoadBalancers) (j : Fin cfg.fpsPerLb) : QueueId cfg → ℕ :=
  fun q => if q = .fp i j then 1 else 0

theorem countsSent_zero {g : QueueId cfg → ℕ} {w : Thread cfg}
    (hg : ∀ q, (network cfg H rules isOpen).Feeds w q → g q = 0) :
    sendWeight g (s.position w) = resultWeight g s w := by
  have hcounts := run_countsSent (w := w) (c := fun _ => 0) (g := g) rfl (fun _ => rfl)
    (fun q _ hq => by rw [hg q hq]) (fun _ _ => rfl) h
  rwa [Nat.zero_add] at hcounts

theorem parsed_sent (p : Fin cfg.parserCount) :
    ParserStats.totalParsed (s.loc (.parser p)) + sendWeight isLbQueue (s.position (.parser p)) =
      resultWeight isLbQueue s (.parser p) := by
  refine run_countsSent (w := .parser p) (c := fun stats : ParserStats => stats.totalParsed) rfl
    ?_ ?_ (fun _ _ => rfl) h
  · intro env stats x stats' out hwork
    obtain ⟨r, -, ⟨-, rfl, -⟩ | ⟨job, -, rfl, -⟩⟩ := Thread.parse_some hwork <;> rfl
  · intro q stats hq
    obtain ⟨p', i, -, rfl⟩ | ⟨i, j, hw, -⟩ | ⟨i, j, hw, -⟩ := feeds_cases hq
    · rfl
    · cases hw
    · cases hw

theorem dispatched_sent (i i' : Fin cfg.numLoadBalancers) (j : Fin cfg.fpsPerLb) :
    (if i' = i then LBStats.perFpPackets (s.loc (.lb i')) j else 0) +
        sendWeight (isFpQueue i j) (s.position (.lb i')) =
      resultWeight (isFpQueue i j) s (.lb i') := by
  refine run_countsSent (w := .lb i')
    (c := fun stats : LBStats cfg => if i' = i then stats.perFpPackets j else 0) ?_ ?_ ?_
    (fun _ _ => rfl) h
  · split_ifs <;> rfl
  · intro env stats x stats' out hwork
    cases x with
    | raw r => cases hwork
    | packet job => cases hwork; rfl
  · intro q stats hq
    obtain ⟨p, i'', hw, -⟩ | ⟨i'', j', hw, rfl⟩ | ⟨i'', j', hw, -⟩ := feeds_cases hq
    · cases hw
    · cases hw
      by_cases hi : i' = i
      · subst hi
        simp [network, isFpQueue, eq_comm]
      · simp [isFpQueue, hi]
    · cases hw

theorem parser_finished (p : Fin cfg.parserCount) : finishedBy s (.parser p) =
    ParserStats.totalErrors (s.loc (.parser p)) + resultWeight isLbQueue s (.parser p) := by
  have hentries : ∀ e ∈ s.log.filter (·.worker = .parser p),
      (if e.out.isNone then 1 else 0) + outWeight (fun q _ => isLbQueue q) e.ticket e.out = 1 := by
    intro e he
    obtain ⟨hmem, hw⟩ := List.mem_filter.mp he
    obtain ⟨-, env, σ, σ', hwork⟩ := (run_onItsWay h).log e hmem
    obtain ⟨w, n, x, out⟩ := e
    cases of_decide_eq_true hw
    obtain ⟨r, -, ⟨-, -, rfl⟩ | ⟨job, -, -, rfl⟩⟩ := Thread.parse_some hwork <;> rfl
  rw [totalErrors_eq h p, ← sum_map_indicator, resultWeight, ← List.sum_map_add, finishedBy,
    List.map_congr_left hentries, List.map_const', List.sum_replicate, smul_eq_mul, mul_one]

theorem lb_entry {i : Fin cfg.numLoadBalancers} {e : Entry (QueueId cfg) (Thread cfg) Item}
    (he : e ∈ s.log.filter (·.worker = .lb i)) : ∃ j job, e.out = some (.fp i j, .packet job) := by
  obtain ⟨hmem, hw⟩ := List.mem_filter.mp he
  obtain ⟨-, env, σ, σ', hwork⟩ := (run_onItsWay h).log e hmem
  obtain ⟨w, n, x, out⟩ := e
  cases of_decide_eq_true hw
  obtain ⟨job, -, rfl⟩ := Thread.dispatch_some hwork
  exact ⟨_, job, rfl⟩

theorem lb_finished (i : Fin cfg.numLoadBalancers) :
    resultWeight (fun _ => 1) s (.lb i) = finishedBy s (.lb i) ∧
      ∑ j, resultWeight (isFpQueue i j) s (.lb i) = finishedBy s (.lb i) := by
  have hone : ∀ e ∈ s.log.filter (·.worker = .lb i),
      outWeight (fun _ _ => 1) e.ticket e.out = 1 := by
    intro e he
    obtain ⟨j, job, hout⟩ := lb_entry h he
    rw [hout]
    rfl
  have hsum : ∀ e ∈ s.log.filter (·.worker = .lb i),
      ∑ j, outWeight (fun q _ => isFpQueue i j q) e.ticket e.out = 1 := by
    intro e he
    obtain ⟨j, job, hout⟩ := lb_entry h he
    rw [hout]
    simp [outWeight, isFpQueue]
  unfold resultWeight
  rw [sum_map_comm, List.map_congr_left hone, List.map_congr_left hsum, List.map_const',
    List.sum_replicate, smul_eq_mul, mul_one]
  exact ⟨rfl, rfl⟩

theorem received_eq (i : Fin cfg.numLoadBalancers) :
    LBStats.packetsReceived (s.loc (.lb i)) = finishedBy s (.lb i) := by
  refine run_history (w := .lb i)
    (R := fun (stats : LBStats cfg) es => stats.packetsReceived = es.length)
    rfl ?_ (fun q hR => hR) (fun env hR => hR) h
  intro env stats es n x stats' out hR hwork
  cases x with
  | raw r => cases hwork
  | packet job =>
    cases hwork
    simpa using hR

theorem sum_isFpQueue (i : Fin cfg.numLoadBalancers) :
    ∑ j, sendWeight (isFpQueue i j) (s.position (.lb i)) =
      sendWeight (fun _ => 1) (s.position (.lb i)) := by
  cases hpos : s.position (.lb i) with
  | send q x =>
    rcases feeds_cases ((run_staged h).sends _ _ _ hpos) with
      ⟨p, i', hw, -⟩ | ⟨i', j', hw, rfl⟩ | ⟨i', j', hw, -⟩
    · cases hw
    · cases hw
      simp [sendWeight, isFpQueue]
    · cases hw
  | _ => simp [sendWeight]

theorem dispatched_eq (i : Fin cfg.numLoadBalancers) :
    LBStats.packetsDispatched (s.loc (.lb i)) = ∑ j, LBStats.perFpPackets (s.loc (.lb i)) j ∧
    LBStats.packetsReceived (s.loc (.lb i)) = LBStats.packetsDispatched (s.loc (.lb i)) +
      sendWeight (fun _ => 1) (s.position (.lb i)) := by
  have hsent : LBStats.packetsDispatched (s.loc (.lb i)) +
      sendWeight (fun _ => 1) (s.position (.lb i)) = resultWeight (fun _ => 1) s (.lb i) := by
    refine run_countsSent (w := .lb i) (c := fun stats : LBStats cfg => stats.packetsDispatched)
      rfl ?_ (fun _ _ _ => rfl) (fun _ _ => rfl) h
    intro env stats x stats' out hwork
    cases x with
    | raw r => cases hwork
    | packet job => cases hwork; rfl
  have hper (j : Fin cfg.fpsPerLb) := dispatched_sent h i i j
  simp only [if_true] at hper
  have hsum := Finset.sum_congr rfl fun j (_ : j ∈ Finset.univ) => hper j
  obtain ⟨hone, hall⟩ := lb_finished h i
  rw [Finset.sum_add_distrib, sum_isFpQueue h, hall] at hsum
  rw [hone] at hsent
  rw [received_eq h]
  omega

theorem processed_eq (i : Fin cfg.numLoadBalancers) (j : Fin cfg.fpsPerLb) :
    FastPathProcessor.totalProcessed (s.loc (.fp i j)) =
      FastPathProcessor.totalForwarded (s.loc (.fp i j)) +
        FastPathProcessor.totalDropped (s.loc (.fp i j)) := by
  refine run_history (w := .fp i j)
    (R := fun (fp : FastPathProcessor) _ =>
      fp.totalProcessed = fp.totalForwarded + fp.totalDropped)
    rfl ?_ (fun q hR => hR) (fun env hR => hR) h
  intro env fp es n x fp' out hR hwork
  obtain ⟨job, action, -, hok, -, -⟩ := Thread.process_some hwork
  obtain ⟨t, p, client, t', action, -, -, rfl⟩ := FastPathProcessor.processPacket_ok.mp hok
  simp only [FastPathProcessor.handleAction]
  split_ifs <;> omega

end Counters

/-- What waits between two stages is the difference of their numbers. -/
structure Balance (s : State cfg) : Prop where
  read : s.reads.length = (ParserManager.getAggregatedStats s).totalParsed +
    (ParserManager.getAggregatedStats s).totalErrors + (s.queue .rawPacket).items.length +
    ∑ p, hands (s.position (.parser p))
  parsed : (ParserManager.getAggregatedStats s).totalParsed =
    (LBManager.getAggregatedStats s).totalReceived +
      ∑ i, ((s.queue (.lb i)).items.length + holds (s.position (.lb i)))
  received : ∀ i, LBStats.packetsReceived (s.loc (.lb i)) =
    LBStats.packetsDispatched (s.loc (.lb i)) + sendWeight (fun _ => 1) (s.position (.lb i))
  perFp : ∀ i, LBStats.packetsDispatched (s.loc (.lb i)) =
    ∑ j, LBStats.perFpPackets (s.loc (.lb i)) j
  dispatched : ∀ i j, LBStats.perFpPackets (s.loc (.lb i)) j =
    FastPathProcessor.totalProcessed (s.loc (.fp i j)) + (s.queue (.fp i j)).items.length +
      holds (s.position (.fp i j))
  processed : ∀ i j, FastPathProcessor.totalProcessed (s.loc (.fp i j)) =
    FastPathProcessor.totalForwarded (s.loc (.fp i j)) +
      FastPathProcessor.totalDropped (s.loc (.fp i j))

section Balance

variable (h : Run (network cfg H rules isOpen).Step
  (start (network cfg H rules isOpen) frames) ls s)
include h

theorem read_eq : s.reads.length = (s.queue .rawPacket).items.length +
    ∑ p, (holds (s.position (.parser p)) + finishedBy s (.parser p)) := by
  have hpushed := run_pushed isRawQueue (fun _ _ => 0) (run_dropped settles_close h) (fun w => by
    rw [Nat.zero_add]
    refine countsSent_zero h fun q hq => ?_
    rcases feeds_cases hq with ⟨p, i, -, rfl⟩ | ⟨i, j, -, rfl⟩ | ⟨i, j, -, rfl⟩ <;> rfl) h
  simpa [sum_threads, sum_queues, network, isRawQueue] using hpushed

theorem parser_sendWeight (p : Fin cfg.parserCount) :
    sendWeight isLbQueue (s.position (.parser p)) =
      sendWeight (fun _ => 1) (s.position (.parser p)) := by
  cases hpos : s.position (.parser p) with
  | send q x =>
    rcases feeds_cases ((run_staged h).sends _ _ _ hpos) with
      ⟨p, i, -, rfl⟩ | ⟨i, j, hw, -⟩ | ⟨i, j, hw, -⟩
    · rfl
    · cases hw
    · cases hw
  | _ => rfl

theorem parsed_eq : ∑ p, ParserStats.totalParsed (s.loc (.parser p)) =
    ∑ i, ((s.queue (.lb i)).items.length +
      (holds (s.position (.lb i)) + finishedBy s (.lb i))) := by
  let c : (w : Thread cfg) → ThreadState cfg w → ℕ
    | .parser _ => fun stats : ParserStats => stats.totalParsed
    | .lb _ | .fp _ _ | .output => fun _ => 0
  have hpushed := run_pushed isLbQueue c (run_dropped settles_close h) (fun w => by
    cases w with
    | parser p => exact parsed_sent h p
    | lb i | fp i j | output =>
      refine (Nat.zero_add _).trans (countsSent_zero h fun q hq => ?_)
      rcases feeds_cases hq with ⟨p, i, hw, -⟩ | ⟨i, j, -, rfl⟩ | ⟨i, j, -, rfl⟩
      · cases hw
      · rfl
      · rfl) h
  simpa [sum_threads, sum_queues, network, isLbQueue, c, Finset.sum_add_distrib] using hpushed

theorem perFp_eq (i : Fin cfg.numLoadBalancers) (j : Fin cfg.fpsPerLb) :
    LBStats.perFpPackets (s.loc (.lb i)) j = (s.queue (.fp i j)).items.length +
      (holds (s.position (.fp i j)) + finishedBy s (.fp i j)) := by
  let c : (w : Thread cfg) → ThreadState cfg w → ℕ
    | .lb i' => fun stats : LBStats cfg => if i' = i then stats.perFpPackets j else 0
    | .parser _ | .fp _ _ | .output => fun _ => 0
  have hpushed := run_pushed (isFpQueue i j) c (run_dropped settles_close h) (fun w => by
    cases w with
    | lb i' => exact dispatched_sent h i i' j
    | parser p | fp i' j' | output =>
      refine (Nat.zero_add _).trans (countsSent_zero h fun q hq => ?_)
      rcases feeds_cases hq with ⟨p, i'', -, rfl⟩ | ⟨i'', j'', hw, -⟩ | ⟨i'', j'', -, rfl⟩
      · rfl
      · cases hw
      · rfl) h
  simpa [sum_threads, sum_queues, network, isFpQueue, c, ite_and] using hpushed

/-- In every state the numbers of the threads differ by what is between them. -/
theorem run_balance : Balance s where
  read := by
    have hfinished (p : Fin cfg.parserCount) : finishedBy s (.parser p) =
        ParserStats.totalErrors (s.loc (.parser p)) +
          (ParserStats.totalParsed (s.loc (.parser p)) +
            sendWeight (fun _ => 1) (s.position (.parser p))) := by
      rw [parser_finished h p, ← parsed_sent h p, parser_sendWeight h p]
    rw [read_eq h]
    simp only [hfinished, hands, Finset.sum_add_distrib, ParserManager.getAggregatedStats]
    omega
  parsed := by
    simp only [ParserManager.getAggregatedStats, LBManager.getAggregatedStats, parsed_eq h,
      received_eq h, Finset.sum_add_distrib]
    omega
  received i := (dispatched_eq h i).2
  perFp i := (dispatched_eq h i).1
  dispatched i j := by
    rw [perFp_eq h i j, totalProcessed_eq h i j, finishedBy]
    omega
  processed i j := processed_eq h i j

end Balance

section Agree

variable (h : Run (network cfg H rules isOpen).Step
  (start (network cfg H rules isOpen) frames) ls s)
include h

/-- When the processors have exited, the report accounts for every frame at every stage. -/
theorem stats_agree (hexit : ∀ i j, s.position (.fp i j) = .exited) :
    frames.length = (ParserManager.getAggregatedStats s).totalParsed +
        (ParserManager.getAggregatedStats s).totalErrors ∧
      (ParserManager.getAggregatedStats s).totalParsed =
        (LBManager.getAggregatedStats s).totalReceived ∧
      (LBManager.getAggregatedStats s).totalReceived =
        (LBManager.getAggregatedStats s).totalDispatched ∧
      (LBManager.getAggregatedStats s).totalDispatched =
        (FPManager.getAggregatedStats s).totalProcessed ∧
      (FPManager.getAggregatedStats s).totalProcessed =
        (FPManager.getAggregatedStats s).totalForwarded +
          (FPManager.getAggregatedStats s).totalDropped := by
  obtain ⟨hread, hparsed, hreceived, hperFp, hdispatched, hprocessed⟩ := run_balance h
  have hitems {q : QueueId cfg} (hq : q ≠ .output) : (s.queue q).items = [] :=
    items_nil_of_ne_output h hexit hq
  have hposition {w : Thread cfg} (hw : w ≠ .output) : s.position w = .exited :=
    exited_of_ne_output h hexit hw
  have hlength : frames.length = s.reads.length := by
    have hreads := congrArg List.length (run_reads h).items
    rw [unread_nil h (hposition (w := .parser ⟨0, cfg.parserCount_pos⟩) nofun)] at hreads
    simpa using hreads.symm
  have hsame (i : Fin cfg.numLoadBalancers) :
      LBStats.packetsReceived (s.loc (.lb i)) = LBStats.packetsDispatched (s.loc (.lb i)) := by
    rw [hreceived i, hposition (w := .lb i) nofun]
    rfl
  have hfp (i : Fin cfg.numLoadBalancers) : LBStats.packetsDispatched (s.loc (.lb i)) =
      ∑ j, FastPathProcessor.totalProcessed (s.loc (.fp i j)) := by
    rw [hperFp i]
    refine Finset.sum_congr rfl fun j _ => ?_
    rw [hdispatched i j, hitems (q := .fp i j) nofun, hexit i j]
    rfl
  refine ⟨?_, ?_, ?_, ?_, ?_⟩
  · rw [hlength, hread, hitems (q := .rawPacket) nofun]
    have hhands : ∑ p, hands (s.position (.parser p)) = 0 :=
      Finset.sum_eq_zero fun p _ => by
        rw [hposition (w := .parser p) nofun]
        rfl
    rw [hhands]
    rfl
  · rw [hparsed]
    refine add_eq_left.mpr (Finset.sum_eq_zero fun i _ => ?_)
    rw [hitems (q := .lb i) nofun, hposition (w := .lb i) nofun]
    rfl
  · simp only [LBManager.getAggregatedStats, hsame]
  · simp only [LBManager.getAggregatedStats, FPManager.getAggregatedStats, hfp]
  · simp only [FPManager.getAggregatedStats, hprocessed, Finset.sum_add_distrib]

end Agree

theorem stats_agree_two : ∃ s : State oneEach,
    (FPManager.getAggregatedStats s).totalProcessed = 1 ∧
    (2 : ℕ) = (ParserManager.getAggregatedStats s).totalParsed +
      (ParserManager.getAggregatedStats s).totalErrors := by
  let N := processFile oneEach identityHash {}
  let final := N.runLabels (start N twoFrames) deliveryRun
  have hsome : final.isSome := rfl
  have hrun := run_of_runLabels (Option.some_get hsome).symm
  have hexit : ∀ i j, (final.get hsome).position (.fp i j) = .exited
    | ⟨0, _⟩, ⟨0, _⟩ => rfl
  exact ⟨final.get hsome, rfl, (stats_agree hrun hexit).1⟩

section Backlog

/-- What the queues before the processors and the threads can hold. -/
def backlog (cfg : Config) : ℕ :=
  cfg.queueSize + cfg.parserCount + cfg.numLoadBalancers * (cfg.lbQueueSize + 1) +
    cfg.numLoadBalancers * (cfg.fpsPerLb * (cfg.fpQueueSize + 1))

theorem hands_le_one (p : Position (QueueId cfg) (ℕ × Item)) : hands p ≤ 1 := by
  cases p <;> simp [hands, holds, sendWeight]

theorem holds_le_one (p : Position (QueueId cfg) (ℕ × Item)) : holds p ≤ 1 := by
  cases p <;> simp [holds]

theorem sum_le_mul {n k : ℕ} {f : Fin n → ℕ} (h : ∀ i, f i ≤ k) : ∑ i, f i ≤ n * k := by
  simpa using Finset.sum_le_card_nsmul Finset.univ f k fun i _ => h i

/-- In every state the engine holds a bounded number of the frames that it has read. -/
theorem backlog_le (h : Run (network cfg H rules isOpen).Step
    (start (network cfg H rules isOpen) frames) ls s) :
    s.reads.length ≤ (ParserManager.getAggregatedStats s).totalErrors +
      (FPManager.getAggregatedStats s).totalProcessed + backlog cfg := by
  obtain ⟨hread, hparsed, hreceived, hperFp, hdispatched, -⟩ := run_balance h
  have hraw : (s.queue .rawPacket).items.length ≤ cfg.queueSize := run_length_le h .rawPacket
  have hlb (i : Fin cfg.numLoadBalancers) :
      (s.queue (.lb i)).items.length ≤ cfg.lbQueueSize := run_length_le h (.lb i)
  have hfp (i : Fin cfg.numLoadBalancers) (j : Fin cfg.fpsPerLb) :
      (s.queue (.fp i j)).items.length ≤ cfg.fpQueueSize := run_length_le h (.fp i j)
  have hparsers := sum_le_mul fun p => hands_le_one (s.position (.parser p))
  have hbalancers := sum_le_mul (k := cfg.lbQueueSize + 1) fun i =>
    show (s.queue (.lb i)).items.length + hands (s.position (.lb i)) ≤ _ from
      Nat.add_le_add (hlb i) (hands_le_one _)
  have hprocessors := sum_le_mul (k := cfg.fpsPerLb * (cfg.fpQueueSize + 1)) fun i =>
    sum_le_mul (k := cfg.fpQueueSize + 1) fun j =>
      show (s.queue (.fp i j)).items.length + holds (s.position (.fp i j)) ≤ _ from
        Nat.add_le_add (hfp i j) (holds_le_one _)
  simp only [ParserManager.getAggregatedStats, LBManager.getAggregatedStats,
    FPManager.getAggregatedStats, hands, hreceived, hperFp, hdispatched, Finset.sum_add_distrib,
    backlog] at *
  omega

end Backlog

theorem backlog_le_two : ∃ s : State oneEach, s.reads.length = 2 ∧
    s.reads.length ≤ (ParserManager.getAggregatedStats s).totalErrors +
      (FPManager.getAggregatedStats s).totalProcessed + backlog oneEach := by
  let N := processFile oneEach identityHash {}
  let final := N.runLabels (start N twoFrames) deliveryRun
  have hsome : final.isSome := rfl
  have hrun := run_of_runLabels (Option.some_get hsome).symm
  exact ⟨final.get hsome, rfl, backlog_le hrun⟩

end DPIEngine

end DpiEngine
