import DpiEngine.FastPath.Blocking
import DpiEngine.Pipeline.Stages

/-! # Delivery to the fast path

Counted by its number, a frame that has been read is in one place before the
output queue, is one parse error or has been processed once. When all processors
have exited, the queues before them are empty and no frame is left on its way.
-/

namespace DpiEngine

def Thread.isParser {cfg : Config} : Thread cfg → Bool
  | .parser _ => true
  | _ => false

def Thread.isFP {cfg : Config} : Thread cfg → Bool
  | .fp _ _ => true
  | _ => false

theorem Thread.isFP_iff {cfg : Config} {w : Thread cfg} : w.isFP ↔ ∃ i j, w = .fp i j := by
  cases w <;> simp [isFP]

namespace DPIEngine

open Network

variable {cfg : Config} {H : StdHash} {rules : RuleManager} {isOpen : Bool}
  {frames : List RawPacketJob} {ls : List (Label (Thread cfg) PacketEnv)} {s : State cfg}

/-- An entry for a frame that a parser worker counts as an error. -/
def isParseError (n : ℕ) (e : Entry (QueueId cfg) (Thread cfg) Item) : Bool :=
  e.worker.isParser && e.out.isNone && e.ticket == n

/-- An entry for a frame whose job is passed to `processPacket`. -/
def isProcessed (n : ℕ) (e : Entry (QueueId cfg) (Thread cfg) Item) : Bool :=
  e.worker.isFP && e.ticket == n

def parseErrors (s : State cfg) (n : ℕ) : ℕ := s.log.countP (isParseError n)

def processed (s : State cfg) (n : ℕ) : ℕ := s.log.countP (isProcessed n)

/-- The frame with the given number counts in every queue before the output queue. -/
def beforeOutput (n : ℕ) : QueueId cfg → ℕ × Item → ℕ
  | .output, _ => 0
  | _, x => if x.1 = n then 1 else 0

theorem sum_map_indicator {α : Type*} (p : α → Bool) (l : List α) :
    (l.map fun a => if p a then 1 else 0).sum = l.countP p := by
  induction l with
  | nil => rfl
  | cons a l ih => rw [List.map_cons, List.sum_cons, ih, List.countP_cons, add_comm]

theorem beforeOutput_entry {e : Entry (QueueId cfg) (Thread cfg) Item} (n : ℕ)
    (he : ∃ env σ σ', (network cfg H rules isOpen).work e.worker env σ e.item = some (σ', e.out)) :
    beforeOutput n ((network cfg H rules isOpen).input e.worker) (e.ticket, e.item) =
      outWeight (beforeOutput n) e.ticket e.out +
        ((if isParseError n e then 1 else 0) + if isProcessed n e then 1 else 0) := by
  obtain ⟨env, σ, σ', hwork⟩ := he
  obtain ⟨w, m, x, out⟩ := e
  cases w with
  | parser p =>
    obtain ⟨r, -, ⟨-, -, rfl⟩ | ⟨job, -, -, rfl⟩⟩ := Thread.parse_some hwork
    · simp [network, beforeOutput, outWeight, isParseError, isProcessed, Thread.isParser,
        Thread.isFP]
    · simp [network, beforeOutput, outWeight, isParseError, isProcessed, Thread.isFP]
  | lb i =>
    obtain ⟨job, -, rfl⟩ := Thread.dispatch_some hwork
    simp [network, beforeOutput, outWeight, isParseError, isProcessed, Thread.isParser, Thread.isFP]
  | fp i j =>
    obtain ⟨job, action, -, -, -, hout⟩ := Thread.process_some hwork
    have hzero : outWeight (beforeOutput n) m out = 0 := by
      cases out with
      | none => rfl
      | some r =>
        obtain ⟨-, -, hq, -⟩ := handleOutput_some hout.symm
        simp [outWeight, hq, beforeOutput]
    simp [network, beforeOutput, hzero, isParseError, isProcessed, Thread.isParser, Thread.isFP]
  | output =>
    obtain ⟨job, -, -, rfl⟩ := Thread.write_some hwork
    simp [network, beforeOutput, outWeight, isParseError, isProcessed, Thread.isParser, Thread.isFP]

/-- A frame that has been read is on its way, a parse error or processed, once. -/
theorem delivery_balance (h : Run (network cfg H rules isOpen).Step
    (start (network cfg H rules isOpen) frames) ls s) (n : ℕ) :
    (if n < s.reads.length then 1 else 0) =
      (network cfg H rules isOpen).present (beforeOutput n) s +
        (parseErrors s n + processed s n) := by
  have hconserved := run_conserved (m := beforeOutput n) h
  have hdropped := run_dropped settles_close h
  have hlog := (run_onItsWay h).log
  have hreads : (s.reads.map (beforeOutput n (network cfg H rules isOpen).source)).sum =
      if n < s.reads.length then 1 else 0 := by
    rw [← List.count_range, ← (run_reads h).tickets, List.count, List.countP_map,
      ← sum_map_indicator]
    exact congrArg List.sum (List.map_congr_left fun x _ => by simp [network, beforeOutput])
  have hentries : (s.log.map fun e =>
        beforeOutput n ((network cfg H rules isOpen).input e.worker) (e.ticket, e.item)).sum =
      (s.log.map fun e => outWeight (beforeOutput n) e.ticket e.out).sum +
        (parseErrors s n + processed s n) := by
    rw [parseErrors, processed, ← sum_map_indicator, ← sum_map_indicator, ← List.sum_map_add,
      ← List.sum_map_add]
    exact congrArg List.sum (List.map_congr_left fun e he => beforeOutput_entry n (hlog e he).2)
  rw [arrived, finished, hreads, hentries, hdropped] at hconserved
  simp only [List.map_nil, List.sum_nil] at hconserved
  omega

theorem processed_le_one (h : Run (network cfg H rules isOpen).Step
    (start (network cfg H rules isOpen) frames) ls s) (n : ℕ) : processed s n ≤ 1 := by
  have := delivery_balance h n
  split_ifs at this <;> omega

section Exited

variable (h : Run (network cfg H rules isOpen).Step
  (start (network cfg H rules isOpen) frames) ls s)
include h

theorem lb_exited {i : Fin cfg.numLoadBalancers} {j : Fin cfg.fpsPerLb}
    (hfp : s.position (.fp i j) = .exited) : s.position (.lb i) = .exited :=
  (run_staged h).exited_of_precedes hfp
    (joinLB_precedes i (by simp [waitForCompletion, mem_stopParsers, mem_stopLBs]))

theorem parser_exited {i : Fin cfg.numLoadBalancers} (hlb : s.position (.lb i) = .exited)
    (p : Fin cfg.parserCount) : s.position (.parser p) = .exited :=
  (run_staged h).exited_of_precedes hlb
    (joinParser_precedes p (by simp [waitForCompletion, mem_stopParsers]))

theorem unread_nil {p : Fin cfg.parserCount} (hp : s.position (.parser p) = .exited) :
    s.unread = [] :=
  (run_staged h).joinedSource ((run_staged h).mem_done_of_precedes
    ((run_staged h).mem_done_of_exited hp) (joinSource_precedes nofun))

theorem items_nil {w : Thread cfg} (hne : w ≠ .output) (hw : s.position w = .exited) :
    (s.queue ((network cfg H rules isOpen).input w)).items = [] :=
  run_empty_of_exited (settles_clear hne) h hw

variable (hexit : ∀ i j, s.position (.fp i j) = .exited)
include hexit

theorem exited_of_ne_output {w : Thread cfg} (hw : w ≠ .output) : s.position w = .exited := by
  have hlb (i : Fin cfg.numLoadBalancers) : s.position (.lb i) = .exited :=
    lb_exited h (hexit i ⟨0, cfg.fpsPerLb_pos⟩)
  cases w with
  | parser p => exact parser_exited h (hlb ⟨0, cfg.numLoadBalancers_pos⟩) p
  | lb i => exact hlb i
  | fp i j => exact hexit i j
  | output => exact absurd rfl hw

theorem items_nil_of_ne_output {q : QueueId cfg} (hq : q ≠ .output) : (s.queue q).items = [] := by
  have hw (w : Thread cfg) (hne : w ≠ .output) := items_nil h hne (exited_of_ne_output h hexit hne)
  cases q with
  | rawPacket => exact hw (.parser ⟨0, cfg.parserCount_pos⟩) nofun
  | lb i => exact hw (.lb i) nofun
  | fp i j => exact hw (.fp i j) nofun
  | output => exact absurd rfl hq

theorem present_eq_zero (n : ℕ) :
    (network cfg H rules isOpen).present (beforeOutput n) s = 0 := by
  apply present_eq_zero_of
  · intro q x hx
    by_cases hq : q = .output
    · subst hq; rfl
    · rw [items_nil_of_ne_output h hexit hq] at hx
      cases hx
  · intro w
    by_cases hw : w = .output
    · subst hw
      cases hpos : s.position .output with
      | send q x => exact absurd hpos (output_not_send (run_staged h))
      | _ => rfl
    · rw [exited_of_ne_output h hexit hw]; rfl

end Exited

section Counters

theorem totalErrors_eq (h : Run (network cfg H rules isOpen).Step
    (start (network cfg H rules isOpen) frames) ls s) (p : Fin cfg.parserCount) :
    ParserStats.totalErrors (s.loc (.parser p)) =
      (s.log.filter (·.worker = .parser p)).countP (·.out.isNone) := by
  refine run_history (w := .parser p)
    (R := fun (stats : ParserStats) es => stats.totalErrors = es.countP (·.out.isNone))
    rfl ?_ (fun q hR => hR) (fun env hR => hR) h
  intro env σ es n a σ' out hR hwork
  obtain ⟨r, -, ⟨-, rfl, rfl⟩ | ⟨job, -, rfl, rfl⟩⟩ := Thread.parse_some hwork
  · simp [hR]
  · simpa using hR

theorem totalProcessed_eq (h : Run (network cfg H rules isOpen).Step
    (start (network cfg H rules isOpen) frames) ls s) (i : Fin cfg.numLoadBalancers)
    (j : Fin cfg.fpsPerLb) :
    FastPathProcessor.totalProcessed (s.loc (.fp i j)) =
      (s.log.filter (·.worker = .fp i j)).length := by
  refine run_history (w := .fp i j)
    (R := fun (fp : FastPathProcessor) es => fp.totalProcessed = es.length)
    rfl ?_ (fun q hR => hR) (fun env hR => hR) h
  intro env σ es n a σ' out hR hwork
  obtain ⟨job, action, -, hok, -, -⟩ := Thread.process_some hwork
  obtain ⟨t, p, client, t', action, -, -, rfl⟩ := FastPathProcessor.processPacket_ok.mp hok
  simpa [FastPathProcessor.handleAction] using hR

end Counters

theorem exists_parseError (h : Run (network cfg H rules isOpen).Step
    (start (network cfg H rules isOpen) frames) ls s) {n : ℕ} {r : RawPacketJob}
    (hr : frames[n]? = some r) (hn : 0 < parseErrors s n) : r.Rejected := by
  obtain ⟨⟨w, m, x, out⟩, he, hp⟩ := List.countP_pos_iff.mp hn
  simp only [isParseError, Bool.and_eq_true, Option.isNone_iff_eq_none, beq_iff_eq] at hp
  obtain ⟨⟨hw, rfl⟩, rfl⟩ := hp
  obtain ⟨hway, env, σ, σ', hwork⟩ := (run_onItsWay h).log _ he
  cases w with
  | parser p =>
    obtain ⟨r', rfl, ⟨hrej, -⟩ | ⟨job, -, -, hout⟩⟩ := Thread.parse_some hwork
    · obtain ⟨r'', hr'', hframe⟩ := hway
      cases hr''
      cases hr.symm.trans hframe
      exact hrej
    · cases hout
  | _ => cases hw

theorem exists_processed (h : Run (network cfg H rules isOpen).Step
    (start (network cfg H rules isOpen) frames) ls s) {n : ℕ} {r : RawPacketJob}
    (hr : frames[n]? = some r) (hn : 0 < processed s n) :
    ∃ job, r.Accepted job ∧ ∃ i j out, ⟨.fp i j, n, .packet job, out⟩ ∈ s.log := by
  obtain ⟨⟨w, m, x, out⟩, he, hp⟩ := List.countP_pos_iff.mp hn
  simp only [isProcessed, Bool.and_eq_true, beq_iff_eq] at hp
  obtain ⟨hw, rfl⟩ := hp
  obtain ⟨i, j, rfl⟩ := Thread.isFP_iff.mp hw
  obtain ⟨⟨job, rfl, ⟨r', hframe, hjob⟩, -, -⟩, -⟩ := (run_onItsWay h).log _ he
  cases hr.symm.trans hframe
  exact ⟨job, hjob, i, j, out, he⟩

theorem frame_delivered {n : ℕ} {r : RawPacketJob} (h : Run (network cfg H rules isOpen).Step
    (start (network cfg H rules isOpen) frames) ls s)
    (hexit : ∀ i j, s.position (.fp i j) = .exited)
    (hreads : s.reads.map Prod.snd = frames.map .raw) (hr : frames[n]? = some r) :
    (r.Rejected ∧ parseErrors s n = 1 ∧ processed s n = 0) ∨
      ∃ job, r.Accepted job ∧ parseErrors s n = 0 ∧ processed s n = 1 ∧
        ∃ i j out, ⟨.fp i j, n, .packet job, out⟩ ∈ s.log := by
  have hlength : s.reads.length = frames.length := by
    simpa using congrArg List.length hreads
  have hn : n < s.reads.length := hlength ▸ (List.getElem?_eq_some_iff.mp hr).1
  have hbalance := delivery_balance h n
  rw [if_pos hn, present_eq_zero h hexit n] at hbalance
  by_cases herr : parseErrors s n = 0
  · obtain ⟨job, hjob, hmem⟩ := exists_processed h hr (by omega)
    exact .inr ⟨job, hjob, herr, by omega, hmem⟩
  · exact .inl ⟨exists_parseError h hr (Nat.pos_of_ne_zero herr), by omega, by omega⟩

/-- When the processors have exited, the queues before them are empty, and every frame has been
counted as a parse error once or its job has been processed once. -/
theorem delivered_exactly_once (h : Run (network cfg H rules isOpen).Step
    (start (network cfg H rules isOpen) frames) ls s)
    (hexit : ∀ i j, s.position (.fp i j) = .exited) :
    (∀ q, q ≠ .output → (s.queue q).items = []) ∧
    s.reads.map Prod.snd = frames.map .raw ∧
    (∀ n r, frames[n]? = some r →
      (r.Rejected ∧ parseErrors s n = 1 ∧ processed s n = 0) ∨
      ∃ job, r.Accepted job ∧ parseErrors s n = 0 ∧ processed s n = 1 ∧
        ∃ i j out, ⟨.fp i j, n, .packet job, out⟩ ∈ s.log) ∧
    (∀ p, ParserStats.totalErrors (s.loc (.parser p)) =
      (s.log.filter (·.worker = .parser p)).countP (·.out.isNone)) ∧
    ∀ i j, FastPathProcessor.totalProcessed (s.loc (.fp i j)) =
      (s.log.filter (·.worker = .fp i j)).length := by
  have hparser : s.position (.parser ⟨0, cfg.parserCount_pos⟩) = .exited :=
    exited_of_ne_output h hexit nofun
  have hreads : s.reads.map Prod.snd = frames.map .raw := by
    have := (run_reads h).items
    rwa [unread_nil h hparser, List.append_nil] at this
  exact ⟨fun q hq => items_nil_of_ne_output h hexit hq, hreads,
    fun n r hr => frame_delivered h hexit hreads hr, totalErrors_eq h, totalProcessed_eq h⟩

def oneEach : Config where
  numParserWorkers := 1
  numLoadBalancers := 1
  fpsPerLb := 1

def parser0 : Thread oneEach := .parser ⟨0, by decide⟩

def lb0 : Thread oneEach := .lb ⟨0, by decide⟩

def fp0 : Thread oneEach := .fp ⟨0, by decide⟩ ⟨0, by decide⟩

def twoFrames : List RawPacketJob :=
  [{ data := [] }, { data := FastPathProcessor.webFrame TCPFlags.ACK }]

def deliveryRun : List (Label (Thread oneEach) PacketEnv) :=
  [.read, .read, .control, .control, .pop parser0, .work parser0 {}, .pop parser0, .work parser0 {},
    .push parser0, .timeout parser0, .control, .test parser0, .test parser0, .control, .pop lb0,
    .work lb0 {}, .push lb0, .control, .control, .timeout lb0, .control, .control, .test lb0,
    .test lb0, .control, .pop fp0, .work fp0 {}, .push fp0, .timeout fp0, .control, .control,
    .test fp0, .test fp0, .control]

theorem delivered_exactly_once_two : ∃ s : State oneEach,
    parseErrors s 0 = 1 ∧ processed s 0 = 0 ∧ parseErrors s 1 = 0 ∧ processed s 1 = 1 := by
  let N := processFile oneEach identityHash {}
  let final := N.runLabels (start N twoFrames) deliveryRun
  have hsome : final.isSome := rfl
  have hrun := run_of_runLabels (Option.some_get hsome).symm
  have hexit : ∀ i j, (final.get hsome).position (.fp i j) = .exited
    | ⟨0, _⟩, ⟨0, _⟩ => rfl
  have hframes := (delivered_exactly_once hrun hexit).2.2.1
  refine ⟨final.get hsome, ?_⟩
  obtain ⟨-, h0⟩ | ⟨job, hjob, -⟩ := hframes 0 _ rfl
  · obtain ⟨hrej, -⟩ | ⟨job, -, h1⟩ := hframes 1 _ rfl
    · cases hrej
    · exact ⟨h0.1, h0.2, h1.1, h1.2.1⟩
  · cases hjob

end DPIEngine

end DpiEngine
