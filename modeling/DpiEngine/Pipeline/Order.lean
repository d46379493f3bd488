import DpiEngine.Library.Sequencer
import DpiEngine.Pipeline.Delivery
import DpiEngine.Pipeline.Dispatch

/-! # The order of a flow

Seen from one flow, the parser workers are hands between the raw packet queue
and the queues of one load balancer and one processor. The processor gets the
packets of the flow in order if the workers push them in turn.
-/

namespace DpiEngine

/-- The canonical flow of a packet, or of the job that a frame is accepted as. -/
def Item.flow : Item → Option FlowKey
  | .raw r =>
    match (ParserWorker.parseJob r.toRawPacket r.packetId).value with
    | some (some job) => some job.flow
    | _ => none
  | .packet job => some job.flow

theorem Item.flow_raw {r : RawPacketJob} {job : PacketJob} (h : r.Accepted job) :
    (Item.raw r).flow = some job.flow := by
  rw [flow, h]

namespace DPIEngine

open Network

variable {cfg : Config} {H : StdHash} {rules : RuleManager} {isOpen : Bool}
  {frames : List RawPacketJob} {ls : List (Label (Thread cfg) PacketEnv)} {s t : State cfg}
  {a : Label (Thread cfg) PacketEnv} {k : FlowKey} {i : Fin cfg.numLoadBalancers}
  {j : Fin cfg.fpsPerLb}

def inHand {cfg : Config} : Position (QueueId cfg) (ℕ × Item) → List (ℕ × Item)
  | .hold x | .send _ x => [x]
  | _ => []

@[simp] theorem inHand_pop : inHand (.pop : Position (QueueId cfg) (ℕ × Item)) = [] := rfl

@[simp] theorem inHand_hold (x : ℕ × Item) :
    inHand (.hold x : Position (QueueId cfg) (ℕ × Item)) = [x] := rfl

@[simp] theorem inHand_send (q : QueueId cfg) (x : ℕ × Item) : inHand (.send q x) = [x] := rfl

def fpPops (s : State cfg) : List (Thread cfg × ℕ × Item) := s.popped.filter (·.1.isFP)

/-- Packets of one flow are popped by one processor, in the order in which they were read. -/
def InFlowOrder (s : State cfg) : Prop :=
  (fpPops s).Pairwise fun a b => a.2.2.flow = b.2.2.flow → a.1 = b.1 ∧ a.2.1 < b.2.1

instance (s : State cfg) : Decidable (InFlowOrder s) :=
  inferInstanceAs (Decidable (List.Pairwise _ _))

/-- A parser worker pushes only when no other worker has an earlier frame of the same flow. -/
def InTurn (s : State cfg) : Label (Thread cfg) PacketEnv → Prop
  | .push (.parser p) => ∀ x ∈ inHand (s.position (.parser p)), ∀ p', p' ≠ p →
      ∀ y ∈ inHand (s.position (.parser p')), y.2.flow = x.2.flow → x.1 < y.1
  | _ => True

def OrderlyStep (N : Network (QueueId cfg) (Thread cfg) PacketEnv Item (ThreadState cfg))
    (s : State cfg) (a : Label (Thread cfg) PacketEnv) (t : State cfg) : Prop :=
  N.Step s a t ∧ InTurn s a

section View

variable (k i j)

def ticket (x : ℕ × Item) : List ℕ := if x.2.flow = some k then [x.1] else []

def way (s : State cfg) : List (ℕ × Item) :=
  (fpPops s).map Prod.snd ++ (s.queue (.fp i j)).items ++ inHand (s.position (.lb i)) ++
    (s.queue (.lb i)).items

/-- The engine as the flow sees it. -/
def view (s : State cfg) : Sequencer (Fin cfg.parserCount) where
  out := (way i j s).flatMap (ticket k)
  hand p := (inHand (s.position (.parser p))).flatMap (ticket k)
  waiting := (s.queue .rawPacket).items.flatMap (ticket k)
  next := s.reads.length

variable (cfg H) in
/-- The frames of the flow go to the load balancer and the processor. -/
def RoutedTo : Prop := ∀ (r : RawPacketJob) (job : PacketJob), r.Accepted job → job.flow = k →
  getLBForPacket cfg H job.tuple = i ∧ selectFP cfg H job.tuple = j

end View

theorem ticket_eq_nil {x : ℕ × Item} (h : x.2.flow ≠ some k) : ticket k x = [] := if_neg h

theorem mem_ticket {x : ℕ × Item} {n : ℕ} :
    n ∈ ticket k x ↔ x.2.flow = some k ∧ n = x.1 := by
  unfold ticket
  split_ifs with h <;> simp [h]

theorem ticket_sublist (x : ℕ × Item) : (ticket k x).Sublist [x.1] := by
  unfold ticket
  split_ifs
  · exact List.Sublist.refl _
  · exact List.nil_sublist _

theorem flow_lb {i' : Fin cfg.numLoadBalancers} {x : ℕ × Item} (hroute : RoutedTo cfg H k i j)
    (hx : OnItsWay cfg H frames (.lb i') x) (hflow : x.2.flow = some k) : i' = i := by
  obtain ⟨n, x⟩ := x
  obtain ⟨job, rfl, ⟨r, -, hr⟩, rfl⟩ := hx
  exact (hroute r job hr (Option.some.inj hflow)).1

theorem flow_fp {i' : Fin cfg.numLoadBalancers} {j' : Fin cfg.fpsPerLb} {x : ℕ × Item}
    (hroute : RoutedTo cfg H k i j) (hx : OnItsWay cfg H frames (.fp i' j') x)
    (hflow : x.2.flow = some k) : i' = i ∧ j' = j := by
  obtain ⟨n, x⟩ := x
  obtain ⟨job, rfl, ⟨r, -, hr⟩, rfl, rfl⟩ := hx
  exact hroute r job hr (Option.some.inj hflow)

theorem view_same (hway : (way i j t).flatMap (ticket k) = (way i j s).flatMap (ticket k))
    (hhand : ∀ p, inHand (t.position (.parser p)) = inHand (s.position (.parser p)))
    (hraw : (t.queue .rawPacket).items = (s.queue .rawPacket).items)
    (hreads : t.reads = s.reads) : Sequencer.Step (view k i j s) (view k i j t) := by
  have hsub {l l' : List ℕ} (h : l = l') : l.Sublist l' := h ▸ List.Sublist.refl l
  exact .lose (hsub hway) (fun p => hsub (congrArg (List.flatMap (ticket k)) (hhand p)))
    (congrArg (List.flatMap (ticket k)) hraw) (congrArg List.length hreads)

theorem view_pop {w : Thread cfg} {x : ℕ × Item} {q : ThreadSafeQueue (ℕ × Item)}
    (hroute : RoutedTo cfg H k i j)
    (hc : (network cfg H rules isOpen).Content (OnItsWay cfg H frames) s)
    (hw : s.position w = .pop)
    (hq : (s.queue ((network cfg H rules isOpen).input w)).pop = some (x, q)) :
    Sequencer.Step (view k i j s) (view k i j { s.goto w (.hold x) with
      queue := Function.update s.queue ((network cfg H rules isOpen).input w) q
      popped := s.popped ++ [(w, x)] }) := by
  obtain ⟨hitems, -⟩ := BoundedQueue.pop_some hq
  have hx := hc.queue _ x (hitems ▸ List.mem_cons_self)
  cases w with
  | parser p =>
    change (s.queue .rawPacket).items = _ at hitems
    refine .take p ?_ ?_ (fun p' hp' => ?_) ?_ rfl
    · simp [view, hw]
    · simp [view, hitems, network, State.goto]
    · simp [view, State.goto, hp']
    · simp [view, way, fpPops, network, State.goto, Thread.isFP]
  | lb i' =>
    change (s.queue (.lb i')).items = _ at hitems
    refine view_same ?_ (fun p => by simp [State.goto]) (by simp [network]) rfl
    by_cases hi : i = i'
    · subst hi
      simp [way, fpPops, network, State.goto, Thread.isFP, hitems, hw]
    · simp [way, fpPops, network, State.goto, Thread.isFP, hi]
  | fp i' j' =>
    change (s.queue (.fp i' j')).items = _ at hitems
    refine view_same ?_ (fun p => by simp [State.goto]) (by simp [network]) rfl
    by_cases hij : i = i' ∧ j = j'
    · obtain ⟨rfl, rfl⟩ := hij
      simp [way, fpPops, network, State.goto, Thread.isFP, hitems]
    · have hnil : ticket k x = [] := by
        refine ticket_eq_nil fun hflow => hij ?_
        obtain ⟨rfl, rfl⟩ := flow_fp hroute hx hflow
        exact ⟨rfl, rfl⟩
      simp [way, fpPops, network, State.goto, Thread.isFP, hij, hnil]
  | output =>
    refine view_same ?_ (fun p => by simp [State.goto]) (by simp [network]) rfl
    simp [way, fpPops, network, State.goto, Thread.isFP]

theorem inHand_head (w : Thread cfg) : inHand ((network cfg H rules isOpen).head w) = [] := by
  unfold head; split_ifs <;> rfl

theorem view_work {w : Thread cfg} {env : PacketEnv} {x : ℕ × Item} {σ : ThreadState cfg w}
    {out : Result cfg} (hw : s.position w = .hold x)
    (hwork : (network cfg H rules isOpen).work w env (s.loc w) x.2 = some (σ, out)) :
    Sequencer.Step (view k i j s) (view k i j { s.goto w
        ((network cfg H rules isOpen).follow w x.1 out) with
      loc := Function.update s.loc w σ
      log := s.log ++ [⟨w, x.1, x.2, out⟩] }) := by
  cases w with
  | parser p =>
    refine .lose (by simp [view, way, fpPops, State.goto]) (fun p' => ?_) rfl rfl
    by_cases hp : p' = p
    · subst hp
      obtain ⟨n, x⟩ := x
      obtain ⟨r, rfl, ⟨-, -, rfl⟩ | ⟨job, hjob, -, rfl⟩⟩ := Thread.parse_some hwork
      · simp [view, State.goto, follow, inHand_head]
      · have hflow : (Item.packet job).flow = (Item.raw r).flow := (Item.flow_raw hjob).symm
        simp [view, State.goto, follow, hw, ticket, hflow]
    · simp [view, State.goto, hp]
  | lb i' =>
    refine view_same ?_ (fun p => by simp [State.goto]) rfl rfl
    obtain ⟨n, x⟩ := x
    obtain ⟨job, rfl, rfl⟩ := Thread.dispatch_some hwork
    by_cases hi : i = i'
    · subst hi
      simp [way, fpPops, State.goto, follow, hw]
    · simp [way, fpPops, State.goto, hi]
  | fp i' j' =>
    exact view_same (by simp [way, fpPops, State.goto]) (fun p => by simp [State.goto]) rfl rfl
  | output =>
    exact view_same (by simp [way, fpPops, State.goto]) (fun p => by simp [State.goto]) rfl rfl

theorem view_push {w : Thread cfg} {q : QueueId cfg} {x : ℕ × Item} {u : State cfg}
    (hroute : RoutedTo cfg H k i j) (hs : (network cfg H rules isOpen).Staged s)
    (hc : (network cfg H rules isOpen).Content (OnItsWay cfg H frames) s)
    (hturn : InTurn s (.push w)) (hw : s.position w = .send q x) (hu : s.offer q x = some u) :
    Sequencer.Step (view k i j s) (view k i j { u.goto w ((network cfg H rules isOpen).head w) with
      loc := Function.update u.loc w ((network cfg H rules isOpen).sent w q (u.loc w)) }) := by
  have hx := hc.send w q x hw
  rcases offer_some hu with ⟨hshut, -⟩ | ⟨-, rfl⟩
  · exact absurd hw ((hs.quiet_of_closed hshut (settles_close q)).not_push hs)
  rcases feeds_cases (hs.sends w q x hw) with
    ⟨p, i', rfl, rfl⟩ | ⟨i', j', rfl, rfl⟩ | ⟨i', j', rfl, rfl⟩
  · refine .deliver p (fun p' hp' m hm n hn => ?_) ?_ ?_ (fun p' hp' => ?_) ?_ rfl
    · simp only [view, hw, inHand_send, List.flatMap_singleton, mem_ticket] at hm
      obtain ⟨y, hy, hn⟩ := List.mem_flatMap.mp hn
      obtain ⟨hyflow, rfl⟩ := mem_ticket.mp hn
      obtain ⟨hxflow, rfl⟩ := hm
      exact hturn x (by simp [hw]) p' hp' y hy (hyflow.trans hxflow.symm)
    · by_cases hi : i = i'
      · subst hi
        simp [view, way, fpPops, State.goto, hw]
      · have hnil : ticket k x = [] :=
          ticket_eq_nil fun hflow => hi (flow_lb hroute hx hflow).symm
        simp [view, way, fpPops, State.goto, hw, hi, hnil]
    · simp [view, State.goto, inHand_head]
    · simp [view, State.goto, hp']
    · simp [view, State.goto]
  · refine view_same ?_ (fun p => by simp [State.goto]) (by simp [State.goto]) rfl
    by_cases hi : i = i'
    · subst hi
      by_cases hj : j = j'
      · subst hj
        simp [way, fpPops, State.goto, hw, inHand_head]
      · have hnil : ticket k x = [] :=
          ticket_eq_nil fun hflow => hj (flow_fp hroute hx hflow).2.symm
        simp [way, fpPops, State.goto, hw, inHand_head, hj, hnil]
    · simp [way, fpPops, State.goto, hi]
  · exact view_same (by simp [way, fpPops, State.goto]) (fun p => by simp [State.goto])
      (by simp [State.goto]) rfl

theorem view_step (hroute : RoutedTo cfg H k i j) (hs : (network cfg H rules isOpen).Staged s)
    (hc : (network cfg H rules isOpen).Content (OnItsWay cfg H frames) s)
    (h : OrderlyStep (network cfg H rules isOpen) s a t) :
    Sequencer.Step (view k i j s) (view k i j t) := by
  obtain ⟨hst, hturn⟩ := h
  have hgoto {w : Thread cfg} {p : Position (QueueId cfg) (ℕ × Item)}
      (hw : inHand (s.position w) = []) (hp : inHand p = []) :
      Sequencer.Step (view k i j s) (view k i j (s.goto w p)) := by
    have hsame (v : Thread cfg) : inHand ((s.goto w p).position v) = inHand (s.position v) := by
      by_cases hv : v = w
      · subst hv; rw [position_goto_self, hp, hw]
      · rw [position_goto_of_ne s p hv]
    refine view_same ?_ (fun p => hsame (.parser p)) rfl rfl
    unfold way
    rw [hsame (.lb i)]
    rfl
  cases hst with
  | @read a rest u hunread hu =>
    rcases offer_some hu with ⟨hshut, -⟩ | ⟨-, rfl⟩
    · exact absurd hunread (hs.quiet_of_closed hshut (settles_close _)).not_read
    · refine .arrive (l := ticket k (s.reads.length, a)) (ticket_sublist _) ?_ ?_ ?_ rfl
      · simp [view, network]
      · simp [view]
      · simp [view, way, fpPops, network]
  | pop hw hq => exact view_pop hroute hc hw hq
  | work hw hwork => exact view_work hw hwork
  | push hw hu => exact view_push hroute hs hc hturn hw hu
  | maintain hw => exact view_same rfl (fun p => rfl) rfl rfl
  | control _ hexec =>
    have hdata := sameData_exec hexec
    refine view_same ?_ (fun p => ?_) (hdata.items _) hdata.reads
    · simp only [way, fpPops, hdata.items, hdata.position, hdata.popped]
    · rw [hdata.position]
  | timeout hw _ | sawRunning hw _ | sawStopped hw _ | sawItems hw _ | sawEmpty hw _ =>
    exact hgoto (by rw [hw]; rfl) rfl

/-- The flow sees its frames in order. -/
theorem view_ordered (hroute : RoutedTo cfg H k i j)
    (h : Run (OrderlyStep (network cfg H rules isOpen))
      (start (network cfg H rules isOpen) frames) ls s) : (view k i j s).Ordered := by
  let I (s : State cfg) : Prop := (network cfg H rules isOpen).Staged s ∧
    Reads (frames.map Item.raw) s ∧ (network cfg H rules isOpen).Content (OnItsWay cfg H frames) s
  apply h.invariant_under (I := I) (J := fun s => (view k i j s).Ordered)
  · rintro s a t ⟨hs, hr, hc⟩ hst
    exact ⟨step_staged hs hst.1, reads_step hr hst.1,
      content_step carries_onItsWay (fun _ _ => source_onItsWay) hr hc hst.1⟩
  · rintro s a t ⟨hs, -, hc⟩ hordered hst
    exact Sequencer.ordered_step hordered (view_step hroute hs hc hst)
  · exact ⟨staged_init _, ⟨rfl, rfl⟩, content_init _⟩
  · intro p
    simp [Sequencer.line, view, way, fpPops, start, init, inHand_head]

theorem run_of_orderly {N : Network (QueueId cfg) (Thread cfg) PacketEnv Item (ThreadState cfg)}
    {s₀ : State cfg} (h : Run (OrderlyStep N) s₀ ls s) : Run N.Step s₀ ls s :=
  h.mono And.left

/-- A single parser worker always pushes in turn. -/
theorem orderly_of_one (hone : cfg.numParserWorkers ≤ 1)
    {N : Network (QueueId cfg) (Thread cfg) PacketEnv Item (ThreadState cfg)} {s₀ : State cfg}
    (h : Run N.Step s₀ ls s) : Run (OrderlyStep N) s₀ ls s := by
  refine h.mono fun {s a t} hst => ⟨hst, ?_⟩
  have hcount : cfg.parserCount = 1 := max_eq_right hone
  cases a with
  | push w =>
    cases w with
    | parser p =>
      intro x _ p' hp'
      exact absurd (Fin.ext (by omega)) hp'
    | _ => trivial
  | _ => trivial

/-- Accepted frames of one flow have one route. -/
theorem routedTo {r : RawPacketJob} {job : PacketJob} (h : r.Accepted job) :
    RoutedTo cfg H job.flow (getLBForPacket cfg H job.tuple) (selectFP cfg H job.tuple) := by
  intro r' job' h' hflow
  let f : Frame := ⟨r.toRawPacket, r.packetId, job, h⟩
  let f' : Frame := ⟨r'.toRawPacket, r'.packetId, job', h'⟩
  have hcanonical : job'.tuple.canonical = job.tuple.canonical :=
    Frame.canonical_tuple_eq (show f'.job.flow = f.job.flow from hflow)
  exact sameWorker_of_canonical_eq hcanonical

/-- The processors pop the packets of every flow in order if the parser workers push in turn. -/
theorem popped_in_order (h : Run (OrderlyStep (network cfg H rules isOpen))
    (start (network cfg H rules isOpen) frames) ls s) : InFlowOrder s := by
  have hcontent := run_onItsWay (run_of_orderly h)
  rw [InFlowOrder, List.pairwise_iff_forall_sublist]
  intro a b hab hflow
  have hway {y : Thread cfg × ℕ × Item} (hy : y ∈ fpPops s) :
      ∃ i j, ∃ r : RawPacketJob, ∃ job, y.1 = .fp i j ∧ y.2.2 = .packet job ∧ r.Accepted job ∧
        getLBForPacket cfg H job.tuple = i ∧ selectFP cfg H job.tuple = j := by
    obtain ⟨hmem, hfp⟩ := List.mem_filter.mp hy
    obtain ⟨w, n, x⟩ := y
    obtain ⟨i, j, rfl⟩ := Thread.isFP_iff.mp hfp
    obtain ⟨job, rfl, ⟨r, -, hr⟩, hi, hj⟩ := hcontent.popped _ hmem
    exact ⟨i, j, r, job, rfl, rfl, hr, hi, hj⟩
  obtain ⟨i, j, r, job, ha, hajob, hr, rfl, rfl⟩ := hway (y := a) (hab.subset (by simp))
  obtain ⟨i', j', r', job', hb, hbjob, hr', rfl, rfl⟩ := hway (y := b) (hab.subset (by simp))
  rw [hajob, hbjob] at hflow
  have hsame : job'.flow = job.flow := (Option.some.inj hflow).symm
  have hroute : RoutedTo cfg H job.flow _ _ := routedTo hr
  obtain ⟨hi, hj⟩ := hroute r' job' hr' hsame
  refine ⟨by rw [ha, hb, hi, hj], ?_⟩
  -- the two packets are delivered in this order in the view of their flow
  have : Nonempty (Fin cfg.parserCount) := ⟨⟨0, cfg.parserCount_pos⟩⟩
  have hordered := (view_ordered hroute h).out
  have hsub : ([a, b].map Prod.snd).Sublist (way (getLBForPacket cfg H job.tuple)
      (selectFP cfg H job.tuple) s) := by
    unfold way
    rw [List.append_assoc, List.append_assoc]
    exact (hab.map Prod.snd).trans (List.sublist_append_left _ _)
  have hpair := hordered.sublist (hsub.flatMap (ticket job.flow))
  have htickets : ([a, b].map Prod.snd).flatMap (ticket job.flow) = [a.2.1, b.2.1] := by
    simp [ticket, hajob, hbjob, Item.flow, hsame]
  rw [htickets] at hpair
  simpa using hpair

instance (s : State cfg) : (a : Label (Thread cfg) PacketEnv) → Decidable (InTurn s a)
  | .push (.parser _) => inferInstanceAs (Decidable (∀ _ ∈ _, ∀ _, _ → ∀ _ ∈ _, _ → _))
  | .push (.lb _) | .push (.fp _ _) | .push .output => isTrue trivial
  | .read | .pop _ | .timeout _ | .work _ _ | .test _ | .maintain _ _ | .control => isTrue trivial

def twoParsers : Config := { oneEach with numParserWorkers := 2 }

def oneFlow : List RawPacketJob :=
  [{ data := FastPathProcessor.webFrame TCPFlags.SYN },
    { data := FastPathProcessor.webFrame TCPFlags.ACK }]

def racingRun (p p' : Fin 2) : List (Label (Thread twoParsers) PacketEnv) :=
  let lb : Thread twoParsers := .lb ⟨0, by decide⟩
  let fp : Thread twoParsers := .fp ⟨0, by decide⟩ ⟨0, by decide⟩
  [.read, .read, .pop (.parser (0 : Fin 2)), .pop (.parser (1 : Fin 2)),
    .work (.parser (0 : Fin 2)) {}, .work (.parser (1 : Fin 2)) {}, .push (.parser p),
    .push (.parser p'), .pop lb, .work lb {}, .push lb, .pop lb, .work lb {}, .push lb, .pop fp,
    .work fp {}, .pop fp]

theorem popped_in_order_two : ∃ s : State twoParsers,
    Run (OrderlyStep (processSynthetic twoParsers identityHash {}))
      (start (processSynthetic twoParsers identityHash {}) oneFlow) (racingRun 0 1) s ∧
    (fpPops s).length = 2 ∧ InFlowOrder s := by
  let N := processSynthetic twoParsers identityHash {}
  have hfinal : ((N.runIf InTurn (start N oneFlow) (racingRun 0 1)).map fun s =>
      (fpPops s).length) = some 2 := by decide +kernel
  obtain ⟨s, hs, hlength⟩ := Option.map_eq_some_iff.mp hfinal
  exact ⟨s, run_of_runIf hs, hlength, popped_in_order (run_of_runIf hs)⟩

/-- If the second worker pushes first, the processor pops the later segment first. -/
theorem popped_out_of_order : ¬ ∀ ls (s : State twoParsers),
    Run (processSynthetic twoParsers identityHash {}).Step
      (start (processSynthetic twoParsers identityHash {}) oneFlow) ls s → InFlowOrder s := by
  intro hall
  let N := processSynthetic twoParsers identityHash {}
  have hfinal : ((N.runLabels (start N oneFlow) (racingRun 1 0)).map fun s =>
      decide (InFlowOrder s)) = some false := by decide +kernel
  obtain ⟨s, hs, hfalse⟩ := Option.map_eq_some_iff.mp hfinal
  exact of_decide_eq_false hfalse (hall _ s (run_of_runLabels hs))

end DPIEngine

end DpiEngine
