import DpiEngine.FastPath.Decided
import DpiEngine.FastPath.Flow

/-! # Isolation of flows

A processor gives a flow the verdicts and the connection that a processor for
some of the flows gives it, as long as no table is full. So flows may be spread
over any number of processors, unless the scan of one leaves its buffer.
-/

namespace DpiEngine.FastPathProcessor

open ConnectionTracker Except

variable {rules : RuleManager} {env : PacketEnv} {job : PacketJob} {fp fp' : FastPathProcessor}
  {s s' t t' : FastPathProcessor} {k p : FlowKey} {x : Input} {l : List Input} {C : FlowKey → Bool}

/-- The input is a packet of one of the flows or a cleanup. -/
def Input.among (C : FlowKey → Bool) : Input → Bool
  | .packet _ job => C job.flow
  | .cleanup _ => true

def Input.IsIPv4 : Input → Prop
  | .packet _ job => job.IsIPv4
  | .cleanup _ => True

def verdicts (fp : FastPathProcessor) (k : FlowKey) : List (PacketJob × PacketAction) :=
  fp.actions.filter fun a => a.1.flow = k

def HasRoom (fp : FastPathProcessor) : Prop :=
  fp.tracker.connections.entries.length < fp.tracker.maxConnections

/-- The second processor has seen the inputs of the flows only, the first one all inputs. -/
structure Restricts (C : FlowKey → Bool) (s t : FastPathProcessor) : Prop where
  keyed : s.tracker.Keyed
  keyed_restricted : t.tracker.Keyed
  lookup : ∀ k, C k = true → t.tracker.connections.lookup k = s.tracker.connections.lookup k
  lookup_other : ∀ k, C k = false → t.tracker.connections.lookup k = none
  maxConnections : t.tracker.maxConnections = s.tracker.maxConnections
  verdicts : ∀ k, C k = true → t.verdicts k = s.verdicts k

theorem Restricts.hasRoom (h : Restricts C s t) (hroom : s.HasRoom) : t.HasRoom := by
  have hle : t.tracker.connections.entries.length ≤ s.tracker.connections.keys.length := by
    apply length_entries_le
    intro q hq
    rw [← AList.lookup_isSome] at hq
    cases hC : C q with
    | true =>
      rw [h.lookup q hC] at hq
      exact AList.lookup_isSome.mp hq
    | false =>
      rw [h.lookup_other q hC] at hq
      cases hq
  have hkeys : s.tracker.connections.keys.length = s.tracker.connections.entries.length :=
    List.length_map _
  unfold HasRoom at hroom ⊢
  rw [h.maxConnections]
  omega

theorem Finds.lookup_other {t t' : ConnectionTracker} {c : Connection} (h : Finds p t t' c)
    (hroom : t.connections.entries.length < t.maxConnections) (hk : k ≠ p) :
    t'.connections.lookup k = t.connections.lookup k :=
  (h.lookup_ne k hk).resolve_right fun hfull => absurd hfull.1 (not_le.mpr hroom)

theorem lookupKey_of_isIPv4 (hv4 : job.IsIPv4) :
    lookupKey job = .ok job.flowKey ∧ job.flowKey.canonical = job.flow :=
  ⟨if_pos hv4.1, (if_pos hv4.1).symm⟩

theorem processPacket_flow (hk : fp.tracker.Keyed) (hv4 : job.IsIPv4) :
    Related (Received fp job job.flow) (processPacket rules env job fp)
      (receive rules env job (fp.tracker.connections.lookup job.flow)) := by
  obtain ⟨hkey, hflow⟩ := lookupKey_of_isIPv4 hv4
  rw [← hflow]
  exact processPacket_receive hk hkey

theorem Received.verdicts_eq {r : Connection × PacketAction} (h : Received s job p s' r)
    (k : FlowKey) : s'.verdicts k = s.verdicts k ++ if job.flow = k then [(job, r.2)] else [] := by
  rw [verdicts, h.actions, List.filter_append, verdicts]
  split_ifs with hk
  · rw [List.filter_cons_of_pos (by simpa using hk)]
    rfl
  · rw [List.filter_cons_of_neg (by simpa using hk)]
    rfl

/-- A step over an input of the flows keeps the relation, with the same step of the other. -/
theorem Restricts.step (h : Restricts C s t) (hroom : s.HasRoom) (hx : x.IsIPv4)
    (hstep : Step rules s x s') (hC : x.among C = true) :
    ∃ t', Step rules t x t' ∧ Restricts C s' t' := by
  cases x with
  | packet env job =>
    obtain ⟨r, hreceive, hs⟩ := (processPacket_flow h.keyed hx).of_ok hstep
    rw [← h.lookup job.flow hC] at hreceive
    obtain ⟨t', hstep', ht⟩ := (processPacket_flow h.keyed_restricted hx).ok_of hreceive
    refine ⟨t', hstep', hs.keyed, ht.keyed, ?_, ?_, ?_, ?_⟩
    · intro k hk
      by_cases hflow : k = job.flow
      · rw [hflow, ht.lookup, hs.lookup]
      · rw [ht.lookup_other (h.hasRoom hroom) hflow, hs.lookup_other hroom hflow, h.lookup k hk]
    · intro k hk
      have hflow : k ≠ job.flow := by
        rintro rfl
        cases hk.symm.trans hC
      rw [ht.lookup_other (h.hasRoom hroom) hflow, h.lookup_other k hk]
    · rw [ht.maxConnections, h.maxConnections, hs.maxConnections]
    · intro k hk
      rw [ht.verdicts_eq, hs.verdicts_eq, h.verdicts k hk]
  | cleanup now =>
    cases hstep
    refine ⟨_, rfl, cleanupStale_keyed h.keyed now _, cleanupStale_keyed h.keyed_restricted now _,
      ?_, ?_, h.maxConnections, h.verdicts⟩
    · intro k hk
      rw [lookup_cleanupStale, lookup_cleanupStale, h.lookup k hk]
    · intro k hk
      rw [lookup_cleanupStale, h.lookup_other k hk]
      rfl

theorem Restricts.skip (h : Restricts C s t) (hroom : s.HasRoom) (hx : x.IsIPv4)
    (hstep : Step rules s x s') (hC : x.among C = false) : Restricts C s' t := by
  cases x with
  | packet env job =>
    obtain ⟨r, -, hs⟩ := (processPacket_flow h.keyed hx).of_ok hstep
    have hflow {k : FlowKey} (hk : C k = true) : k ≠ job.flow := by
      rintro rfl
      cases hk.symm.trans hC
    refine ⟨hs.keyed, h.keyed_restricted, ?_, h.lookup_other, ?_, ?_⟩
    · intro k hk
      rw [hs.lookup_other hroom (hflow hk), h.lookup k hk]
    · rw [h.maxConnections, hs.maxConnections]
    · intro k hk
      rw [hs.verdicts_eq, if_neg (hflow hk).symm, List.append_nil, h.verdicts k hk]
  | cleanup now => cases hC

/-- At no point of the inputs the table is full. -/
def NeverFull (rules : RuleManager) (l : List Input) : Prop :=
  ∀ l' fp, l' <+: l → Run (Step rules) {} l' fp → fp.HasRoom

theorem run_restricts (hl : ∀ x ∈ l, x.IsIPv4) (hroom : NeverFull rules l)
    (h : Run (Step rules) {} l s) (C : FlowKey → Bool) :
    ∃ t, Run (Step rules) {} (l.filter (Input.among C)) t ∧ Restricts C s t := by
  have hrun := (h.with_states hroom).with_labels hl
  have hstart : Restricts C {} {} := ⟨keyed_empty 100000, keyed_empty 100000, fun _ _ => rfl,
    fun _ _ => rfl, rfl, fun _ _ => rfl⟩
  refine Run.project ?_ ?_ hrun hstart
  · intro s s' t x hst hstep hC
    exact hst.step hstep.2.1 hstep.1 hstep.2.2 hC
  · intro s s' t x hst hstep hC
    exact hst.skip hstep.2.1 hstep.1 hstep.2.2 hC

/--
The processing of all inputs returns, and so does that of the inputs of any set of flows, which
gives the flows of the set the same verdicts and connections.
-/
def Isolated (rules : RuleManager) (l : List Input) : Prop :=
  ∃ fp, Run (Step rules) {} l fp ∧ ∀ C : FlowKey → Bool,
    ∃ fp', Run (Step rules) {} (l.filter (Input.among C)) fp' ∧ ∀ k, C k = true →
      fp'.verdicts k = fp.verdicts k ∧
        fp'.tracker.connections.lookup k = fp.tracker.connections.lookup k

/-- What every packet feeds to the reassembler of its connection fits. -/
def PacketsFit (rules : RuleManager) (l : List Input) : Prop :=
  ∀ l' env job fp, l' ++ [.packet env job] <+: l → Run (Step rules) {} l' fp →
    ScanFits rules fp env job

theorem step_deterministic (h : Step rules s x t) (h' : Step rules s x t') : t = t' := by
  cases x with
  | packet env job => exact Except.ok.inj (h.symm.trans h')
  | cleanup now => exact h.trans h'.symm

theorem run_of_packetsFit (hl : ∀ x ∈ l, x.IsIPv4) (h : PacketsFit rules l) :
    ∃ fp, Run (Step rules) {} l fp := by
  induction l using List.reverseRecOn with
  | nil => exact ⟨_, .nil _⟩
  | append_singleton l x ih =>
    obtain ⟨hl, hx⟩ := List.forall_mem_append.mp hl
    obtain ⟨fp, hrun⟩ := ih hl fun l' env job fp hpre =>
      h l' env job fp (hpre.trans (List.prefix_append l [x]))
    have hstep : ∃ fp', Step rules fp x fp' := by
      cases x with
      | packet env job =>
        exact (processPacket_returns_iff_scanFits (run_keyed hrun)
          (hx _ (List.mem_singleton_self _))).mpr (h l env job fp List.prefix_rfl hrun)
      | cleanup now => exact ⟨_, rfl⟩
    obtain ⟨fp', hstep⟩ := hstep
    exact ⟨fp', Run.append_iff.mpr ⟨fp, hrun, .cons hstep (.nil _)⟩⟩

theorem packetsFit_of_run (hl : ∀ x ∈ l, x.IsIPv4) (h : Run (Step rules) {} l s) :
    PacketsFit rules l := by
  rintro l' env job fp ⟨l'', rfl⟩ hrun
  rw [List.append_assoc] at h
  obtain ⟨u, hu, h⟩ := Run.append_iff.mp h
  obtain ⟨v, hstep, -⟩ := Run.cons_iff.mp h
  obtain rfl : fp = u := hrun.deterministic hu step_deterministic
  have hv4 : job.IsIPv4 := hl (.packet env job) (by simp)
  exact (processPacket_returns_iff_scanFits (run_keyed hrun) hv4).mp ⟨v, hstep⟩

/--
Flows are isolated exactly if what the packets feed to the reassemblers fits, as long as the
table is never full.
-/
theorem isolated_iff_packetsFit (rules : RuleManager) (l : List Input) (hl : ∀ x ∈ l, x.IsIPv4)
    (hroom : NeverFull rules l) : Isolated rules l ↔ PacketsFit rules l := by
  constructor
  · rintro ⟨fp, hrun, -⟩
    exact packetsFit_of_run hl hrun
  · intro hfit
    obtain ⟨fp, hrun⟩ := run_of_packetsFit hl hfit
    refine ⟨fp, hrun, fun C => ?_⟩
    obtain ⟨fp', hrun', hrestricts⟩ := run_restricts hl hroom hrun C
    exact ⟨fp', hrun', fun k hk => ⟨hrestricts.verdicts k hk, hrestricts.lookup k hk⟩⟩

theorem step_length_le (hk : s.tracker.Keyed) (h : Step rules s x t) :
    t.tracker.connections.entries.length ≤ s.tracker.connections.entries.length + 1 ∧
      t.tracker.maxConnections = s.tracker.maxConnections := by
  have hkeys : s.tracker.connections.keys.length = s.tracker.connections.entries.length :=
    List.length_map _
  cases x with
  | packet env job =>
    obtain ⟨key, hkey, -⟩ := processPacket_touches hk h
    obtain ⟨r, -, hreceived⟩ := (processPacket_receive hk hkey).of_ok h
    refine ⟨?_, hreceived.maxConnections⟩
    have hle : t.tracker.connections.entries.length ≤
        (key.canonical :: s.tracker.connections.keys).length := by
      apply length_entries_le
      intro q hq
      by_cases hp : q = key.canonical
      · exact hp ▸ List.mem_cons_self
      · rw [← AList.lookup_isSome] at hq
        rcases hreceived.lookup_ne q hp with hsame | ⟨-, hnone⟩
        · rw [hsame] at hq
          exact List.mem_cons_of_mem _ (AList.lookup_isSome.mp hq)
        · rw [hnone] at hq
          cases hq
    rw [List.length_cons] at hle
    omega
  | cleanup now =>
    cases h
    exact ⟨(List.length_filter_le _ _).trans (Nat.le_succ _), rfl⟩

theorem run_length_le (h : Run (Step rules) {} l s) :
    s.tracker.connections.entries.length ≤ l.length ∧ s.tracker.maxConnections = 100000 := by
  induction l using List.reverseRecOn generalizing s with
  | nil =>
    obtain rfl := Run.nil_iff.mp h
    exact ⟨le_rfl, rfl⟩
  | append_singleton l x ih =>
    obtain ⟨u, hu, h⟩ := Run.append_iff.mp h
    obtain ⟨v, hstep, hv⟩ := Run.cons_iff.mp h
    obtain rfl := Run.nil_iff.mp hv
    obtain ⟨hle, hmax⟩ := ih hu
    obtain ⟨hle', hmax'⟩ := step_length_le (run_keyed hu) hstep
    rw [List.length_append, List.length_singleton]
    exact ⟨by omega, hmax'.trans hmax⟩

theorem neverFull_of_length (h : l.length < 100000) : NeverFull rules l := by
  intro l' fp hpre hrun
  obtain ⟨hle, hmax⟩ := run_length_le hrun
  have hlength := hpre.length_le
  unfold HasRoom
  omega

def crossed (payload : List UInt8) : List Input :=
  [.packet {} (segmentJob 443 0 TCPFlags.ACK payload),
    .packet {} (segmentJob 8080 0 TCPFlags.ACK (ascii "GET /")), .cleanup 0]

theorem crossed_isIPv4 (payload : List UInt8) : ∀ x ∈ crossed payload, x.IsIPv4 := by
  simp [crossed, Input.IsIPv4, PacketJob.IsIPv4, segmentJob]

theorem isolated_crossed : Isolated {} (crossed (ascii "x")) :=
  (isolated_iff_packetsFit {} (crossed (ascii "x")) (crossed_isIPv4 _)
    (neverFull_of_length (by decide))).mpr
      (packetsFit_of_run (crossed_isIPv4 _) (.cons rfl (.cons rfl (.cons rfl (.nil _)))))

def requestFlow : FlowKey → Bool := fun k => k = (segmentJob 8080 0 TCPFlags.ACK []).flow

/-- After a cut ClientHello the request gets no verdict; alone it is forwarded. -/
theorem cut_hello_not_isolated :
    (∀ x ∈ crossed ClientHello.truncatedHello, x.IsIPv4) ∧
      NeverFull {} (crossed ClientHello.truncatedHello) ∧
      (∃ fp, Run (Step {}) {} ((crossed ClientHello.truncatedHello).filter
        (Input.among requestFlow)) fp ∧ fp.actions =
          [(segmentJob 8080 0 TCPFlags.ACK (ascii "GET /"), .forward)]) ∧
      ¬ Isolated {} (crossed ClientHello.truncatedHello) := by
  refine ⟨crossed_isIPv4 _, neverFull_of_length (by decide),
    ⟨_, .cons rfl (.cons rfl (.nil _)), rfl⟩, ?_⟩
  rintro ⟨fp, hrun, -⟩
  obtain ⟨u, hstep, -⟩ := Run.cons_iff.mp hrun
  have hfault : processPacket {} {} (segmentJob 443 0 TCPFlags.ACK ClientHello.truncatedHello) {} =
      .error .outOfBounds := rfl
  cases hfault.symm.trans hstep

end DpiEngine.FastPathProcessor
