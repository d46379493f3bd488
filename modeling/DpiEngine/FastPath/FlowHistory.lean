import DpiEngine.FastPath.Classified
import DpiEngine.FastPath.Clock
import DpiEngine.Tracker.Stats

/-! # The history of every flow

The packets of a flow alone, in their order, give its entry and their actions.
A processor that has removed no entry gives every flow its own history, so its
results do not depend on how the flows are mixed or on when the packets come.
-/

namespace DpiEngine

open Connection ConnectionTracker FastPathProcessor

/-- The entry of a flow, and its packets with their actions. -/
abbrev FlowState := Option Connection × List (PacketJob × PacketAction)

/-- The next packet of a flow, under a clock that stands still. -/
def flowStep (rules : RuleManager) (s : FlowState) (job : PacketJob) : Except Fault FlowState := do
  let (conn, action) ← receive rules {} job s.1
  return (some conn, s.2 ++ [(job, action)])

/-- The packets of a flow alone. -/
def flowHistory (rules : RuleManager) (jobs : List PacketJob) : Except Fault FlowState :=
  jobs.foldlM (flowStep rules) (none, [])

def passed (actions : List (PacketJob × PacketAction)) : List PacketJob :=
  (actions.filter (·.2 ≠ .drop)).map Prod.fst

variable {rules : RuleManager} {jobs jobs' : List PacketJob} {job : PacketJob} {env : PacketEnv}
  {r : FlowState} {fp fp' : FastPathProcessor} {k : FlowKey}

theorem flowHistory_concat (rules : RuleManager) (jobs : List PacketJob) (job : PacketJob) :
    flowHistory rules (jobs ++ [job]) =
      flowHistory rules jobs >>= fun r => flowStep rules r job := by
  rw [flowHistory, List.foldlM_append, ← flowHistory]
  congr 1
  funext r
  rw [List.foldlM_cons]
  exact bind_pure _

theorem flowStep_ok : flowStep rules r job = .ok (r' : FlowState) ↔
    ∃ conn action, receive rules {} job r.1 = .ok (conn, action) ∧
      r' = (some conn, r.2 ++ [(job, action)]) := by
  rw [flowStep, Except.do_eq_ok_iff]
  constructor
  · rintro ⟨⟨conn, action⟩, hreceive, h⟩
    cases h
    exact ⟨conn, action, hreceive, rfl⟩
  · rintro ⟨conn, action, hreceive, rfl⟩
    exact ⟨(conn, action), hreceive, rfl⟩

theorem flowHistory_append (front : List PacketJob)
    (h : flowHistory rules (front ++ jobs) = .ok r) :
    ∃ s, flowHistory rules front = .ok s ∧
      ∃ rest, r.2 = s.2 ++ rest ∧ rest.map Prod.fst = jobs := by
  induction jobs using List.reverseRecOn generalizing r with
  | nil =>
    rw [List.append_nil] at h
    exact ⟨r, h, [], (List.append_nil _).symm, rfl⟩
  | append_singleton jobs job ih =>
    rw [← List.append_assoc, flowHistory_concat, Except.do_eq_ok_iff] at h
    obtain ⟨t, ht, hstep⟩ := h
    obtain ⟨s, hs, rest, hrest, hjobs⟩ := ih ht
    obtain ⟨conn, action, -, rfl⟩ := flowStep_ok.mp hstep
    refine ⟨s, hs, rest ++ [(job, action)], ?_, ?_⟩
    · rw [hrest, List.append_assoc]
    · rw [List.map_append, hjobs, List.map_singleton]

theorem map_flowHistory (h : flowHistory rules jobs = .ok r) : r.2.map Prod.fst = jobs := by
  obtain ⟨s, hs, rest, hrest, hjobs⟩ := flowHistory_append [] h
  cases hs
  rw [hrest]
  exact hjobs

namespace FastPathProcessor

/-- Every flow has had its own history, apart from the clock. -/
def Follows (rules : RuleManager) (jobs : List PacketJob) (fp : FastPathProcessor) : Prop :=
  ∀ k, ∃ r, flowHistory rules (jobs.filter (·.flow = k)) = .ok r ∧
    (fp.tracker.connections.lookup k).map untimed = r.1.map untimed ∧ fp.verdicts k = r.2

theorem lookupKey_ok {key : FlowKey} (h : lookupKey job = .ok key) : key.canonical = job.flow := by
  unfold lookupKey at h
  split_ifs at h with hkey
  cases h
  rw [PacketJob.flow, if_pos hkey]

theorem lookupConnection_totalSeen {t t₁ t' : ConnectionTracker} {key p : FlowKey} {client : Bool}
    (h : lookupConnection t env job = .ok (t', p, client)) (hkey : lookupKey job = .ok key)
    (hcreate : t.getOrCreateConnection key env = .ok (t₁, p)) : t'.totalSeen = t₁.totalSeen := by
  simp only [lookupConnection, Except.do_eq_ok_iff] at h
  obtain ⟨key', hkey', ⟨t₂, p'⟩, ht₂, h⟩ := h
  cases hkey.symm.trans hkey'
  cases hcreate.symm.trans ht₂
  cases h
  unfold updateTCPState closeConnection
  split_ifs <;> rfl

theorem processPacket_loses (hk : fp.tracker.Keyed) (h : processPacket rules env job fp = .ok fp') :
    ∃ n, Loses n fp.tracker fp'.tracker ∧ (n = 0 → ∀ q, q ≠ job.flow →
      fp'.tracker.connections.lookup q = fp.tracker.connections.lookup q) := by
  obtain ⟨t, p, client, t', action, hlookup, hverdict, rfl⟩ := processPacket_ok.mp h
  obtain ⟨key, t₁, hkey, hcreate, -, hfollow⟩ := lookupConnection_ok hk hlookup
  have hmem := getOrCreateConnection_mem hcreate
  have hseen : t'.totalSeen = t₁.totalSeen :=
    (verdict_handled hlookup hverdict).2.trans (lookupConnection_totalSeen hlookup hkey hcreate)
  have htouch : Touches p t₁ t' := hfollow.toTouches.trans (verdict_touches hverdict)
  obtain ⟨n, hloses, hsame⟩ := loses_getOrCreateConnection hcreate
  obtain ⟨rfl, -, -⟩ := getOrCreateConnection_ok hcreate
  refine ⟨n, hloses.trans (.of_touches htouch hmem hseen), fun hn q hq => ?_⟩
  rw [← lookupKey_ok hkey] at hq
  exact (htouch.lookup_ne q hq).trans (hsame hn q hq)

theorem follows_empty (rules : RuleManager) (n : ℕ) :
    Follows rules [] { tracker := { maxConnections := n } } :=
  fun _ => ⟨(none, []), rfl, rfl, rfl⟩

theorem filter_flow_concat (jobs : List PacketJob) (job : PacketJob) (k : FlowKey) :
    (jobs ++ [job]).filter (·.flow = k) =
      jobs.filter (·.flow = k) ++ if job.flow = k then [job] else [] := by
  rw [List.filter_append]
  split_ifs with hk
  · rw [List.filter_cons_of_pos (by simpa using hk), List.filter_nil]
  · rw [List.filter_cons_of_neg (by simpa using hk), List.filter_nil]

theorem lookupKey_of_processPacket (hk : fp.tracker.Keyed)
    (h : processPacket rules env job fp = .ok fp') :
    ∃ key, lookupKey job = .ok key ∧ key.canonical = job.flow := by
  obtain ⟨key, hkey, -⟩ := processPacket_touches hk h
  exact ⟨key, hkey, lookupKey_ok hkey⟩

/-- A packet continues the history of its flow and leaves the others alone. -/
theorem Follows.packet (hf : Follows rules jobs fp) (hk : fp.tracker.Keyed)
    (h : processPacket rules env job fp = .ok fp')
    (hsame : ∀ q, q ≠ job.flow →
      fp'.tracker.connections.lookup q = fp.tracker.connections.lookup q) :
    Follows rules (jobs ++ [job]) fp' := by
  obtain ⟨key, hkey, hflow⟩ := lookupKey_of_processPacket hk h
  obtain ⟨⟨conn, action⟩, hreceive, hreceived⟩ := (processPacket_receive hk hkey).of_ok h
  intro k
  obtain ⟨r, hhistory, hlookup, hverdicts⟩ := hf k
  rw [filter_flow_concat]
  by_cases hjob : job.flow = k
  · subst hjob
    rw [hflow] at hreceive hreceived
    obtain ⟨⟨conn', action'⟩, hreceive', huntimed, rfl⟩ :=
      (receive_untimed env {} hlookup).of_ok hreceive
    refine ⟨(some conn', r.2 ++ [(job, action)]), ?_, ?_, ?_⟩
    · rw [if_pos rfl, flowHistory_concat, hhistory]
      exact flowStep_ok.mpr ⟨conn', action, hreceive', rfl⟩
    · rw [hreceived.lookup]
      exact congrArg some huntimed
    · rw [hreceived.verdicts_eq, if_pos rfl, hverdicts]
  · refine ⟨r, ?_, ?_, ?_⟩
    · rw [if_neg hjob, List.append_nil, hhistory]
    · rw [hsame k (Ne.symm hjob), hlookup]
    · rw [hreceived.verdicts_eq, if_neg hjob, List.append_nil, hverdicts]

/-- The processor has processed the packets, and has followed them if it has removed no entry. -/
structure Tracks (rules : RuleManager) (jobs : List PacketJob) (fp : FastPathProcessor) : Prop where
  keyed : fp.tracker.Keyed
  size_le : fp.tracker.size ≤ fp.tracker.totalSeen
  follows : fp.tracker.Complete → Follows rules jobs fp

theorem tracks_empty (rules : RuleManager) : Tracks rules [] {} where
  keyed := keyed_empty _
  size_le := le_rfl
  follows _ := follows_empty rules _

theorem Tracks.packet (h : Tracks rules jobs fp) (hp : processPacket rules env job fp = .ok fp') :
    Tracks rules (jobs ++ [job]) fp' := by
  obtain ⟨n, hloses, hsame⟩ := processPacket_loses h.keyed hp
  refine ⟨step_keyed (x := .packet env job) h.keyed hp, hloses.size_le h.size_le, fun hc => ?_⟩
  obtain ⟨rfl, hc⟩ := hloses.complete h.size_le hc
  exact (h.follows hc).packet h.keyed hp (hsame rfl)

theorem Tracks.cleanup (h : Tracks rules jobs fp) (now timeout : ℕ) :
    Tracks rules jobs { fp with tracker := fp.tracker.cleanupStale now timeout } := by
  obtain ⟨n, hloses, hsame⟩ := loses_cleanupStale fp.tracker now timeout
  refine ⟨cleanupStale_keyed h.keyed now timeout, hloses.size_le h.size_le, fun hc => ?_⟩
  obtain ⟨rfl, hc⟩ := hloses.complete h.size_le hc
  rw [hsame rfl]
  exact h.follows hc

theorem Follows.returns (hf : Follows rules jobs fp) (hk : fp.tracker.Keyed)
    (h : (flowHistory rules ((jobs ++ [job]).filter (·.flow = job.flow))).Returns) :
    (processPacket rules env job fp).Returns := by
  obtain ⟨r, hhistory, hlookup, -⟩ := hf job.flow
  obtain ⟨r', h⟩ := h
  rw [filter_flow_concat, if_pos rfl, flowHistory_concat, hhistory] at h
  obtain ⟨conn, action, hreceive, -⟩ := flowStep_ok.mp h
  obtain ⟨r'', hreceive', -⟩ := (receive_untimed {} env hlookup.symm).of_ok hreceive
  obtain ⟨entry, hentry, -⟩ := Except.do_eq_ok_iff.mp hreceive'
  obtain ⟨key, hkey, -⟩ := Except.do_eq_ok_iff.mp hentry
  rw [← lookupKey_ok hkey] at hreceive'
  obtain ⟨fp', hfp', -⟩ := (processPacket_receive hk hkey).ok_of hreceive'
  exact ⟨fp', hfp'⟩

theorem returns_of_concat (h : (flowHistory rules ((jobs ++ [job]).filter (·.flow = k))).Returns) :
    (flowHistory rules (jobs.filter (·.flow = k))).Returns := by
  rw [filter_flow_concat] at h
  split_ifs at h
  · rw [flowHistory_concat] at h
    obtain ⟨r, hr, -⟩ := Except.returns_bind_iff.mp h
    exact ⟨r, hr⟩
  · rwa [List.append_nil] at h

/-- One processor for all packets, with room for `n` connections. -/
def sequential (rules : RuleManager) (n : ℕ) (jobs : List PacketJob) :
    Except Fault FastPathProcessor :=
  jobs.foldlM (fun fp job => fp.processPacket rules {} job) { tracker := { maxConnections := n } }

theorem sequential_concat (rules : RuleManager) (n : ℕ) (jobs : List PacketJob) (job : PacketJob) :
    sequential rules n (jobs ++ [job]) =
      sequential rules n jobs >>= fun fp => fp.processPacket rules {} job := by
  rw [sequential, List.foldlM_append, ← sequential]
  congr 1
  funext fp
  rw [List.foldlM_cons]
  exact bind_pure _

/-- If every flow has a history, one processor with enough room follows them all. -/
theorem sequential_follows {n : ℕ} (hn : jobs.length ≤ n)
    (h : ∀ k, (flowHistory rules (jobs.filter (·.flow = k))).Returns) :
    ∃ fp, sequential rules n jobs = .ok fp ∧ Follows rules jobs fp := by
  have hall : ∃ fp, sequential rules n jobs = .ok fp ∧ Follows rules jobs fp ∧
      fp.tracker.Keyed ∧ fp.tracker.maxConnections = n ∧ fp.tracker.size ≤ jobs.length := by
    induction jobs using List.reverseRecOn with
    | nil => exact ⟨_, rfl, follows_empty rules n, keyed_empty n, rfl, le_rfl⟩
    | append_singleton jobs job ih =>
      rw [List.length_append, List.length_singleton] at hn
      obtain ⟨fp, hseq, hf, hk, hmax, hsize⟩ := ih (by omega) fun k => returns_of_concat (h k)
      obtain ⟨fp', hfp'⟩ := hf.returns hk (h job.flow)
      obtain ⟨key, hkey, hflow⟩ := lookupKey_of_processPacket hk hfp'
      obtain ⟨r, -, hreceived⟩ := (processPacket_receive hk hkey).of_ok hfp'
      obtain ⟨hle, hmax'⟩ := step_length_le (x := .packet {} job) hk hfp'
      refine ⟨fp', ?_, hf.packet hk hfp' fun q hq => ?_, hreceived.keyed, hmax'.trans hmax, ?_⟩
      · rw [sequential_concat, hseq]
        exact hfp'
      · rw [← hflow] at hq
        refine hreceived.lookup_other ?_ hq
        simp only [size] at hsize
        omega
      · rw [List.length_append, List.length_singleton]
        simp only [size] at *
        omega
  obtain ⟨fp, hseq, hf, -⟩ := hall
  exact ⟨fp, hseq, hf⟩

theorem Follows.of_nil (h : Follows rules jobs fp) (hk : jobs.filter (·.flow = k) = []) :
    fp.verdicts k = [] ∧ fp.tracker.connections.lookup k = none := by
  obtain ⟨r, hr, hlookup, hverdicts⟩ := h k
  rw [hk] at hr
  cases hr
  exact ⟨hverdicts, Option.map_eq_none_iff.mp hlookup⟩

/-- Processors that follow the same packets agree on every flow, apart from the clock. -/
theorem Follows.agree (h : Follows rules jobs fp) (h' : Follows rules jobs' fp')
    (hjobs : jobs.filter (·.flow = k) = jobs'.filter (·.flow = k)) :
    fp.verdicts k = fp'.verdicts k ∧ (fp.tracker.connections.lookup k).map untimed =
      (fp'.tracker.connections.lookup k).map untimed := by
  obtain ⟨r, hr, hlookup, hverdicts⟩ := h k
  obtain ⟨r', hr', hlookup', hverdicts'⟩ := h' k
  rw [hjobs, hr'] at hr
  cases hr
  exact ⟨hverdicts.trans hverdicts'.symm, hlookup.trans hlookup'.symm⟩

end FastPathProcessor

end DpiEngine
