import DpiEngine.FastPath.Run

/-! # Blocked connections

A blocked connection is meant to stay blocked. The TCP flags of a later packet
can reopen it: SYN with ACK after a SYN makes it established, RST closes it.
Blocking is absorbing exactly in the runs without such packets.
-/

namespace DpiEngine.FastPathProcessor

open ConnectionTracker

variable {rules : RuleManager} {env : PacketEnv} {job : PacketJob} {fp fp' : FastPathProcessor}
  {k : FlowKey} {client : Bool} {l : List Input} {y : Input}

/-- The TCP flags of the packet take the connection out of the blocked state. -/
def Reopens (conn : Connection) (job : PacketJob) : Prop :=
  job.tuple.protocol = 6 ∧
    (hasFlag job.tcpFlags TCPFlags.SYN ∧ hasFlag job.tcpFlags TCPFlags.ACK ∧ conn.synSeen ∨
      ¬ hasFlag job.tcpFlags TCPFlags.SYN ∧ ¬ hasFlag job.tcpFlags TCPFlags.FIN ∧
        hasFlag job.tcpFlags TCPFlags.RST)

theorem state_followFlags {conn : Connection} (hb : conn.state = .blocked) (flags : UInt8) :
    (conn.followFlags flags).state = .blocked ↔
      ¬ (hasFlag flags TCPFlags.SYN ∧ hasFlag flags TCPFlags.ACK ∧ conn.synSeen ∨
        ¬ hasFlag flags TCPFlags.SYN ∧ ¬ hasFlag flags TCPFlags.FIN ∧
          hasFlag flags TCPFlags.RST) := by
  unfold Connection.followFlags
  split_ifs with hsyn hack hseen hfin hrst
  · simp [hsyn, hack, hseen]
  · simp [hsyn, hack, hseen, hb]
  · simp [hsyn, hack, hb]
  · simp [hsyn, hfin, hb]
  · simp [hsyn, hfin, hrst]
  · simp [hsyn, hrst, hb]

theorem state_follow {conn : Connection} (hb : conn.state = .blocked) :
    (conn.follow env job client).state = .blocked ↔ ¬ Reopens conn job := by
  unfold Connection.follow Reopens
  split_ifs with h6
  · rw [state_followFlags (by rw [Connection.state_update, hb]), Connection.synSeen_update]
    simp only [h6, true_and]
  · simp [h6, hb]

def Drops (fp : FastPathProcessor) (job : PacketJob) (fp' : FastPathProcessor) : Prop :=
  fp'.actions = fp.actions ++ [(job, .drop)]

/-- The packet was dropped and its connection not blocked once more. -/
def DropsQuietly (fp : FastPathProcessor) (job : PacketJob) (fp' : FastPathProcessor) : Prop :=
  Drops fp job fp' ∧ fp'.tracker.blockedCount = fp.tracker.blockedCount

/-- A packet of a blocked connection is dropped without a second block unless it reopens it. -/
theorem processPacket_blocked (hk : fp.tracker.Keyed) (hjob : JobOf k job)
    (hmem : k ∈ fp.tracker.connections) (hb : (fp.tracker.conn k).state = .blocked)
    (h : processPacket rules env job fp = .ok fp') :
    (DropsQuietly fp job fp' ↔ ¬ Reopens (fp.tracker.conn k) job) ∧
      (¬ Reopens (fp.tracker.conn k) job → (fp'.tracker.conn k).state = .blocked) := by
  obtain ⟨t, client, t', action, hfollow, hverdict, rfl⟩ := processPacket_known hk hjob hmem h
  have hfollows : (t.conn k).state = .blocked ↔ ¬ Reopens (fp.tracker.conn k) job :=
    hfollow.conn ▸ state_follow hb
  rw [← hfollows]
  rcases verdict_ok hverdict with
    ⟨hstate, rfl, rfl⟩ | ⟨hstate, -, rfl, rfl⟩ |
    ⟨hstate, -, t₁, ht₁, ⟨-, -, rfl, rfl⟩ | ⟨-, rfl, rfl⟩⟩
  · exact ⟨iff_of_true ⟨rfl, hfollow.blockedCount⟩ hstate, fun _ => hstate⟩
  · refine ⟨iff_of_false (fun hquiet => ?_) hstate, fun h => absurd h hstate⟩
    have hcount : t.blockedCount + 1 = fp.tracker.blockedCount := hquiet.2
    have := hfollow.blockedCount; omega
  · refine ⟨iff_of_false (fun hquiet => ?_) hstate, fun h => absurd h hstate⟩
    have hcount : t₁.blockedCount + 1 = fp.tracker.blockedCount := hquiet.2
    have := hfollow.blockedCount; have := ht₁.blockedCount; omega
  · refine ⟨iff_of_false (fun hquiet => ?_) hstate, fun h => absurd h hstate⟩
    have hdrop := List.append_cancel_left hquiet.1
    cases hdrop

/-- The step blocks the connection: `blockConnection` counts it. -/
def Blocks (k : FlowKey) (fp : FastPathProcessor) (x : Input) (fp' : FastPathProcessor) : Prop :=
  x.IsPacketOf k ∧ fp'.tracker.blockedCount = fp.tracker.blockedCount + 1

theorem blocked_of_blocks {x : Input} (hk : fp.tracker.Keyed) (h : Step rules fp x fp')
    (hblocks : Blocks k fp x fp') :
    (fp'.tracker.conn k).state = .blocked ∧ k ∈ fp'.tracker.connections := by
  obtain ⟨hx, hcount⟩ := hblocks
  cases x with
  | cleanup now => exact hx.elim
  | packet env job =>
    obtain ⟨key, hkey, hmem, -, -⟩ := processPacket_touches hk h
    obtain ⟨key', hkey', rfl⟩ := hx
    cases hkey.symm.trans hkey'
    refine ⟨?_, hmem⟩
    obtain ⟨t, p, client, t', action, hlookup, hverdict, rfl⟩ := processPacket_ok.mp h
    obtain ⟨key₁, t₁, hkey₁, hcreate, -, hfollow⟩ := lookupConnection_ok hk hlookup
    cases hkey.symm.trans hkey₁
    obtain ⟨rfl, hcount₁, -⟩ := getOrCreateConnection_ok hcreate
    have hsame : t.blockedCount = fp.tracker.blockedCount := hfollow.blockedCount.trans hcount₁
    change t'.blockedCount = fp.tracker.blockedCount + 1 at hcount
    rcases verdict_ok hverdict with
      ⟨-, rfl, -⟩ | ⟨-, -, rfl, -⟩ | ⟨-, -, t₂, ht₂, ⟨-, -, rfl, -⟩ | ⟨-, rfl, -⟩⟩
    · omega
    · exact congrArg Connection.state (conn_blockConnection t _)
    · exact congrArg Connection.state (conn_blockConnection t₂ _)
    · have := ht₂.blockedCount; omega

/-- A step after which the entry of the flow is still there. -/
def StayStep (rules : RuleManager) (k : FlowKey) (fp : FastPathProcessor) (x : Input)
    (fp' : FastPathProcessor) : Prop :=
  Step rules fp x fp' ∧ k ∈ fp'.tracker.connections

/--
In the run over `l`, the step from `u` to `v` handles a packet of a connection that was
blocked before and whose entry has stayed since.
-/
def AfterBlock (rules : RuleManager) (l : List Input) (k : FlowKey) (u : FastPathProcessor)
    (y : Input) (v : FastPathProcessor) : Prop :=
  ∃ l₁ x l₂ l₃ s s', l = l₁ ++ x :: l₂ ++ y :: l₃ ∧ Run (Step rules) {} l₁ s ∧
    Step rules s x s' ∧ Blocks k s x s' ∧ Run (StayStep rules k) s' l₂ u ∧
    Step rules u y v ∧ y.IsPacketOf k

/-- Every later packet of a blocked connection is dropped, and the connection counted once. -/
def BlockingAbsorbs (rules : RuleManager) (l : List Input) : Prop :=
  ∀ k u env job v, AfterBlock rules l k u (.packet env job) v → DropsQuietly u job v

/-- No packet reopens a blocked connection. -/
def NeverReopens (rules : RuleManager) (l : List Input) : Prop :=
  ∀ k u env job v, AfterBlock rules l k u (.packet env job) v → ¬ Reopens (u.tracker.conn k) job

/-- While nothing reopens it, the connection is blocked at every later packet. -/
theorem blocked_of_afterBlock
    (hsafe : ∀ k u env job v, u.tracker.Keyed → k ∈ u.tracker.connections →
      (u.tracker.conn k).state = .blocked → AfterBlock rules l k u (.packet env job) v →
      ¬ Reopens (u.tracker.conn k) job)
    {u v : FastPathProcessor} (h : AfterBlock rules l k u y v) :
    u.tracker.Keyed ∧ k ∈ u.tracker.connections ∧ (u.tracker.conn k).state = .blocked := by
  obtain ⟨l₁, x, l₂, l₃, s, s', rfl, hs, hx, hblocks, hrun, -, -⟩ := h
  have hstart : s'.tracker.Keyed ∧ k ∈ s'.tracker.connections ∧
      (s'.tracker.conn k).state = .blocked := by
    obtain ⟨hb, hmem⟩ := blocked_of_blocks (run_keyed hs) hx hblocks
    exact ⟨step_keyed (run_keyed hs) hx, hmem, hb⟩
  -- along the steps since the block, from the last one backwards
  induction l₂ using List.reverseRecOn generalizing u y l₃ with
  | nil => rw [Run.nil_iff] at hrun; exact hrun ▸ hstart
  | append_singleton l₂ z ih =>
    obtain ⟨w, hw, hz⟩ := Run.append_iff.mp hrun
    rw [Run.cons_iff] at hz
    obtain ⟨u', ⟨hstep, hmem'⟩, hu'⟩ := hz
    rw [Run.nil_iff] at hu'
    subst hu'
    have hsplit : l₁ ++ x :: (l₂ ++ [z]) ++ y :: l₃ = l₁ ++ x :: l₂ ++ z :: (y :: l₃) := by simp
    rw [hsplit] at hsafe
    obtain ⟨hk, hmem, hb⟩ := ih (y :: l₃) hsafe hw
    refine ⟨step_keyed hk hstep, hmem', ?_⟩
    by_cases hz : z.IsPacketOf k
    · cases z with
      | cleanup now => exact hz.elim
      | packet env job =>
        have hnot := hsafe k w env job u' hk hmem hb
          ⟨l₁, x, l₂, y :: l₃, s, s', rfl, hs, hx, hblocks, hw, hstep, hz⟩
        exact (processPacket_blocked hk hz hmem hb hstep).2 hnot
    · rw [(step_of_other hk hstep hz hmem').2]; exact hb

/-- Blocking is absorbing exactly in the runs in which no packet reopens a blocked connection. -/
theorem blockingAbsorbs_iff_neverReopens (rules : RuleManager) (l : List Input) :
    BlockingAbsorbs rules l ↔ NeverReopens rules l := by
  constructor
  · intro habsorbs k u env job v h
    have hsafe : ∀ k u env job v, u.tracker.Keyed → k ∈ u.tracker.connections →
        (u.tracker.conn k).state = .blocked → AfterBlock rules l k u (.packet env job) v →
        ¬ Reopens (u.tracker.conn k) job := by
      intro k u env job v hk hmem hb h
      obtain ⟨_, _, _, _, _, _, -, -, -, -, -, hstep, hjob⟩ := id h
      exact (processPacket_blocked hk hjob hmem hb hstep).1.mp (habsorbs k u env job v h)
    obtain ⟨hk, hmem, hb⟩ := blocked_of_afterBlock hsafe h
    exact hsafe k u env job v hk hmem hb h
  · intro hnever k u env job v h
    obtain ⟨hk, hmem, hb⟩ :=
      blocked_of_afterBlock (fun k u env job v _ _ _ => hnever k u env job v) h
    obtain ⟨_, _, _, _, _, _, -, -, -, -, -, hstep, hjob⟩ := id h
    exact (processPacket_blocked hk hjob hmem hb hstep).1.mpr (hnever k u env job v h)

def webFrame (tcpFlags : UInt8) : List UInt8 :=
  List.replicate 12 0 ++ [0x08, 0x00, 0x45, 0, 0, 41, 0, 0, 0, 0, 64, 6, 0, 0, 1, 0, 0, 0, 2, 0, 0,
    0, 0x03, 0xE8, 0, 80, 0, 0, 0, 0, 0, 0, 0, 0, 0x50, tcpFlags, 0, 0, 0, 0, 0, 0, 0]

def webJob (tcpFlags : UInt8) : PacketJob where
  tuple := ⟨1, 2, 1000, 80, 6⟩
  flowKey := .fromFiveTuple ⟨1, 2, 1000, 80, 6⟩
  hasFlowKey := true
  data := webFrame tcpFlags
  ipOffset := 14
  transportOffset := 34
  payloadOffset := 54
  payloadLength := 1
  payload_le := .inr le_rfl
  tcpFlags := tcpFlags

example : (ParserWorker.parseJob { data := webFrame TCPFlags.RST } 0).value =
    some (some (webJob TCPFlags.RST)) := rfl

def noHTTP : RuleManager where
  blockedApps := {.http}

/-- A reset closes the blocked connection, and the next byte passes. -/
theorem reset_reopens : ¬ BlockingAbsorbs noHTTP
    [.packet {} (webJob TCPFlags.ACK), .packet {} (webJob TCPFlags.RST)] := by
  intro h
  have hdrop := h (webJob 0).flowKey _ {} (webJob TCPFlags.RST) _
    ⟨[], _, [], [], {}, _, rfl, .nil _, rfl, ⟨⟨_, rfl, rfl⟩, rfl⟩, .nil _, rfl, ⟨_, rfl, rfl⟩⟩
  exact absurd hdrop.1 (by unfold Drops; decide)

end DpiEngine.FastPathProcessor
