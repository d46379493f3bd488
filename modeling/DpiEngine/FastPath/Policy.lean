import DpiEngine.FastPath.Blocking

/-! # The fast path and the combined rule check

The fast path checks addresses, applications and domains at the times when they
can change, and ports never. A packet it forwards passes the combined check of
the rules unless its port is blocked, its connection was reopened, or packets of
unknown applications are blocked.
-/

namespace DpiEngine.FastPathProcessor

open ConnectionTracker

variable {rules : RuleManager} {env : PacketEnv} {job : PacketJob} {fp fp' : FastPathProcessor}
  {t t' : ConnectionTracker} {k p : FlowKey} {client : Bool} {x : Input} {conn : Connection}

/-- A rule blocks one of the addresses of the packet. -/
def AddressBlocked (rules : RuleManager) (job : PacketJob) : Prop :=
  rules.isIPBlocked job.tuple.srcIp = true ∨ rules.isIPBlocked job.tuple.dstIp = true

instance (rules : RuleManager) (job : PacketJob) : Decidable (AddressBlocked rules job) :=
  inferInstanceAs (Decidable (_ ∨ _))

theorem ipBlocked_eq (hv4 : job.IsIPv4) (hkey : conn.flowKey = job.flowKey.canonical) :
    ipBlocked rules conn = .ok (decide (AddressBlocked rules job)) := by
  have hcheck {src dst : UInt32} (hsrc : conn.flowKey.srcAddr = .v4 src)
      (hdst : conn.flowKey.dstAddr = .v4 dst) :
      ipBlocked rules conn = .ok (rules.isIPBlocked src || rules.isIPBlocked dst) := by
    rw [ipBlocked, hsrc, hdst]
    change (if rules.isIPBlocked src then Except.ok true else .ok (rules.isIPBlocked dst)) = _
    cases rules.isIPBlocked src <;> rfl
  have hdecide : decide (AddressBlocked rules job) =
      (rules.isIPBlocked job.tuple.srcIp || rules.isIPBlocked job.tuple.dstIp) := by
    rw [Bool.eq_iff_iff, decide_eq_true_iff, Bool.or_eq_true]
    rfl
  rw [hv4.2] at hkey
  rw [hdecide]
  rcases FlowKey.canonical_cases (.fromFiveTuple job.tuple) with hc | hc <;> rw [hc] at hkey
  · exact hcheck (congrArg FlowKey.srcAddr hkey) (congrArg FlowKey.dstAddr hkey)
  · rw [hcheck (congrArg FlowKey.srcAddr hkey) (congrArg FlowKey.dstAddr hkey), Bool.or_comm]

theorem ipBlocked_ok (hv4 : job.IsIPv4) (hkey : conn.flowKey = job.flowKey.canonical) {b : Bool}
    (h : ipBlocked rules conn = .ok b) : b = true ↔ AddressBlocked rules job := by
  rw [ipBlocked_eq hv4 hkey] at h
  cases h
  exact decide_eq_true_iff

/-- No rule blocks the application or the name of the connection, as far as they are known. -/
def Clean (rules : RuleManager) (conn : Connection) : Prop :=
  (conn.appType = .unknown ∨ rules.isAppBlocked conn.appType = false) ∧
    rules.isDomainBlocked conn.bestDomain = false

theorem Clean.of_profile {c c' : Connection} (h : Clean rules c) (hp : c'.profile = c.profile) :
    Clean rules c' := by
  rw [Clean, Connection.appType_eq hp, Connection.bestDomain_eq hp]; exact h

theorem clean_fresh {tuple : FiveTuple} {k : FlowKey} {b : Bool} {now : ℕ} :
    Clean rules { flowKey := k, originalIsCanonical := b, firstSeen := now, lastSeen := now
                  tuple := tuple } := ⟨.inl rfl, rfl⟩

theorem contentBlocked_eq_false (h : contentBlocked rules conn = false) :
    rules.isAppBlocked conn.appType = false ∧ rules.isDomainBlocked conn.bestDomain = false := by
  obtain ⟨happ, hdomain⟩ := Bool.or_eq_false_iff.mp h
  refine ⟨happ, ?_⟩
  cases hempty : conn.bestDomain.isEmpty with
  | true => rw [RuleManager.isDomainBlocked, if_pos hempty]
  | false => rw [hempty] at hdomain; exact hdomain

/--
What the packet needs to be forwarded only with the consent of the combined check: a rule
blocks its address, or its connection is blocked and not reopened, or its port is not blocked
and its application is known if unknown applications are blocked.
-/
def Covered (rules : RuleManager) (fp : FastPathProcessor) (job : PacketJob) : Prop :=
  AddressBlocked rules job ∨
    if (fp.tracker.conn job.flowKey.canonical).state = .blocked then
      ¬ Reopens (fp.tracker.conn job.flowKey.canonical) job
    else rules.isPortBlocked job.tuple.dstPort = false ∧
      (rules.isAppBlocked .unknown = true →
        (fp.tracker.conn job.flowKey.canonical).appType ≠ .unknown)

/-- A step whose packet, if it has one, is an IPv4 packet that meets the condition. -/
def CoveredStep (rules : RuleManager) (fp : FastPathProcessor) (x : Input)
    (fp' : FastPathProcessor) : Prop :=
  Step rules fp x fp' ∧ ∀ env job, x = .packet env job → job.IsIPv4 ∧ Covered rules fp job

/-- Connections that are not blocked are clean. -/
def Policed (rules : RuleManager) (fp : FastPathProcessor) : Prop :=
  fp.tracker.Keyed ∧ ∀ k ∈ fp.tracker.connections,
    (fp.tracker.conn k).state = .blocked ∨ Clean rules (fp.tracker.conn k)

/-- A packet that is forwarded passes the combined check against its connection afterwards. -/
def AgreesWithRules (rules : RuleManager) (fp : FastPathProcessor) (job : PacketJob)
    (fp' : FastPathProcessor) : Prop :=
  fp'.actions = fp.actions ++ [(job, .forward)] →
    rules.shouldBlock job.tuple.srcIp job.tuple.dstPort
      (fp'.tracker.conn job.flowKey.canonical).appType
      (fp'.tracker.conn job.flowKey.canonical).bestDomain = none

theorem lookupConnection_conn (hpol : Policed rules fp) (hv4 : job.IsIPv4)
    (h : lookupConnection fp.tracker env job = .ok (t, p, client)) :
    p = job.flowKey.canonical ∧ (t.conn p).flowKey = p ∧
      (t.conn p).profile = (fp.tracker.conn p).profile ∧
      ((fp.tracker.conn p).state = .blocked → ((t.conn p).state = .blocked ↔
        ¬ Reopens (fp.tracker.conn p) job)) ∧
      ((fp.tracker.conn p).state ≠ .blocked → Clean rules (t.conn p)) := by
  obtain ⟨key, t₁, hkey, hcreate, -, hfollow⟩ := lookupConnection_ok hpol.1 h
  have hkeyed := getOrCreateConnection_keyed hpol.1 hcreate
  have hmem := getOrCreateConnection_mem hcreate
  obtain rfl : key = job.flowKey := by
    rw [lookupKey, if_pos hv4.1] at hkey; cases hkey; rfl
  obtain ⟨rfl, -, hold⟩ := getOrCreateConnection_ok hcreate
  refine ⟨rfl, hfollow.flowKey.trans (hkeyed.flowKey _ hmem), ?_⟩
  rw [hfollow.conn, Connection.profile_follow]
  obtain ⟨hp, rfl⟩ | ⟨hp, ⟨c, hc, hlookup⟩, -⟩ := hold
  · refine ⟨rfl, fun hb => state_follow hb, fun hb => ?_⟩
    exact ((hpol.2 _ hp).resolve_left hb).of_profile (Connection.profile_follow _ _ _ _)
  · obtain ⟨tuple, rfl⟩ := newConnection_ok hc
    have hnone : fp.tracker.conn job.flowKey.canonical = {} := by
      rw [ConnectionTracker.conn, AList.lookup_eq_none.mpr hp]; rfl
    rw [hnone, ConnectionTracker.conn, hlookup]
    refine ⟨rfl, fun hb => (by cases hb), fun _ => ?_⟩
    exact clean_fresh.of_profile (Connection.profile_follow _ _ _ _)

/-- A covered packet leaves its connection blocked or clean, and is forwarded by the rules. -/
theorem processPacket_covered (hpol : Policed rules fp) (hv4 : job.IsIPv4)
    (hcov : Covered rules fp job) (h : processPacket rules env job fp = .ok fp') :
    ((fp'.tracker.conn job.flowKey.canonical).state = .blocked ∨
        Clean rules (fp'.tracker.conn job.flowKey.canonical)) ∧
      AgreesWithRules rules fp job fp' := by
  obtain ⟨t, p, client, t', action, hlookup, hverdict, rfl⟩ := processPacket_ok.mp h
  obtain ⟨rfl, hkey, hprofile, hblocked, hclean⟩ := lookupConnection_conn hpol hv4 hlookup
  rcases verdict_ok hverdict with
    ⟨hstate, rfl, rfl⟩ | ⟨hstate, -, rfl, rfl⟩ |
    ⟨hstate, hip, t₁, ht₁, ⟨-, -, rfl, rfl⟩ | ⟨hcontent, rfl, rfl⟩⟩
  · exact ⟨.inl hstate, fun h => by cases List.append_cancel_left h⟩
  · exact ⟨.inl (congrArg Connection.state (conn_blockConnection t _)),
      fun h => by cases List.append_cancel_left h⟩
  · exact ⟨.inl (congrArg Connection.state (conn_blockConnection t₁ _)),
      fun h => by cases List.append_cancel_left h⟩
  · have haddr : ¬ AddressBlocked rules job := by
      rw [← ipBlocked_ok hv4 hkey hip]; exact Bool.false_ne_true
    have hcov := hcov.resolve_left haddr
    split_ifs at hcov with hb
    · exact absurd ((hblocked hb).mpr hcov) hstate
    · obtain ⟨hport, hunknown⟩ := hcov
      -- the connection is clean, and its application is known or not to be blocked
      have hsettled : Clean rules (t'.conn job.flowKey.canonical) ∧
          rules.isAppBlocked (t'.conn job.flowKey.canonical).appType = false := by
        rcases ht₁.settled with hclass | ⟨-, hsame⟩
        · have hcontent := contentBlocked_eq_false (Bool.eq_false_iff.mpr fun hc =>
            hcontent ⟨hclass, hc⟩)
          exact ⟨⟨.inr hcontent.1, hcontent.2⟩, hcontent.1⟩
        · have hclean' := (hclean hb).of_profile hsame
          refine ⟨hclean', ?_⟩
          rcases hclean'.1 with happ | happ
          · rw [happ]
            by_contra hne
            refine hunknown (Bool.eq_true_of_not_eq_false hne) ?_
            rw [← Connection.appType_eq (hsame.trans hprofile)]; exact happ
          · exact happ
      refine ⟨.inr hsettled.1, fun _ => ?_⟩
      rw [RuleManager.shouldBlock_eq_none_iff]
      refine ⟨?_, hport, hsettled.2, hsettled.1.2⟩
      exact Bool.eq_false_iff.mpr fun hsrc => haddr (.inl hsrc)

theorem coveredStep_policed (hpol : Policed rules fp) (h : CoveredStep rules fp x fp') :
    Policed rules fp' := by
  obtain ⟨hstep, hcov⟩ := h
  refine ⟨step_keyed hpol.1 hstep,
    step_entries (P := fun _ c => c.state = .blocked ∨ Clean rules c) hpol.1 hstep hpol.2 ?_⟩
  rintro env job k rfl ⟨key, hkey, rfl⟩
  obtain ⟨hv4, hcov⟩ := hcov env job rfl
  rw [lookupKey, if_pos hv4.1] at hkey
  cases hkey
  exact (processPacket_covered hpol hv4 hcov hstep).1

/--
In a run whose packets all meet the condition, every packet that is forwarded passes the
combined check of the rules.
-/
theorem forward_agreesWithRules (rules : RuleManager) (l : List Input) (u v : FastPathProcessor)
    (env : PacketEnv) (job : PacketJob) (hrun : Run (CoveredStep rules) {} l u)
    (hstep : CoveredStep rules u (.packet env job) v) : AgreesWithRules rules u job v := by
  have hinv {s a t} (hs : Policed rules s) (h : CoveredStep rules s a t) : Policed rules t :=
    coveredStep_policed hs h
  have hpol : Policed rules u := Run.invariant (I := Policed rules) hinv hrun
    ⟨keyed_empty 100000, fun k hk => absurd hk (AList.notMem_empty k)⟩
  obtain ⟨hv4, hcov⟩ := hstep.2 env job rfl
  exact (processPacket_covered hpol hv4 hcov hstep.1).2

def portRule (port : UInt16) : RuleManager where
  blockedPorts := {port}

/-- With port 443 blocked, a packet to port 80 is forwarded with the consent of the rules. -/
theorem forward_agreesWithRules_web : ∃ v,
    Step (portRule 443) {} (.packet {} (webJob TCPFlags.ACK)) v ∧
      v.actions = [(webJob TCPFlags.ACK, .forward)] ∧
      AgreesWithRules (portRule 443) {} (webJob TCPFlags.ACK) v := by
  refine ⟨_, rfl, rfl, forward_agreesWithRules (portRule 443) [] {} _ {} (webJob TCPFlags.ACK)
    (.nil _) ⟨rfl, fun env job h => ?_⟩⟩
  cases h
  refine ⟨⟨rfl, rfl⟩, .inr ?_⟩
  rw [if_neg (by decide)]
  exact ⟨by decide, fun hunknown => absurd hunknown (by decide)⟩

/-- With port 80 blocked, the packet is forwarded all the same. -/
theorem blocked_port_forwarded : ∃ v,
    Step (portRule 80) {} (.packet {} (webJob TCPFlags.ACK)) v ∧ (webJob TCPFlags.ACK).IsIPv4 ∧
      ¬ AgreesWithRules (portRule 80) {} (webJob TCPFlags.ACK) v := by
  refine ⟨_, rfl, ⟨rfl, rfl⟩, fun h => ?_⟩
  exact absurd (h rfl) (by decide)

end DpiEngine.FastPathProcessor
