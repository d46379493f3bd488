import DpiEngine.FastPath.Policy
import DpiEngine.Inspect.Safety
import DpiEngine.Packet.Frame
import DpiEngine.Packet.Payload
import DpiEngine.Reassembly.Scan

/-! # Every packet is decided

A packet is decided if its processing returns after one action. That holds for
IPv4 packets, as long as no reassembled ClientHello makes the scan leave its
buffer. For any other packet the fast path reads an address or a key it does
not have.
-/

namespace DpiEngine.FastPathProcessor

open ConnectionTracker Traced ClientHello Except

variable {rules : RuleManager} {env : PacketEnv} {job : PacketJob} {fp fp' : FastPathProcessor}
  {t t' : ConnectionTracker} {k p : FlowKey} {client : Bool} {b : Bool}

theorem checked_returns_iff {α : Type} {x : Traced α} :
    (checked x).Returns ↔ ∃ a, x.value = some a := by
  unfold checked
  cases x.value with
  | none => simp [Returns]
  | some a => simp [Returns]

theorem checked_of_safe {α : Type} {x : Traced α} (h : x.Safe) : ∃ a, checked x = .ok a :=
  checked_returns_iff.mpr h.exists_value

theorem checked_eq_ok_iff {α : Type} {x : Traced α} {a : α} :
    checked x = .ok a ↔ x.value = some a := by
  unfold checked
  cases x.value with
  | none => simp
  | some a => simp

/-- The segment leaves no ClientHello in the buffer of its connection whose lengths do not fit. -/
def SegmentFits (t : ConnectionTracker) (p : FlowKey) (job : PacketJob) : Prop :=
  ((t.conn p).tcpReassemblerClient.bufferSegment job.tcpSeqNumber job.payload).2 = true →
    LengthsFit ((t.conn p).tcpReassemblerClient.bufferSegment job.tcpSeqNumber job.payload).1.buffer

theorem inspectDNS_returns : (inspectDNS t p job.payload).Returns := by
  obtain ⟨result, h⟩ := checked_of_safe (DNSExtractor.extractQuery_safe job.payload)
  refine returns_bind_iff.mpr ⟨result, h, ?_⟩
  cases result <;> exact returns_ok _

theorem inspectQUIC_returns : (inspectQUIC t p job.payload).Returns := by
  obtain ⟨isInitial, h⟩ := checked_of_safe (QUICSNIExtractor.isQUICInitial_safe job.payload)
  refine returns_bind_iff.mpr ⟨isInitial, h, ?_⟩
  cases isInitial with
  | false => exact returns_ok _
  | true =>
    obtain ⟨sni, h⟩ := checked_of_safe (QUICSNIExtractor.extract_safe job.payload)
    refine returns_bind_iff.mpr ⟨sni, h, ?_⟩
    cases sni <;> exact returns_ok _

theorem inspectHTTP_returns : (inspectHTTP t p job.payload).Returns := by
  obtain ⟨host, h⟩ := checked_of_safe (HTTPHostExtractor.extract_safe job.payload)
  refine returns_bind_iff.mpr ⟨host, h, ?_⟩
  cases host <;> exact returns_ok _

theorem inspectTLS_returns_iff :
    (inspectTLS t p job.tcpSeqNumber job.payload).Returns ↔ SegmentFits t p job := by
  rw [SegmentFits, ← tryExtractSNI_defined_iff, ← checked_returns_iff, inspectTLS,
    returns_bind_iff]
  constructor
  · rintro ⟨name, h, -⟩; exact ⟨name, h⟩
  · rintro ⟨name, h⟩
    refine ⟨name, h, ?_⟩
    cases name <;> exact returns_ok _

/-- The inspection hands the payload to the reassembler of its connection. -/
structure FeedsReassembler (t : ConnectionTracker) (p : FlowKey) (job : PacketJob)
    (client : Bool) : Prop where
  protocol : (t.conn p).flowKey.protocol = 6
  client : client = true
  port : onPort (t.conn p).flowKey 80 = false
  request : (HTTPHostExtractor.isHTTPRequest job.payload).value = some false

theorem inspectByProtocol_returns_iff :
    (inspectByProtocol t p job client).Returns ↔
      (FeedsReassembler t p job client → SegmentFits t p job) := by
  unfold inspectByProtocol
  dsimp only
  split_ifs with hudp hport htcp hport
  · refine iff_of_true inspectDNS_returns fun h => absurd (h.protocol.symm.trans hudp) (by decide)
  · refine iff_of_true inspectQUIC_returns fun h => absurd (h.protocol.symm.trans hudp) (by decide)
  · exact iff_of_true inspectHTTP_returns fun h => absurd hport (Bool.eq_false_iff.mp h.port)
  · obtain ⟨isRequest, h⟩ := checked_of_safe (HTTPHostExtractor.isHTTPRequest_safe job.payload)
    have hvalue := checked_eq_ok_iff.mp h
    rw [h]
    cases isRequest with
    | true =>
      refine iff_of_true inspectHTTP_returns fun hfeeds => ?_
      cases hvalue.symm.trans hfeeds.request
    | false =>
      rw [imp_iff_right ⟨htcp.1, htcp.2, Bool.eq_false_iff.mpr hport, hvalue⟩]
      exact inspectTLS_returns_iff
  · exact iff_of_true (returns_ok _) fun h => absurd ⟨h.protocol, h.client⟩ htcp

theorem inspectPayload_returns_iff :
    (inspectPayload t p job client).Returns ↔
      (job.getPayload ≠ none → FeedsReassembler t p job client → SegmentFits t p job) := by
  unfold inspectPayload
  split_ifs with hpayload
  · exact iff_of_true (returns_ok _) fun h => absurd hpayload h
  · rw [imp_iff_right hpayload, ← inspectByProtocol_returns_iff, returns_bind_iff]
    constructor
    · rintro ⟨r, hr, -⟩; exact ⟨r, hr⟩
    · rintro ⟨⟨t', updated⟩, h⟩
      refine ⟨_, h, ?_⟩
      dsimp only
      split_ifs <;> exact returns_ok _

/-- Before the inspection, the packet has been neither dropped nor classified. -/
structure ReachesInspection (rules : RuleManager) (t : ConnectionTracker) (p : FlowKey)
    (job : PacketJob) : Prop where
  state : (t.conn p).state = .new ∨ (t.conn p).state = .established
  address : ipBlocked rules (t.conn p) = .ok false
  payload : job.getPayload ≠ none

theorem verdict_returns_iff (hip : ipBlocked rules (t.conn p) = .ok b) :
    (verdict rules t p job client).Returns ↔
      (ReachesInspection rules t p job → FeedsReassembler t p job client →
        SegmentFits t p job) := by
  unfold verdict
  split_ifs with hblocked
  · refine iff_of_true (returns_ok _) fun h => ?_
    have := h.state; simp [hblocked] at this
  · rw [hip]
    cases b with
    | true =>
      refine iff_of_true (returns_ok _) fun h => ?_
      cases hip.symm.trans h.address
    | false =>
      change (inspectOpen t p job client >>= _).Returns ↔ _
      rw [returns_bind_iff]
      constructor
      · rintro ⟨t₁, h, -⟩ hreach hfeeds
        rw [inspectOpen, if_pos hreach.state] at h
        exact inspectPayload_returns_iff.mp ⟨t₁, h⟩ hreach.payload hfeeds
      · intro h
        have hopen : (inspectOpen t p job client).Returns := by
          unfold inspectOpen
          split_ifs with hstate
          · exact inspectPayload_returns_iff.mpr fun hpayload => h ⟨hstate, hip, hpayload⟩
          · exact returns_ok _
        obtain ⟨t₁, h₁⟩ := hopen
        refine ⟨t₁, h₁, ?_⟩
        split_ifs <;> exact returns_ok _

/-- Whatever the packet feeds to the reassembler fits. -/
def ScanFits (rules : RuleManager) (fp : FastPathProcessor) (env : PacketEnv)
    (job : PacketJob) : Prop :=
  ∀ t p client, lookupConnection fp.tracker env job = .ok (t, p, client) →
    ReachesInspection rules t p job → FeedsReassembler t p job client → SegmentFits t p job

def IPv4Table (t : ConnectionTracker) : Prop :=
  ∀ k ∈ t.connections, ∃ src dst, k.srcAddr = .v4 src ∧ k.dstAddr = .v4 dst

theorem canonical_isIPv4 (hv4 : job.IsIPv4) :
    ∃ src dst, job.flowKey.canonical.srcAddr = .v4 src ∧
      job.flowKey.canonical.dstAddr = .v4 dst := by
  rw [hv4.2]
  rcases FlowKey.canonical_cases (.fromFiveTuple job.tuple) with h | h <;> rw [h]
  · exact ⟨_, _, rfl, rfl⟩
  · exact ⟨_, _, rfl, rfl⟩

theorem ipBlocked_of_isIPv6 {conn : Connection} {src : IPv6Address}
    (hsrc : conn.flowKey.srcAddr = .v6 src) : ipBlocked rules conn = .error .badVariantAccess := by
  rw [ipBlocked, hsrc]; rfl

theorem follow_ne_blocked {conn : Connection} (h : conn.state ≠ .blocked) :
    (conn.follow env job client).state ≠ .blocked := by
  unfold Connection.follow Connection.followFlags
  split_ifs <;> simp [h]

theorem lookupConnection_returns (hv4 : job.IsIPv4) : (lookupConnection t env job).Returns := by
  have hnew : (newConnection job.flowKey env.createdAt).Returns := by
    rw [hv4.2]; exact returns_ok _
  have hcreate : (t.getOrCreateConnection job.flowKey env).Returns := by
    unfold getOrCreateConnection
    split_ifs
    · exact returns_ok _
    all_goals
      obtain ⟨conn, hconn⟩ := hnew
      exact returns_bind_iff.mpr ⟨conn, hconn, returns_ok _⟩
  obtain ⟨⟨t', p⟩, h⟩ := hcreate
  refine returns_bind_iff.mpr ⟨job.flowKey, if_pos hv4.1, ?_⟩
  exact returns_bind_iff.mpr ⟨(t', p), h, returns_ok _⟩

theorem processPacket_returns_iff_verdict :
    (processPacket rules env job fp).Returns ↔
      ∃ t p client, lookupConnection fp.tracker env job = .ok (t, p, client) ∧
        (verdict rules t p job client).Returns := by
  constructor
  · rintro ⟨fp', h⟩
    obtain ⟨t, p, client, t', action, hlookup, hverdict, -⟩ := processPacket_ok.mp h
    exact ⟨t, p, client, hlookup, _, hverdict⟩
  · rintro ⟨t, p, client, hlookup, ⟨t', action⟩, hverdict⟩
    exact ⟨_, processPacket_ok.mpr ⟨t, p, client, t', action, hlookup, hverdict, rfl⟩⟩

theorem lookupConnection_flowKey (hk : fp.tracker.Keyed)
    (h : lookupConnection fp.tracker env job = .ok (t, p, client)) :
    job.hasFlowKey = true ∧ p = job.flowKey.canonical ∧ (t.conn p).flowKey = p ∧
      (p ∉ fp.tracker.connections → (t.conn p).state ≠ .blocked) := by
  obtain ⟨key, t₁, hkey, hcreate, -, hfollow⟩ := lookupConnection_ok hk h
  have hkeyed := getOrCreateConnection_keyed hk hcreate
  have hmem := getOrCreateConnection_mem hcreate
  obtain ⟨rfl, -, hold⟩ := getOrCreateConnection_ok hcreate
  unfold lookupKey at hkey
  split_ifs at hkey with hhas
  cases hkey
  refine ⟨hhas, rfl, hfollow.flowKey.trans (hkeyed.flowKey _ hmem), fun hnew => ?_⟩
  obtain ⟨hp, -⟩ | ⟨-, ⟨c, hc, hlookup⟩, -⟩ := hold
  · exact absurd hp hnew
  · obtain ⟨tuple, rfl⟩ := newConnection_ok hc
    rw [hfollow.conn, ConnectionTracker.conn, hlookup]
    exact follow_ne_blocked (by simp)

theorem processPacket_returns_iff_scanFits (hk : fp.tracker.Keyed) (hv4 : job.IsIPv4) :
    (processPacket rules env job fp).Returns ↔ ScanFits rules fp env job := by
  rw [processPacket_returns_iff_verdict]
  constructor
  · rintro ⟨t, p, client, hlookup, hreturns⟩ t' p' client' hlookup' hreach hfeeds
    cases hlookup.symm.trans hlookup'
    obtain ⟨-, rfl, hkey, -⟩ := lookupConnection_flowKey hk hlookup
    exact (verdict_returns_iff (ipBlocked_eq hv4 hkey)).mp hreturns hreach hfeeds
  · intro hfits
    obtain ⟨⟨t, p, client⟩, hlookup⟩ := lookupConnection_returns hv4
    obtain ⟨-, rfl, hkey, -⟩ := lookupConnection_flowKey hk hlookup
    exact ⟨t, _, client, hlookup,
      (verdict_returns_iff (ipBlocked_eq hv4 hkey)).mpr (hfits t _ client hlookup)⟩

/-- The processing of a frame returns exactly if it is IPv4 and what it feeds fits. -/
theorem processPacket_returns_iff (hk : fp.tracker.Keyed) (hv4 : IPv4Table fp.tracker)
    (f : Frame) :
    (processPacket rules env f.job fp).Returns ↔ f.IsIPv4 ∧ ScanFits rules fp env f.job := by
  have hisIPv4 (h : (processPacket rules env f.job fp).Returns) : f.IsIPv4 := by
    obtain ⟨t, p, client, hlookup, hreturns⟩ := processPacket_returns_iff_verdict.mp h
    obtain ⟨hhas, rfl, hkey, hnew⟩ := lookupConnection_flowKey hk hlookup
    by_contra hf
    obtain hno | ⟨src, dst, sport, dport, proto, hv6⟩ := f.key_of_not_isIPv4 hf
    · exact absurd hhas (hno ▸ Bool.false_ne_true)
    · have haddr : ∃ a, f.job.flowKey.canonical.srcAddr = .v6 a := by
        rw [hv6]
        rcases FlowKey.canonical_cases (.fromIPv6 src dst sport dport proto) with h | h <;> rw [h]
        · exact ⟨_, rfl⟩
        · exact ⟨_, rfl⟩
      obtain ⟨a, ha⟩ := haddr
      have hfresh : f.job.flowKey.canonical ∉ fp.tracker.connections := by
        intro hmem
        obtain ⟨s, d, hs, -⟩ := hv4 _ hmem
        cases ha.symm.trans hs
      rw [verdict, if_neg (hnew hfresh), ipBlocked_of_isIPv6 (hkey.symm ▸ ha)] at hreturns
      exact not_returns_error _ hreturns
  constructor
  · intro h
    exact ⟨hisIPv4 h, (processPacket_returns_iff_scanFits hk (f.isIPv4_job (hisIPv4 h))).mp h⟩
  · rintro ⟨hf, hfits⟩
    exact (processPacket_returns_iff_scanFits hk (f.isIPv4_job hf)).mpr hfits

def processAll (rules : RuleManager) (fp : FastPathProcessor)
    (l : List (PacketEnv × PacketJob)) : Except Fault FastPathProcessor :=
  l.foldlM (fun fp x => processPacket rules x.1 x.2 fp) fp

theorem processAll_concat (l : List (PacketEnv × PacketJob)) (x : PacketEnv × PacketJob) :
    processAll rules fp (l ++ [x]) = processAll rules fp l >>= processPacket rules x.1 x.2 := by
  simp only [processAll, List.foldlM_append, List.foldlM_cons, List.foldlM_nil, bind_pure]

/-- Each of the jobs was handled by one action, and the counters agree. -/
structure Decided (l : List (PacketEnv × PacketJob)) (fp : FastPathProcessor) : Prop where
  actions : fp.actions.map Prod.fst = l.map Prod.snd
  processed : fp.totalProcessed = l.length
  total : fp.totalProcessed = fp.totalForwarded + fp.totalDropped

theorem processPacket_decided {l : List (PacketEnv × PacketJob)} (hd : Decided l fp)
    (h : processPacket rules env job fp = .ok fp') : Decided (l ++ [(env, job)]) fp' := by
  obtain ⟨t, p, client, t', action, -, -, rfl⟩ := processPacket_ok.mp h
  obtain ⟨hactions, hprocessed, htotal⟩ := hd
  refine ⟨?_, ?_, ?_⟩
  · simp [handleAction, hactions]
  · simp [handleAction, hprocessed]
  · simp only [handleAction]
    split_ifs <;> omega

def jobsOf (l : List (PacketEnv × Frame)) : List (PacketEnv × PacketJob) :=
  l.map fun x => (x.1, x.2.job)

/-- After every prefix of the packets the processing has returned and every packet is decided. -/
def EveryPacketDecided (rules : RuleManager) (l : List (PacketEnv × Frame)) : Prop :=
  ∀ l', l' <+: l → ∃ fp, processAll rules {} (jobsOf l') = .ok fp ∧ Decided (jobsOf l') fp

/-- The frames are IPv4, and what each of them feeds to a reassembler fits. -/
def FramesFit (rules : RuleManager) (l : List (PacketEnv × Frame)) : Prop :=
  ∀ l' env f, l' ++ [(env, f)] <+: l → f.IsIPv4 ∧
    ∀ fp, processAll rules {} (jobsOf l') = .ok fp → ScanFits rules fp env f.job

theorem processAll_jobsOf_concat (l : List (PacketEnv × Frame)) (env : PacketEnv) (f : Frame) :
    processAll rules fp (jobsOf (l ++ [(env, f)])) =
      processAll rules fp (jobsOf l) >>= processPacket rules env f.job := by
  rw [jobsOf, List.map_append]; exact processAll_concat _ _

theorem processPacket_ipv4Table (hk : fp.tracker.Keyed) (hv4 : IPv4Table fp.tracker)
    (hjob : job.IsIPv4) (h : processPacket rules env job fp = .ok fp') :
    IPv4Table fp'.tracker := by
  intro k hmem
  by_cases hkey : k = job.flowKey.canonical
  · rw [hkey]; exact canonical_isIPv4 hjob
  · have hx : ¬ (Input.packet env job).IsPacketOf k := by
      rintro ⟨key, hlookup, rfl⟩
      rw [lookupKey, if_pos hjob.1] at hlookup
      cases hlookup
      exact hkey rfl
    exact hv4 k (step_of_other (x := .packet env job) hk h hx hmem).1

theorem processAll_ipv4Table (l : List (PacketEnv × Frame))
    (h : processAll rules {} (jobsOf l) = .ok fp) :
    fp.tracker.Keyed ∧ IPv4Table fp.tracker ∧ Decided (jobsOf l) fp := by
  induction l using List.reverseRecOn generalizing fp with
  | nil =>
    cases h
    exact ⟨keyed_empty 100000, fun k hk => absurd hk (AList.notMem_empty k), ⟨rfl, rfl, rfl⟩⟩
  | append_singleton l x ih =>
    obtain ⟨env, f⟩ := x
    rw [processAll_jobsOf_concat] at h
    obtain ⟨fp₁, h₁, h⟩ := Except.do_eq_ok_iff.mp h
    obtain ⟨hk, hv4, hd⟩ := ih h₁
    have hf := ((processPacket_returns_iff hk hv4 f).mp ⟨fp, h⟩).1
    refine ⟨step_keyed (x := .packet env f.job) hk h,
      processPacket_ipv4Table hk hv4 (f.isIPv4_job hf) h, ?_⟩
    rw [jobsOf, List.map_append]
    exact processPacket_decided hd h

/--
Every packet is decided exactly if the frames are IPv4 and no segment leaves a ClientHello in
a reassembly buffer whose lengths do not fit.
-/
theorem everyPacketDecided_iff_framesFit (rules : RuleManager) (l : List (PacketEnv × Frame)) :
    EveryPacketDecided rules l ↔ FramesFit rules l := by
  constructor
  · intro h l' env f hpre
    obtain ⟨fp', hall, -⟩ := h _ hpre
    rw [processAll_jobsOf_concat] at hall
    obtain ⟨fp, hfp, hstep⟩ := Except.do_eq_ok_iff.mp hall
    obtain ⟨hk, hv4, -⟩ := processAll_ipv4Table l' hfp
    obtain ⟨hf, hfits⟩ := (processPacket_returns_iff hk hv4 f).mp ⟨fp', hstep⟩
    refine ⟨hf, fun fp₁ h₁ => ?_⟩
    cases hfp.symm.trans h₁
    exact hfits
  · intro h l' hpre
    have hreturns : ∃ fp, processAll rules {} (jobsOf l') = .ok fp := by
      induction l' using List.reverseRecOn with
      | nil => exact ⟨_, rfl⟩
      | append_singleton l' x ih =>
        obtain ⟨env, f⟩ := x
        obtain ⟨fp, hfp⟩ := ih ((List.prefix_append l' _).trans hpre)
        obtain ⟨hk, hv4, -⟩ := processAll_ipv4Table l' hfp
        obtain ⟨hf, hfits⟩ := h l' env f hpre
        obtain ⟨fp', hstep⟩ := (processPacket_returns_iff hk hv4 f).mpr ⟨hf, hfits fp hfp⟩
        exact ⟨fp', by rw [processAll_jobsOf_concat, hfp]; exact hstep⟩
    obtain ⟨fp, hfp⟩ := hreturns
    exact ⟨fp, hfp, (processAll_ipv4Table l' hfp).2.2⟩

def ipv6Frame : Frame where
  raw := udpOverIPv6 0x60
  packetId := 0
  job := ((ParserWorker.parseJob (udpOverIPv6 0x60) 0).value.getD none).getD {}
  built := rfl

/-- The first IPv6 packet makes `std::get` throw. -/
theorem ipv6_packet_throws :
    processAll {} {} (jobsOf [({}, ipv6Frame)]) = .error .badVariantAccess ∧
      ¬ EveryPacketDecided {} [({}, ipv6Frame)] := by
  have hthrows : processAll {} {} (jobsOf [({}, ipv6Frame)]) = .error .badVariantAccess := rfl
  refine ⟨hthrows, fun h => ?_⟩
  obtain ⟨fp, hfp, -⟩ := h _ List.prefix_rfl
  cases hthrows.symm.trans hfp

end DpiEngine.FastPathProcessor
