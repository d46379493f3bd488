import DpiEngine.FastPath.Hello
import DpiEngine.FastPath.Isolation

/-! # Names that are read

A packet whose payload holds a name is forwarded only if the rules let the name
pass, as long as its connection is still inspected. A connection that has been
classified is not: there later names pass unread.
-/

namespace DpiEngine

open Traced ConnectionTracker FastPathProcessor

/-- The name that the inspectors read in the payload: of a DNS query, of a QUIC ClientHello, or the
host of an HTTP request. -/
def PacketJob.readName (job : PacketJob) (client : Bool) : Option Name :=
  if job.tuple.protocol = 17 then
    if job.tuple.srcPort = 53 ∨ job.tuple.dstPort = 53 then
      (DNSExtractor.extractQuery job.payload).value.join.map DnsResult.queryDomain
    else (QUICSNIExtractor.extract job.payload).value.join
  else if job.tuple.protocol = 6 ∧ client = true then
    (HTTPHostExtractor.extract job.payload).value.join
  else none

theorem PacketJob.payload_ne_nil {job : PacketJob} {client : Bool} {d : Name}
    (h : job.readName client = some d) : job.payload ≠ [] := by
  intro hnil
  unfold readName at h
  rw [hnil] at h
  split_ifs at h <;> cases h

section Extractors

variable {payload : List UInt8} {d : Name}

theorem looksLikeRequest_of_extract
    (h : (HTTPHostExtractor.extract payload).value = some (some d)) :
    looksLikeRequest payload = true := by
  have hvalue := checked_eq_ok_iff.mp (Connection.checked_isHTTPRequest payload)
  rw [HTTPHostExtractor.extract, value_bind, hvalue] at h
  cases hrequest : looksLikeRequest payload with
  | true => rfl
  | false =>
    rw [hrequest] at h
    cases h

theorem isQUICInitial_of_extract
    (h : (QUICSNIExtractor.extract payload).value = some (some d)) :
    checked (QUICSNIExtractor.isQUICInitial payload) = .ok true := by
  obtain ⟨isInitial, hinitial⟩ := checked_of_safe (QUICSNIExtractor.isQUICInitial_safe payload)
  rw [QUICSNIExtractor.extract, value_bind, checked_eq_ok_iff.mp hinitial] at h
  cases isInitial with
  | true => exact hinitial
  | false => cases h

end Extractors

namespace Connection

variable {rules : RuleManager} {job : PacketJob} {client : Bool} {c : Connection} {d : Name}

/-- No name would be preferred to one that is read now. -/
structure Nameless (c : Connection) (protocol : UInt8) : Prop where
  sni : c.sni = []
  httpHost : protocol ≠ 6 → c.httpHost = []

theorem inspectPayload_reads (hv4 : job.IsIPv4) (hkey : c.flowKey = job.flowKey.canonical)
    (hnameless : c.Nameless job.tuple.protocol) (hread : job.readName client = some d)
    (hd : d ≠ []) :
    ∃ c', c.inspectPayload job client = .ok c' ∧ c'.state = .classified ∧ c'.bestDomain = d := by
  have hpayload : job.getPayload ≠ none :=
    PacketJob.getPayload_ne_none (PacketJob.payload_ne_nil hread)
  have hprotocol : c.flowKey.protocol = job.tuple.protocol := by
    rw [hkey, protocol_canonical hv4]
  have hports : onPort c.flowKey 53 = true ↔ job.tuple.srcPort = 53 ∨ job.tuple.dstPort = 53 := by
    rw [hkey, onPort_canonical hv4, Bool.or_eq_true, decide_eq_true_eq, decide_eq_true_eq]
  obtain ⟨b, s, rfl⟩ := List.exists_cons_of_ne_nil hd
  -- an inspection that classifies is the last word on the payload
  have hupdated {c' : Connection} (h : c.inspectByProtocol job client = .ok (c', true)) :
      c.inspectPayload job client = .ok c' := by
    rw [inspectPayload, if_neg hpayload, h]
    rfl
  unfold PacketJob.readName at hread
  split_ifs at hread with hudp hdns htcp
  · obtain ⟨r, hr, hname⟩ := Option.map_eq_some_iff.mp hread
    have hquery := checked_eq_ok_iff.mpr (Option.join_eq_some_iff.mp hr)
    have hhost := hnameless.httpHost (by rw [hudp]; decide)
    refine ⟨c.classify .dns [] [] r.queryDomain, hupdated ?_, rfl, ?_⟩
    · rw [inspectByProtocol, if_pos (hprotocol.trans hudp), if_pos (hports.mpr hdns), inspectDNS,
        hquery]
      rfl
    · simp [bestDomain, classify, hnameless.sni, hhost, hname]
  · have hvalue := Option.join_eq_some_iff.mp hread
    refine ⟨c.classify (sniToAppType (b :: s)) (b :: s) [] [], hupdated ?_, rfl, rfl⟩
    rw [inspectByProtocol, if_pos (hprotocol.trans hudp), if_neg (mt hports.mp hdns), inspectQUIC,
      isQUICInitial_of_extract hvalue, checked_eq_ok_iff.mpr hvalue]
    rfl
  · obtain ⟨htcp, rfl⟩ := htcp
    have hvalue := Option.join_eq_some_iff.mp hread
    have hrequest : (onPort c.flowKey 80 || looksLikeRequest job.payload) = true := by
      rw [looksLikeRequest_of_extract hvalue, Bool.or_true]
    refine ⟨_, inspectPayload_client (hprotocol.trans htcp) hpayload hrequest, rfl, ?_⟩
    simp [bestDomain, classify, requestFinding, hvalue, hnameless.sni]

theorem verdict_reads (hv4 : job.IsIPv4) (hkey : c.flowKey = job.flowKey.canonical)
    (hopen : c.state = .new ∨ c.state = .established)
    (hnameless : c.Nameless job.tuple.protocol) (hread : job.readName client = some d)
    (hblocked : rules.isDomainBlocked d = true) :
    ∃ c', c.verdict rules job client = .ok (c', .drop) := by
  have hd : d ≠ [] := by
    rintro rfl
    cases hblocked
  obtain ⟨c', hinspect, hclass, hname⟩ := inspectPayload_reads hv4 hkey hnameless hread hd
  have hip : ipBlocked rules c = .ok (decide (AddressBlocked rules job)) := ipBlocked_eq hv4 hkey
  by_cases haddr : AddressBlocked rules job
  · rw [decide_eq_true haddr] at hip
    exact ⟨_, verdict_ipBlocked hip (ConnectionState.ne_of_open hopen).1⟩
  · rw [decide_eq_false haddr] at hip
    have hcontent : contentBlocked rules c' = true :=
      contentBlocked_iff.mpr (.inr (hname ▸ hblocked))
    rw [verdict_open hopen hip hinspect, if_pos ⟨hclass, hcontent⟩]
    exact ⟨_, rfl⟩

end Connection

namespace FastPathProcessor

variable {rules : RuleManager} {env : PacketEnv} {job : PacketJob} {fp fp' u v : FastPathProcessor}
  {t : ConnectionTracker} {k p : FlowKey} {client : Bool} {x : Input} {l : List Input} {d : Name}

def OpenUnnamed (k : FlowKey) (c : Connection) : Prop :=
  k.protocol ≠ 6 → c.state = .new ∨ c.state = .established → c.Unnamed

theorem lookupConnection_openUnnamed (hk : fp.tracker.Keyed) (hv4 : job.IsIPv4)
    (hopen : ∀ k ∈ fp.tracker.connections, OpenUnnamed k (fp.tracker.conn k))
    (h : lookupConnection fp.tracker env job = .ok (t, p, client)) :
    p = job.flowKey.canonical ∧ (t.conn p).flowKey = p ∧ OpenUnnamed p (t.conn p) := by
  obtain ⟨key, t₁, hkey, hcreate, -, hfollow⟩ := lookupConnection_ok hk h
  have hkeyed := getOrCreateConnection_keyed hk hcreate
  have hmem := getOrCreateConnection_mem hcreate
  obtain rfl : key = job.flowKey := by
    rw [lookupKey, if_pos hv4.1] at hkey
    cases hkey
    rfl
  obtain ⟨rfl, -, hold⟩ := getOrCreateConnection_ok hcreate
  refine ⟨rfl, hfollow.flowKey.trans (hkeyed.flowKey _ hmem), fun hother hstate => ?_⟩
  have hnotcp : job.tuple.protocol ≠ 6 := by
    rwa [protocol_canonical hv4] at hother
  rw [hfollow.conn] at hstate ⊢
  have hsame : ((t₁.conn job.flowKey.canonical).follow env job client).state =
      (t₁.conn job.flowKey.canonical).state := by
    rw [Connection.follow, if_neg hnotcp, Connection.state_update]
  rw [hsame] at hstate
  have hunnamed : (t₁.conn job.flowKey.canonical).Unnamed := by
    obtain ⟨hp, rfl⟩ | ⟨-, ⟨c, hc, hlookup⟩, -⟩ := hold
    · exact hopen _ hp hother hstate
    · obtain ⟨tuple, rfl⟩ := newConnection_ok hc
      rw [ConnectionTracker.conn, hlookup]
      exact ⟨rfl, rfl, rfl, rfl⟩
  exact hunnamed.of_profile (Connection.profile_follow _ _ _ _)

theorem processPacket_openUnnamed (hk : fp.tracker.Keyed) (hv4 : job.IsIPv4)
    (hopen : ∀ k ∈ fp.tracker.connections, OpenUnnamed k (fp.tracker.conn k))
    (h : processPacket rules env job fp = .ok fp') :
    OpenUnnamed job.flowKey.canonical (fp'.tracker.conn job.flowKey.canonical) := by
  obtain ⟨t, p, client, t', action, hlookup, hverdict, rfl⟩ := processPacket_ok.mp h
  obtain ⟨rfl, -, hunnamed⟩ := lookupConnection_openUnnamed hk hv4 hopen hlookup
  rintro hother hstate
  change (t'.conn job.flowKey.canonical).state = .new ∨
    (t'.conn job.flowKey.canonical).state = .established at hstate
  rcases verdict_ok hverdict with
    ⟨-, rfl, -⟩ | ⟨-, -, rfl, -⟩ | ⟨-, -, t₁, ht₁, ⟨-, -, rfl, -⟩ | ⟨-, rfl, -⟩⟩
  · exact hunnamed hother hstate
  · have hblocked := congrArg Connection.state (conn_blockConnection t job.flowKey.canonical)
    exact absurd hblocked (ConnectionState.ne_of_open hstate).1
  · have hblocked := congrArg Connection.state (conn_blockConnection t₁ job.flowKey.canonical)
    exact absurd hblocked (ConnectionState.ne_of_open hstate).1
  · rcases ht₁.settled with hclass | ⟨hsame, hprofile⟩
    · exact absurd hclass (ConnectionState.ne_of_open hstate).2
    · rw [hsame] at hstate
      exact (hunnamed hother hstate).of_profile hprofile

theorem run_openUnnamed (hl : ∀ x ∈ l, x.IsIPv4) (h : Run (Step rules) {} l fp) :
    fp.tracker.Keyed ∧ ∀ k ∈ fp.tracker.connections, OpenUnnamed k (fp.tracker.conn k) := by
  have hstep {s a t} (hs : s.tracker.Keyed ∧ ∀ k ∈ s.tracker.connections,
      OpenUnnamed k (s.tracker.conn k)) (h : a.IsIPv4 ∧ Step rules s a t) :
      t.tracker.Keyed ∧ ∀ k ∈ t.tracker.connections, OpenUnnamed k (t.tracker.conn k) := by
    refine ⟨step_keyed hs.1 h.2, step_entries (P := OpenUnnamed) hs.1 h.2 hs.2 ?_⟩
    rintro env job k rfl ⟨key, hkey, rfl⟩
    have hv4 : job.IsIPv4 := h.1
    rw [lookupKey, if_pos hv4.1] at hkey
    cases hkey
    exact processPacket_openUnnamed hs.1 hv4 hs.2 h.2
  exact Run.invariant (I := fun fp => fp.tracker.Keyed ∧ ∀ k ∈ fp.tracker.connections,
    OpenUnnamed k (fp.tracker.conn k)) hstep (h.with_labels hl)
    ⟨keyed_empty 100000, fun k hk => absurd hk (AList.notMem_empty k)⟩

/--
A packet that is forwarded while its connection is inspected holds no blocked name, provided that
no server name of an earlier ClientHello takes precedence.
-/
theorem forward_reads_unblocked (rules : RuleManager) (l : List Input) (u v : FastPathProcessor)
    (env : PacketEnv) (job : PacketJob) (t : ConnectionTracker) (p : FlowKey) (client : Bool)
    (d : Name) (hl : ∀ x ∈ l, x.IsIPv4) (hrun : Run (Step rules) {} l u) (hv4 : job.IsIPv4)
    (hstep : Step rules u (.packet env job) v)
    (hforward : v.actions = u.actions ++ [(job, .forward)])
    (hlookup : lookupConnection u.tracker env job = .ok (t, p, client))
    (hopen : (t.conn p).state = .new ∨ (t.conn p).state = .established)
    (hsni : job.tuple.protocol = 6 → (t.conn p).sni = []) (hread : job.readName client = some d) :
    rules.isDomainBlocked d = false := by
  obtain ⟨hk, hunnamed⟩ := run_openUnnamed hl hrun
  obtain ⟨rfl, hkey, hunnamed⟩ := lookupConnection_openUnnamed hk hv4 hunnamed hlookup
  have hnameless : (t.conn job.flowKey.canonical).Nameless job.tuple.protocol := by
    by_cases htcp : job.tuple.protocol = 6
    · exact ⟨hsni htcp, fun hne => absurd htcp hne⟩
    · have hother := hunnamed (by rwa [protocol_canonical hv4]) hopen
      exact ⟨hother.sni, fun _ => hother.httpHost⟩
  by_contra hblocked
  rw [Bool.not_eq_false] at hblocked
  obtain ⟨c', hdrop⟩ := Connection.verdict_reads hv4 hkey hopen hnameless hread hblocked
  obtain ⟨⟨t', action⟩, hverdict, -, rfl⟩ := (verdict_alike rules job client).ok_of hdrop
  obtain ⟨_, _, _, _, _, hlookup', hverdict', rfl⟩ := processPacket_ok.mp hstep
  cases hlookup.symm.trans hlookup'
  cases hverdict.symm.trans hverdict'
  cases List.append_cancel_left hforward

def requestTo (host : String) : PacketJob :=
  segmentJob 80 1 TCPFlags.ACK (ascii "GET /\nHost: " ++ ascii host ++ ascii "\n\n")

/-- The first request passes, so its host is not blocked. -/
theorem forward_reads_unblocked_request : ∃ v,
    Step (domainRule (ascii "a.b")) {} (.packet {} (requestTo "c.b")) v ∧
      v.actions = [(requestTo "c.b", .forward)] ∧
      (domainRule (ascii "a.b")).isDomainBlocked (ascii "c.b") = false := by
  refine ⟨_, rfl, rfl, ?_⟩
  exact forward_reads_unblocked (domainRule (ascii "a.b")) [] {} _ {} (requestTo "c.b") _ _ true
    (ascii "c.b") (fun _ hx => absurd hx List.not_mem_nil) (.nil _) ⟨rfl, rfl⟩ rfl rfl rfl
    (.inl rfl)
    (fun _ => rfl) rfl

/-- The second request of a connection passes, although its host is blocked. -/
theorem second_request_forwarded :
    ¬ ∀ (rules : RuleManager) (l : List Input) (u v : FastPathProcessor) (env : PacketEnv)
      (job : PacketJob) (t : ConnectionTracker) (p : FlowKey) (client : Bool) (d : Name),
      (∀ x ∈ l, x.IsIPv4) → Run (Step rules) {} l u → job.IsIPv4 →
        Step rules u (.packet env job) v → v.actions = u.actions ++ [(job, .forward)] →
        lookupConnection u.tracker env job = .ok (t, p, client) → job.readName client = some d →
        rules.isDomainBlocked d = false := by
  intro h
  have hl : ∀ x ∈ [Input.packet {} (requestTo "c.b")], x.IsIPv4 := by
    rintro x hx
    obtain rfl := List.mem_singleton.mp hx
    exact ⟨rfl, rfl⟩
  have hunblocked := h (domainRule (ascii "a.b")) _ _ _ {} (requestTo "a.b") _ _ true (ascii "a.b")
    hl (.cons rfl (.nil _)) ⟨rfl, rfl⟩ rfl rfl rfl rfl
  exact absurd hunblocked (by decide)

end FastPathProcessor

end DpiEngine
