import DpiEngine.FastPath.Addresses
import DpiEngine.FastPath.FlowHistory
import DpiEngine.FastPath.Hello

/-! # Flows that their first payload decides

A flow starts with packets without payload, and then its client sends one that
names the application. The addresses of the flow decide about all packets, and
what the rules say about the application and its name about this one and those
that follow.
-/

namespace DpiEngine

open Traced Connection FastPathProcessor Except

variable {rules : RuleManager} {env : PacketEnv} {key : FlowKey} {c c' : Connection}
  {entry : Option Connection} {job : PacketJob} {jobs : List PacketJob} {client : Bool}
  {action : PacketAction} {found : AppType × Name} {r : FlowState}

/-- The connection is as it was created, apart from the handshake. -/
structure Connection.Opening (key : FlowKey) (c : Connection) : Prop where
  origin : c.origin = originOf key
  state : c.state = .new ∨ c.state = .established

/-- A packet of the flow that does not reset it. -/
structure Continues (key : FlowKey) (job : PacketJob) : Prop where
  isIPv4 : job.IsIPv4
  canonical : job.flowKey.canonical = key.canonical
  noReset : hasFlag job.tcpFlags TCPFlags.RST = false

/-- The packet neither resets the flow nor completes a handshake. -/
structure Sustains (key : FlowKey) (job : PacketJob) : Prop extends Continues key job where
  noAnswer : hasFlag job.tcpFlags TCPFlags.SYN = false ∨ hasFlag job.tcpFlags TCPFlags.ACK = false

structure Connection.Decided (rules : RuleManager) (key : FlowKey) (found : AppType × Name)
    (c : Connection) : Prop where
  flowKey : c.flowKey = key.canonical
  state : c.state = if FindingBlocked rules found then .blocked else .classified
  appType : c.appType = found.1
  bestDomain : c.bestDomain = found.2

/-- The payload classifies a connection that its client has opened. -/
def Classifies (job : PacketJob) (found : AppType × Name) : Prop :=
  ∀ c : Connection, c.Opening job.flowKey →
    ∃ c', c.inspectPayload job true = .ok c' ∧ c.Finds found c'

namespace Connection

theorem Opening.flowKey (h : c.Opening key) : c.flowKey = key.canonical := congrArg (·.1) h.origin

theorem Opening.unnamed (h : c.Opening key) : c.Unnamed := unnamed_of_origin h.origin

theorem Opening.followFlags {flags : UInt8} (h : c.Opening key)
    (hreset : hasFlag flags TCPFlags.RST = false) : (c.followFlags flags).Opening key := by
  refine ⟨(origin_followFlags c flags).trans h.origin, ?_⟩
  unfold Connection.followFlags
  by_cases hsyn : hasFlag flags TCPFlags.SYN = true
  · rw [if_pos hsyn]
    by_cases hack : hasFlag flags TCPFlags.ACK = true
    · rw [if_pos hack]
      cases c.synSeen with
      | true => exact .inr rfl
      | false => exact h.state
    · rw [if_neg hack]
      exact h.state
  · rw [if_neg hsyn, hreset, if_neg Bool.false_ne_true]
    split_ifs
    · exact h.state
    · exact h.state

theorem Opening.follow (h : c.Opening key) (hreset : hasFlag job.tcpFlags TCPFlags.RST = false) :
    (c.follow env job client).Opening key := by
  have hupdate : (c.update env.seenAt job.data.length client).Opening key :=
    ⟨by simpa [Connection.origin] using h.origin, by simpa using h.state⟩
  unfold Connection.follow
  split_ifs
  · exact hupdate.followFlags hreset
  · exact hupdate

theorem Opening.verdict_quiet (h : c.Opening key) (hjob : Continues key job)
    (hpayload : job.getPayload = none) (haddr : ¬ AddressBlocked rules job) :
    c.verdict rules job client = .ok (c, .forward) := by
  have hip : ipBlocked rules c = .ok (decide (AddressBlocked rules job)) :=
    ipBlocked_eq hjob.isIPv4 (h.flowKey.trans hjob.canonical.symm)
  rw [decide_eq_false haddr] at hip
  rw [verdict_open h.state hip (if_pos hpayload), if_neg]
  exact fun hclassified => (ConnectionState.ne_of_open h.state).2 hclassified.1

theorem Opening.verdict_classifies (h : c.Opening job.flowKey) (hv4 : job.IsIPv4)
    (hfound : Classifies job found) (haddr : ¬ AddressBlocked rules job) :
    ∃ c', c.verdict rules job true =
        .ok (c', if FindingBlocked rules found then .drop else .forward) ∧
      c'.Decided rules job.flowKey found := by
  have hip : ipBlocked rules c = .ok (decide (AddressBlocked rules job)) :=
    ipBlocked_eq hv4 h.flowKey
  rw [decide_eq_false haddr] at hip
  obtain ⟨c', hinspect, hfinds⟩ := hfound c h
  have hkey : c'.flowKey = job.flowKey.canonical := hfinds.flowKey.trans h.flowKey
  rw [verdict_finds h.state hip hinspect hfinds]
  by_cases hblocked : FindingBlocked rules found
  · rw [if_pos hblocked, if_pos hblocked]
    exact ⟨_, rfl, hkey, (if_pos hblocked).symm, hfinds.appType, hfinds.bestDomain⟩
  · rw [if_neg hblocked, if_neg hblocked]
    exact ⟨_, rfl, hkey, hfinds.state.trans (if_neg hblocked).symm, hfinds.appType,
      hfinds.bestDomain⟩

theorem state_follow_sustains (hjob : Sustains key job) (c : Connection) :
    (c.follow env job client).state = c.state := by
  unfold Connection.follow Connection.followFlags
  split_ifs with htcp hsyn hack hseen hfin hrst
  · rcases hjob.noAnswer with hno | hno
    · exact absurd (hno.symm.trans hsyn) Bool.false_ne_true
    · exact absurd (hno.symm.trans hack) Bool.false_ne_true
  · exact state_update ..
  · exact state_update ..
  · exact state_update ..
  · exact absurd (hjob.noReset.symm.trans hrst) Bool.false_ne_true
  · exact state_update ..
  · exact state_update ..

theorem Decided.follow (h : c.Decided rules key found) (hjob : Sustains key job) :
    (c.follow env job client).Decided rules key found := by
  have hprofile : (c.follow env job client).profile = c.profile := profile_follow ..
  constructor
  · rw [flowKey_follow, h.flowKey]
  · rw [state_follow_sustains hjob, h.state]
  · rw [Connection.appType_eq hprofile, h.appType]
  · rw [Connection.bestDomain_eq hprofile, h.bestDomain]

theorem Decided.verdict (h : c.Decided rules key found) (hjob : Sustains key job)
    (haddr : ¬ AddressBlocked rules job) :
    c.verdict rules job client =
      .ok (c, if FindingBlocked rules found then .drop else .forward) := by
  have hstate := h.state
  by_cases hblocked : FindingBlocked rules found
  · rw [if_pos hblocked] at hstate ⊢
    exact verdict_blocked hstate
  · rw [if_neg hblocked] at hstate ⊢
    have hip : ipBlocked rules c = .ok (decide (AddressBlocked rules job)) :=
      ipBlocked_eq hjob.isIPv4 (h.flowKey.trans hjob.canonical.symm)
    rw [decide_eq_false haddr] at hip
    refine verdict_classified hstate hip (Bool.eq_false_iff.mpr fun hcontent => hblocked ?_)
    rw [contentBlocked_iff, h.appType, h.bestDomain] at hcontent
    exact hcontent

end Connection

theorem Continues.flow (h : Continues key job) : job.flow = key.canonical := by
  rw [PacketJob.flow, if_pos h.isIPv4.1, h.canonical]

theorem Continues.addressBlocked {job' : PacketJob} (h : Continues key job)
    (h' : Continues key job') : AddressBlocked rules job ↔ AddressBlocked rules job' := by
  rw [← flowBlocked_canonical h.isIPv4, ← flowBlocked_canonical h'.isIPv4, h.canonical,
    h'.canonical]

/-- The entry is opening, or the packet opens it. -/
def Opens (key : FlowKey) (job : PacketJob) : Option Connection → Prop
  | some c => c.Opening key
  | none => job.flowKey = key

theorem Opens.lookupEntry (hentry : Opens key job entry) (hjob : Continues key job)
    (h : lookupEntry env job entry = .ok (c, client)) :
    c.Opening key ∧ client = decide (job.flowKey = key) := by
  obtain ⟨key', hkey', h⟩ := do_eq_ok_iff.mp h
  rw [lookupKey, if_pos hjob.isIPv4.1] at hkey'
  cases hkey'
  obtain ⟨c₀, hc₀, h⟩ := do_eq_ok_iff.mp h
  cases h
  have hopening : c₀.Opening key := by
    cases entry with
    | some c =>
      cases hc₀
      exact hentry
    | none =>
      obtain ⟨tuple, rfl⟩ := ConnectionTracker.newConnection_ok hc₀
      obtain rfl : job.flowKey = key := hentry
      exact ⟨rfl, .inl rfl⟩
  exact ⟨hopening.follow hjob.noReset,
    isClient_eq (congrArg (·.2.1) hopening.origin) hjob.canonical⟩

theorem receive_quiet (hentry : Opens key job entry) (hjob : Continues key job)
    (hpayload : job.getPayload = none) (haddr : ¬ AddressBlocked rules job)
    (h : receive rules env job entry = .ok (c, action)) : c.Opening key ∧ action = .forward := by
  obtain ⟨⟨c₁, client⟩, hlookup, h⟩ := do_eq_ok_iff.mp h
  obtain ⟨hopening, -⟩ := hentry.lookupEntry hjob hlookup
  cases (hopening.verdict_quiet hjob hpayload haddr).symm.trans h
  exact ⟨hopening, rfl⟩

theorem receive_classifies (hentry : Opens job.flowKey job entry) (hjob : Continues job.flowKey job)
    (hfound : Classifies job found) (haddr : ¬ AddressBlocked rules job)
    (h : receive rules env job entry = .ok (c, action)) : c.Decided rules job.flowKey found ∧
      action = if FindingBlocked rules found then .drop else .forward := by
  obtain ⟨⟨c₁, client⟩, hlookup, h⟩ := do_eq_ok_iff.mp h
  obtain ⟨hopening, rfl⟩ := hentry.lookupEntry hjob hlookup
  rw [decide_eq_true rfl] at h
  obtain ⟨c', hverdict, hdecided⟩ := hopening.verdict_classifies hjob.isIPv4 hfound haddr
  cases hverdict.symm.trans h
  exact ⟨hdecided, rfl⟩

theorem receive_decided (hdecided : c'.Decided rules key found) (hjob : Sustains key job)
    (haddr : ¬ AddressBlocked rules job)
    (h : receive rules env job (some c') = .ok (c, action)) : c.Decided rules key found ∧
      action = if FindingBlocked rules found then .drop else .forward := by
  obtain ⟨⟨c₁, client⟩, hlookup, h⟩ := do_eq_ok_iff.mp h
  obtain ⟨key', -, hlookup⟩ := do_eq_ok_iff.mp hlookup
  cases hlookup
  have hfollow : (c'.follow env job (isClient c' key')).Decided rules key found :=
    hdecided.follow hjob
  cases (hfollow.verdict hjob haddr).symm.trans h
  exact ⟨hfollow, rfl⟩

theorem receive_addressBlocked (hentry : ∀ c ∈ entry, c.flowKey = key.canonical)
    (hjob : Continues key job) (haddr : AddressBlocked rules job)
    (h : receive rules env job entry = .ok (c, action)) :
    c.flowKey = key.canonical ∧ action = .drop := by
  obtain ⟨⟨c₁, client⟩, hlookup, h⟩ := do_eq_ok_iff.mp h
  obtain ⟨key', hkey', hlookup⟩ := do_eq_ok_iff.mp hlookup
  rw [lookupKey, if_pos hjob.isIPv4.1] at hkey'
  cases hkey'
  obtain ⟨c₀, hc₀, hlookup⟩ := do_eq_ok_iff.mp hlookup
  cases hlookup
  have hkey₀ : c₀.flowKey = key.canonical := by
    cases entry with
    | some c =>
      cases hc₀
      exact hentry c₀ rfl
    | none =>
      obtain ⟨tuple, rfl⟩ := ConnectionTracker.newConnection_ok hc₀
      exact hjob.canonical
  obtain ⟨c₁, hc₁⟩ : ∃ c₁, c₁ = c₀.follow env job (isClient c₀ job.flowKey) := ⟨_, rfl⟩
  have hkey₁ : c₁.flowKey = key.canonical := by rw [hc₁, flowKey_follow, hkey₀]
  have hip : ipBlocked rules c₁ = .ok (decide (AddressBlocked rules job)) :=
    ipBlocked_eq hjob.isIPv4 (hkey₁.trans hjob.canonical.symm)
  rw [decide_eq_true haddr] at hip
  dsimp only at h
  rw [← hc₁] at h
  by_cases hstate : c₁.state = .blocked
  · cases (verdict_blocked hstate).symm.trans h
    exact ⟨hkey₁, rfl⟩
  · cases (verdict_ipBlocked hip hstate).symm.trans h
    exact ⟨hkey₁, rfl⟩

theorem passed_concat {actions : List (PacketJob × PacketAction)} :
    passed (actions ++ [(job, action)]) =
      passed actions ++ if action = .drop then [] else [job] := by
  rw [passed, List.filter_append, List.map_append, ← passed]
  congr 1
  by_cases hdrop : action = .drop <;> simp [hdrop]

theorem passed_addressBlocked (hjobs : ∀ job ∈ jobs, Continues key job)
    (haddr : ∀ job ∈ jobs, AddressBlocked rules job) (h : flowHistory rules jobs = .ok r) :
    (∀ c ∈ r.1, c.flowKey = key.canonical) ∧ passed r.2 = [] := by
  induction jobs using List.reverseRecOn generalizing r with
  | nil =>
    cases h
    exact ⟨fun c hc => absurd hc (Option.not_mem_none c), rfl⟩
  | append_singleton jobs job ih =>
    rw [flowHistory_concat, Except.do_eq_ok_iff] at h
    obtain ⟨r₀, hr₀, hstep⟩ := h
    obtain ⟨c, action, hreceive, rfl⟩ := flowStep_ok.mp hstep
    rw [List.forall_mem_append, List.forall_mem_singleton] at hjobs haddr
    obtain ⟨hentry, hpassed⟩ := ih hjobs.1 haddr.1 hr₀
    obtain ⟨hkey, rfl⟩ := receive_addressBlocked hentry hjobs.2 haddr.2 hreceive
    refine ⟨fun c' hc' => ?_, ?_⟩
    · cases hc'
      exact hkey
    · rw [passed_concat, hpassed, if_pos rfl, List.append_nil]

theorem passed_quiet (hjobs : ∀ job ∈ jobs, Continues key job ∧ job.getPayload = none)
    (hfirst : ∀ job ∈ jobs.head?, job.flowKey = key)
    (haddr : ∀ job ∈ jobs, ¬ AddressBlocked rules job) (h : flowHistory rules jobs = .ok r) :
    (∀ c ∈ r.1, c.Opening key) ∧ (r.1 = none → jobs = []) ∧ passed r.2 = jobs := by
  induction jobs using List.reverseRecOn generalizing r with
  | nil =>
    cases h
    exact ⟨fun c hc => absurd hc (Option.not_mem_none c), fun _ => rfl, rfl⟩
  | append_singleton jobs job ih =>
    rw [flowHistory_concat, Except.do_eq_ok_iff] at h
    obtain ⟨r₀, hr₀, hstep⟩ := h
    obtain ⟨c, action, hreceive, rfl⟩ := flowStep_ok.mp hstep
    rw [List.forall_mem_append, List.forall_mem_singleton] at hjobs haddr
    obtain ⟨hopening, hnone, hpassed⟩ := ih hjobs.1
      (fun job' hjob' => hfirst job' (by rw [List.head?_append, hjob', Option.some_or]; rfl))
      haddr.1 hr₀
    have hentry : Opens key job r₀.1 := by
      cases hr : r₀.1 with
      | some c => exact hopening c hr
      | none =>
        obtain rfl := hnone hr
        exact hfirst job rfl
    obtain ⟨hc, rfl⟩ := receive_quiet hentry hjobs.2.1 hjobs.2.2 haddr.2 hreceive
    refine ⟨fun c' hc' => ?_, fun hnone => absurd hnone (Option.some_ne_none c), ?_⟩
    · cases hc'
      exact hc
    · rw [passed_concat, hpassed, if_neg (by decide)]

/-! ### Payloads that classify -/

/-- The application and the name that an inspection of an Initial packet takes from it. -/
def initialFinding (payload : List UInt8) : AppType × Name :=
  match (QUICSNIExtractor.extract payload).value.join with
  | some sni => (sniToAppType sni, sni)
  | none => (.quic, [])

/-- The payload announces an application: as a record with a name in one piece, as a request or
anything else on the port of HTTP, as a query on the port of DNS or as an Initial packet. -/
inductive Announces (job : PacketJob) : AppType × Name → Prop
  | hello {s : Name} (tcp : job.tuple.protocol = 6)
      (ports : job.tuple.srcPort ≠ 80 ∧ job.tuple.dstPort ≠ 80)
      (length_le : job.payload.length ≤ 16384)
      (record : 5 + wordAt job.payload 3 = job.payload.length)
      (name : (SNIExtractor.extract job.payload).value = some (some s)) :
      Announces job (sniToAppType s, s)
  | request (tcp : job.tuple.protocol = 6) (nonempty : job.payload ≠ [])
      (request : (job.tuple.srcPort = 80 ∨ job.tuple.dstPort = 80) ∨
        looksLikeRequest job.payload = true) :
      Announces job (requestFinding job.payload)
  | query {result : DnsResult} (udp : job.tuple.protocol = 17)
      (ports : job.tuple.srcPort = 53 ∨ job.tuple.dstPort = 53)
      (query : (DNSExtractor.extractQuery job.payload).value = some (some result)) :
      Announces job (.dns, result.queryDomain)
  | initial (udp : job.tuple.protocol = 17)
      (ports : job.tuple.srcPort ≠ 53 ∧ job.tuple.dstPort ≠ 53)
      (initial : (QUICSNIExtractor.isQUICInitial job.payload).value = some true) :
      Announces job (initialFinding job.payload)

namespace Connection

variable (hv4 : job.IsIPv4)
include hv4

theorem Opening.protocol_eq (h : c.Opening job.flowKey) :
    c.flowKey.protocol = job.tuple.protocol := by
  rw [h.flowKey, protocol_canonical hv4]

theorem Opening.onPort_eq (h : c.Opening job.flowKey) (port : UInt16) :
    onPort c.flowKey port = true ↔ job.tuple.srcPort = port ∨ job.tuple.dstPort = port := by
  rw [h.flowKey, onPort_canonical hv4, Bool.or_eq_true, decide_eq_true_eq, decide_eq_true_eq]

end Connection

theorem Connection.inspectPayload_updated (hpayload : job.payload ≠ [])
    (h : c.inspectByProtocol job client = .ok (c', true)) :
    c.inspectPayload job client = .ok c' := by
  rw [inspectPayload, if_neg (PacketJob.getPayload_ne_none hpayload), h]
  rfl

theorem Announces.classifies (hv4 : job.IsIPv4) (h : Announces job found) :
    Classifies job found := by
  intro c hc
  have hprotocol := hc.protocol_eq hv4
  have hport := hc.onPort_eq hv4
  have hstate : c.state ≠ .classified := (ConnectionState.ne_of_open hc.state).2
  cases h with
  | @hello s tcp ports length_le record name =>
    have hport80 : onPort c.flowKey 80 = false :=
      Bool.eq_false_iff.mpr fun h80 => ((hport 80).mp h80).elim ports.1 ports.2
    obtain ⟨r, hinspect⟩ := inspectPayload_record (hprotocol.trans tcp) hport80
      (congrArg (·.2.2.2) hc.origin) length_le record name
    exact ⟨_, hinspect, hc.unnamed.finds_sni hstate _ s r⟩
  | request tcp nonempty request =>
    refine ⟨_, inspectPayload_client (hprotocol.trans tcp)
      (PacketJob.getPayload_ne_none nonempty) ?_, hc.unnamed.finds_host hstate _ _⟩
    rw [Bool.or_eq_true, hport]
    exact request
  | @query result udp ports query =>
    have hpayload : job.payload ≠ [] := by
      intro hnil
      rw [hnil] at query
      cases query
    refine ⟨c.classify .dns [] [] result.queryDomain, inspectPayload_updated hpayload ?_, rfl, rfl,
      if_neg hstate, ?_⟩
    · rw [Connection.inspectByProtocol, if_pos (hprotocol.trans udp),
        if_pos ((hport 53).mpr ports), Connection.inspectDNS, checked_eq_ok_iff.mpr query]
      rfl
    · obtain ⟨-, hsni, hhost, hdns⟩ := hc.unnamed
      cases hdomain : result.queryDomain <;>
        simp [Connection.bestDomain, classify, hsni, hhost, hdns]
  | initial udp ports initial =>
    have hpayload : job.payload ≠ [] := by
      intro hnil
      rw [hnil] at initial
      cases initial
    have hport53 : onPort c.flowKey 53 ≠ true := fun h53 =>
      ((hport 53).mp h53).elim ports.1 ports.2
    obtain ⟨name, hname⟩ := checked_of_safe (QUICSNIExtractor.extract_safe job.payload)
    refine ⟨c.classify (initialFinding job.payload).1 (initialFinding job.payload).2 [] [],
      inspectPayload_updated hpayload ?_,
      hc.unnamed.finds_sni hstate _ _ c.tcpReassemblerClient⟩
    rw [Connection.inspectByProtocol, if_pos (hprotocol.trans udp), if_neg hport53,
      Connection.inspectQUIC, checked_eq_ok_iff.mpr initial, hname, initialFinding,
      checked_eq_ok_iff.mp hname]
    cases name <;> rfl

/-! ### The packets of a flow -/

/-- A flow whose packets have no payload until its client announces an application. -/
structure Exchange (key : FlowKey) (found : AppType × Name) (jobs : List PacketJob)
    (job : PacketJob) (rest : List PacketJob) : Prop where
  quiet : ∀ job' ∈ jobs, Continues key job' ∧ job'.getPayload = none
  first : ∀ job' ∈ jobs.head?, job'.flowKey = key
  continues : Continues key job
  flowKey : job.flowKey = key
  announces : Announces job found
  sustains : ∀ job' ∈ rest, Sustains key job'

namespace Exchange

variable {rest : List PacketJob} (hexchange : Exchange key found jobs job rest)
include hexchange

theorem all_continues : ∀ job' ∈ jobs ++ job :: rest, Continues key job' := by
  rw [List.forall_mem_append, List.forall_mem_cons]
  exact ⟨fun job' hjob' => (hexchange.quiet job' hjob').1, hexchange.continues,
    fun job' hjob' => (hexchange.sustains job' hjob').toContinues⟩

/-- The rules decide about the payload and about the packets that follow it. -/
theorem passed_open (haddr : ¬ AddressBlocked rules job)
    (h : flowHistory rules (jobs ++ job :: rest) = .ok r) :
    (∃ c, r.1 = some c ∧ c.Decided rules key found) ∧
      passed r.2 = if FindingBlocked rules found then jobs else jobs ++ job :: rest := by
  have haddrs (job' : PacketJob) (hjob' : Continues key job') : ¬ AddressBlocked rules job' :=
    mt (hjob'.addressBlocked hexchange.continues).mp haddr
  -- the induction is on the packets after the payload, from the last one
  induction rest using List.reverseRecOn generalizing r with
  | nil =>
    rw [flowHistory_concat, Except.do_eq_ok_iff] at h
    obtain ⟨r₀, hr₀, hstep⟩ := h
    obtain ⟨c, action, hreceive, rfl⟩ := flowStep_ok.mp hstep
    obtain ⟨hopening, hnone, hpassed⟩ := passed_quiet hexchange.quiet hexchange.first
      (fun job' hjob' => haddrs job' (hexchange.quiet job' hjob').1) hr₀
    obtain rfl := hexchange.flowKey
    have hentry : Opens job.flowKey job r₀.1 := by
      cases hr : r₀.1 with
      | some c => exact hopening c hr
      | none => rfl
    obtain ⟨hdecided, rfl⟩ :=
      receive_classifies hentry hexchange.continues
        (hexchange.announces.classifies hexchange.continues.isIPv4) haddr hreceive
    refine ⟨⟨c, rfl, hdecided⟩, ?_⟩
    rw [passed_concat, hpassed]
    by_cases hblocked : FindingBlocked rules found
    · simp [hblocked]
    · simp [hblocked]
  | append_singleton rest last ih =>
    have hsustains := hexchange.sustains
    rw [List.forall_mem_append, List.forall_mem_singleton] at hsustains
    have hbefore : Exchange key found jobs job rest := { hexchange with sustains := hsustains.1 }
    rw [← List.cons_append, ← List.append_assoc, flowHistory_concat, Except.do_eq_ok_iff] at h
    obtain ⟨r₀, hr₀, hstep⟩ := h
    obtain ⟨c', action, hreceive, rfl⟩ := flowStep_ok.mp hstep
    obtain ⟨⟨c, hc, hdecided⟩, hpassed⟩ := ih hbefore hr₀
    rw [hc] at hreceive
    obtain ⟨hdecided', rfl⟩ := receive_decided hdecided hsustains.2
      (haddrs last hsustains.2.toContinues) hreceive
    refine ⟨⟨c', rfl, hdecided'⟩, ?_⟩
    rw [passed_concat, hpassed]
    by_cases hblocked : FindingBlocked rules found
    · simp [hblocked]
    · simp [hblocked]

theorem passed_eq (h : flowHistory rules (jobs ++ job :: rest) = .ok r) :
    passed r.2 = if AddressBlocked rules job then []
      else if FindingBlocked rules found then jobs else jobs ++ job :: rest := by
  by_cases haddr : AddressBlocked rules job
  · rw [if_pos haddr]
    have hall := hexchange.all_continues
    exact (passed_addressBlocked hall (fun job' hjob' =>
      ((hall job' hjob').addressBlocked hexchange.continues).mpr haddr) h).2
  · rw [if_neg haddr]
    exact (hexchange.passed_open haddr h).2

end Exchange

end DpiEngine
