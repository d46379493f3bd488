import DpiEngine.Traffic.Payloads

/-! # The exchanges of the generator

The parser workers accept all packets of an exchange. The last packet decides:
the ClientHello announces the server name, the request its host and the query
its domain. The attempt to connect has no payload.
-/

namespace DpiEngine

open Traced

namespace PacketJob.Carries

variable {job : PacketJob} {tuple t : FiveTuple} {flags : UInt8} {payload frame : List UInt8}

theorem flowKey (h : job.Carries tuple flags payload frame) :
    job.flowKey = .fromFiveTuple tuple := by
  rw [h.isIPv4.2, h.tuple]

theorem continues (h : job.Carries tuple flags payload frame) (ht : tuple = t ∨ tuple = t.reverse)
    (hreset : hasFlag flags TCPFlags.RST = false) : Continues (.fromFiveTuple t) job where
  isIPv4 := h.isIPv4
  canonical := by
    rw [h.flowKey]
    rcases ht with rfl | rfl
    · rfl
    · exact FlowKey.canonical_reverse (.fromFiveTuple t)
  noReset := by rw [h.flags, hreset]

theorem quiet (h : job.Carries tuple flags [] frame) : job.getPayload = none := by
  by_contra hsome
  unfold PacketJob.getPayload at hsome
  split_ifs at hsome with hnone
  · exact hsome rfl
  · have hlength := congrArg List.length h.payload
    rw [PacketJob.payload, List.length_take, List.length_drop, List.length_nil] at hlength
    omega

end PacketJob.Carries

namespace TestPcap

def Exchange.tuple (e : Exchange) : FiveTuple :=
  match e.subject with
  | .tls dstIp _ dstPort _ | .http dstIp _ dstPort => tcpTuple userIp dstIp e.srcPort dstPort
  | .dns _ _ => udpTuple userIp dnsServer e.srcPort 53
  | .blocked => tcpTuple blockedSourceIp blockedDstIp e.srcPort 443

def Exchange.key (e : Exchange) : FlowKey := .fromFiveTuple e.tuple

def Exchange.finding (e : Exchange) : Option (AppType × Name) :=
  match e.subject with
  | .tls _ sni _ _ => some (sniToAppType (serverName sni), serverName sni)
  | .http _ host _ => some (sniToAppType (encode host), encode host)
  | .dns domain _ => some (.dns, encode domain)
  | .blocked => none

/-- The names of the exchange can be read back. A ClientHello has at most 16384 bytes and is not
sent to the port of HTTP. -/
def Exchange.Plain (e : Exchange) : Prop :=
  match e.subject with
  | .tls _ sni dstPort _ => dstPort ≠ 80 ∧ sni.length ≤ 16314
  | .http _ host _ => PlainHost (encode host)
  | .dns domain _ => PlainDomain domain
  | .blocked => True

inductive Exchange.Sends (e : Exchange) : List PacketJob → Prop
  | tls {dstIp : Octets} {sni : List Char} {dstPort : ℕ} {random : Vector UInt8 32}
      {syn synAck ack hello : PacketJob} {payload f₀ f₁ f₂ f₃ : List UInt8}
      (subject : e.subject = .tls dstIp sni dstPort random) (port_lt : dstPort < 2 ^ 16)
      (record : createTlsClientHello random sni = some payload)
      (opens : syn.Carries e.tuple 0x02 [] f₀) (answers : synAck.Carries e.tuple.reverse 0x12 [] f₁)
      (acks : ack.Carries e.tuple 0x10 [] f₂) (greets : hello.Carries e.tuple 0x18 payload f₃) :
      e.Sends [syn, synAck, ack, hello]
  | http {dstIp : Octets} {host : List Char} {dstPort : ℕ} {syn request : PacketJob}
      {f₀ f₁ : List UInt8} (subject : e.subject = .http dstIp host dstPort)
      (opens : syn.Carries e.tuple 0x02 [] f₀)
      (requests : request.Carries e.tuple 0x18 (createHttpRequest host ['/']) f₁) :
      e.Sends [syn, request]
  | dns {domain : List Char} {txid : UInt16} {query : PacketJob} {payload f₀ : List UInt8}
      (subject : e.subject = .dns domain txid)
      (question : createDnsQuery txid domain = some payload)
      (queries : query.Carries e.tuple 0 payload f₀) : e.Sends [query]
  | blocked {syn : PacketJob} {f₀ : List UInt8} (subject : e.subject = .blocked)
      (opens : syn.Carries e.tuple 0x02 [] f₀) : e.Sends [syn]

variable {e : Exchange} {seqBase : ℕ} {frames : List (List UInt8)} {raws : List RawPacketJob}
  {jobs : List PacketJob} {rules : RuleManager} {r : FlowState}

section Packets

variable {ident : UInt16} {srcMac dstMac : MacAddress} {srcIp dstIp : Octets}
  {srcPort dstPort seq ack : ℕ} {flags : UInt8} {data frame : List UInt8}
  {sni host domain : List Char} {random : Vector UInt8 32} {txid : UInt16}

theorem accepted_tcp (h : tcpPacket ident srcMac dstMac srcIp dstIp srcPort dstPort seq ack flags
    data = some frame) (hraws : raws.map (·.data) = frame :: frames) :
    dstPort < 2 ^ 16 ∧ ∃ job raws', job.Carries (tcpTuple srcIp dstIp srcPort dstPort) flags data
      frame ∧ DPIEngine.acceptedJobs raws = job :: DPIEngine.acceptedJobs raws' ∧
        raws'.map (·.data) = frames := by
  obtain ⟨raw, raws', rfl, rfl, hrest⟩ := List.map_eq_cons_iff.mp hraws
  obtain ⟨hport, job, hjob, hcarries⟩ := tcpPacket_job h
  exact ⟨hport, job, raws', hcarries, List.filterMap_cons_some hjob, hrest⟩

theorem accepted_udp (h : udpPacket ident srcMac dstMac srcIp dstIp srcPort dstPort data =
    some frame) (hraws : raws.map (·.data) = frame :: frames) :
    ∃ job raws', job.Carries (udpTuple srcIp dstIp srcPort dstPort) 0 data frame ∧
      DPIEngine.acceptedJobs raws = job :: DPIEngine.acceptedJobs raws' ∧
        raws'.map (·.data) = frames := by
  obtain ⟨raw, raws', rfl, rfl, hrest⟩ := List.map_eq_cons_iff.mp hraws
  obtain ⟨job, hjob, hcarries⟩ := udpPacket_job h
  exact ⟨job, raws', hcarries, List.filterMap_cons_some hjob, hrest⟩

/-- The accepted packets of the frames are those of the exchange. -/
def Exchange.Accepted (e : Exchange) (raws : List RawPacketJob) (frames : List (List UInt8)) :
    Prop :=
  ∃ jobs, DPIEngine.acceptedJobs raws = jobs ∧ jobs.map (·.data) = frames ∧ e.Sends jobs

theorem Exchange.accepted_tls (subject : e.subject = .tls dstIp sni dstPort random)
    (h : e.packets seqBase = some frames) (hraws : raws.map (·.data) = frames) :
    e.Accepted raws frames := by
  simp only [packets, subject] at h
  obtain ⟨f₀, h₀, h⟩ := Option.bind_eq_some_iff.mp h
  obtain ⟨f₁, h₁, h⟩ := Option.bind_eq_some_iff.mp h
  obtain ⟨f₂, h₂, h⟩ := Option.bind_eq_some_iff.mp h
  obtain ⟨payload, hpayload, h⟩ := Option.bind_eq_some_iff.mp h
  obtain ⟨f₃, h₃, h⟩ := Option.bind_eq_some_iff.mp h
  obtain rfl : [f₀, f₁, f₂, f₃] = frames := Option.some.inj h
  obtain ⟨hport, syn, raws₁, hsyn, hjobs₀, hraws₁⟩ := accepted_tcp h₀ hraws
  obtain ⟨-, synAck, raws₂, hsynAck, hjobs₁, hraws₂⟩ := accepted_tcp h₁ hraws₁
  obtain ⟨-, ack, raws₃, hack, hjobs₂, hraws₃⟩ := accepted_tcp h₂ hraws₂
  obtain ⟨-, hello, raws₄, hhello, hjobs₃, hraws₄⟩ := accepted_tcp h₃ hraws₃
  obtain rfl := List.map_eq_nil_iff.mp hraws₄
  have htuple : e.tuple = tcpTuple userIp dstIp e.srcPort dstPort := by
    rw [tuple, subject]
  have hreverse : e.tuple.reverse = tcpTuple dstIp userIp dstPort e.srcPort := by
    rw [htuple]
    rfl
  rw [← htuple] at hsyn hack hhello
  rw [← hreverse] at hsynAck
  refine ⟨[syn, synAck, ack, hello], ?_, ?_, .tls subject hport hpayload hsyn hsynAck hack hhello⟩
  · rw [hjobs₀, hjobs₁, hjobs₂, hjobs₃]
    rfl
  · simp [hsyn.data, hsynAck.data, hack.data, hhello.data]

theorem Exchange.accepted_http (subject : e.subject = .http dstIp host dstPort)
    (h : e.packets seqBase = some frames) (hraws : raws.map (·.data) = frames) :
    e.Accepted raws frames := by
  simp only [packets, subject] at h
  obtain ⟨f₀, h₀, h⟩ := Option.bind_eq_some_iff.mp h
  obtain ⟨f₁, h₁, h⟩ := Option.bind_eq_some_iff.mp h
  obtain rfl : [f₀, f₁] = frames := Option.some.inj h
  obtain ⟨-, syn, raws₁, hsyn, hjobs₀, hraws₁⟩ := accepted_tcp h₀ hraws
  obtain ⟨-, request, raws₂, hrequest, hjobs₁, hraws₂⟩ := accepted_tcp h₁ hraws₁
  obtain rfl := List.map_eq_nil_iff.mp hraws₂
  have htuple : e.tuple = tcpTuple userIp dstIp e.srcPort dstPort := by
    rw [tuple, subject]
  rw [← htuple] at hsyn hrequest
  refine ⟨[syn, request], ?_, ?_, .http subject hsyn hrequest⟩
  · rw [hjobs₀, hjobs₁]
    rfl
  · simp [hsyn.data, hrequest.data]

theorem Exchange.accepted_dns (subject : e.subject = .dns domain txid)
    (h : e.packets seqBase = some frames) (hraws : raws.map (·.data) = frames) :
    e.Accepted raws frames := by
  simp only [packets, subject] at h
  obtain ⟨payload, hpayload, h⟩ := Option.bind_eq_some_iff.mp h
  obtain ⟨f₀, h₀, h⟩ := Option.bind_eq_some_iff.mp h
  obtain rfl : [f₀] = frames := Option.some.inj h
  obtain ⟨query, raws₁, hquery, hjobs, hraws₁⟩ := accepted_udp h₀ hraws
  obtain rfl := List.map_eq_nil_iff.mp hraws₁
  have htuple : e.tuple = udpTuple userIp dnsServer e.srcPort 53 := by
    rw [tuple, subject]
  rw [← htuple] at hquery
  exact ⟨[query], hjobs, by simp [hquery.data], .dns subject hpayload hquery⟩

theorem Exchange.accepted_blocked (subject : e.subject = .blocked)
    (h : e.packets seqBase = some frames) (hraws : raws.map (·.data) = frames) :
    e.Accepted raws frames := by
  simp only [packets, subject] at h
  obtain ⟨f₀, h₀, h⟩ := Option.bind_eq_some_iff.mp h
  obtain rfl : [f₀] = frames := Option.some.inj h
  obtain ⟨-, syn, raws₁, hsyn, hjobs, hraws₁⟩ := accepted_tcp h₀ hraws
  obtain rfl := List.map_eq_nil_iff.mp hraws₁
  have htuple : e.tuple = tcpTuple blockedSourceIp blockedDstIp e.srcPort 443 := by
    rw [tuple, subject]
  rw [← htuple] at hsyn
  exact ⟨[syn], hjobs, by simp [hsyn.data], .blocked subject hsyn⟩

/-- The parser workers accept every packet of an exchange. -/
theorem Exchange.accepted (h : e.packets seqBase = some frames)
    (hraws : raws.map (·.data) = frames) : e.Accepted raws frames := by
  cases hsubject : e.subject with
  | tls dstIp sni dstPort random => exact accepted_tls hsubject h hraws
  | http dstIp host dstPort => exact accepted_http hsubject h hraws
  | dns domain txid => exact accepted_dns hsubject h hraws
  | blocked => exact accepted_blocked hsubject h hraws

end Packets

theorem Exchange.Sends.flow (h : e.Sends jobs) : ∀ job ∈ jobs, job.flow = e.key.canonical := by
  cases h with
  | tls subject port_lt record opens answers acks greets =>
    rw [List.forall_mem_cons, List.forall_mem_cons, List.forall_mem_cons,
      List.forall_mem_singleton]
    exact ⟨(opens.continues (.inl rfl) rfl).flow, (answers.continues (.inr rfl) rfl).flow,
      (acks.continues (.inl rfl) rfl).flow, (greets.continues (.inl rfl) rfl).flow⟩
  | http subject opens requests =>
    rw [List.forall_mem_cons, List.forall_mem_singleton]
    exact ⟨(opens.continues (.inl rfl) rfl).flow, (requests.continues (.inl rfl) rfl).flow⟩
  | dns subject question queries =>
    exact List.forall_mem_singleton.mpr (queries.continues (.inl rfl) rfl).flow
  | blocked subject opens =>
    exact List.forall_mem_singleton.mpr (opens.continues (.inl rfl) rfl).flow

/-- A rule blocks an address of the exchange. -/
def Exchange.AddressBlocked (rules : RuleManager) (e : Exchange) : Prop :=
  rules.isIPBlocked e.tuple.srcIp = true ∨ rules.isIPBlocked e.tuple.dstIp = true

instance (rules : RuleManager) (e : Exchange) : Decidable (e.AddressBlocked rules) :=
  inferInstanceAs (Decidable (_ ∨ _))

/-- The rules block what the exchange announces. -/
def Exchange.FindingBlocked (rules : RuleManager) (e : Exchange) : Prop :=
  ∃ found ∈ e.finding, DpiEngine.FindingBlocked rules found

instance (rules : RuleManager) (e : Exchange) : Decidable (e.FindingBlocked rules) :=
  match h : e.finding with
  | none => isFalse (by simp [Exchange.FindingBlocked, h])
  | some found =>
    decidable_of_iff (DpiEngine.FindingBlocked rules found) (by simp [Exchange.FindingBlocked, h])

theorem Exchange.addressBlocked_iff {job : PacketJob} {flags : UInt8} {payload frame : List UInt8}
    (h : job.Carries e.tuple flags payload frame) :
    FastPathProcessor.AddressBlocked rules job ↔ e.AddressBlocked rules := by
  rw [FastPathProcessor.AddressBlocked, h.tuple]
  rfl

theorem Exchange.passed_announced {found : AppType × Name} {job : PacketJob} {flags : UInt8}
    {payload frame : List UInt8} (hfinding : e.finding = some found)
    (hexchange : DpiEngine.Exchange e.key found jobs job [])
    (hjob : job.Carries e.tuple flags payload frame)
    (h : flowHistory rules (jobs ++ [job]) = .ok r) :
    passed r.2 = if e.AddressBlocked rules then []
      else if e.FindingBlocked rules then (jobs ++ [job]).dropLast else jobs ++ [job] := by
  have hblocked : DpiEngine.FindingBlocked rules found ↔ e.FindingBlocked rules := by
    simp [Exchange.FindingBlocked, hfinding]
  rw [hexchange.passed_eq h, List.dropLast_concat]
  exact if_congr (addressBlocked_iff hjob) rfl (if_congr hblocked rfl rfl)

section Kinds

variable {dstIp : Octets} {dstPort : ℕ} {sni host domain : List Char} {random : Vector UInt8 32}
  {txid : UInt16} {syn synAck ack last : PacketJob} {payload f₀ f₁ f₂ f₃ : List UInt8}

theorem Exchange.exchange_tls (hplain : e.Plain)
    (subject : e.subject = .tls dstIp sni dstPort random) (port_lt : dstPort < 2 ^ 16)
    (record : createTlsClientHello random sni = some payload)
    (opens : syn.Carries e.tuple 0x02 [] f₀) (answers : synAck.Carries e.tuple.reverse 0x12 [] f₁)
    (acks : ack.Carries e.tuple 0x10 [] f₂) (greets : last.Carries e.tuple 0x18 payload f₃) :
    DpiEngine.Exchange e.key (sniToAppType (serverName sni), serverName sni) [syn, synAck, ack]
      last [] := by
  rw [Exchange.Plain, subject] at hplain
  obtain ⟨hport, hmax⟩ := hplain
  obtain ⟨hname, rfl⟩ := createTlsClientHello_some record
  have htuple : e.tuple = tcpTuple userIp dstIp e.srcPort dstPort := by
    rw [tuple, subject]
  have hports : last.tuple.srcPort ≠ 80 ∧ last.tuple.dstPort ≠ 80 := by
    have hge := e.srcPort_ge
    have hle := e.srcPort_le
    rw [greets.tuple, htuple]
    constructor
    · exact port_ne_http (by omega) (by omega)
    · exact port_ne_http port_lt hport
  refine ⟨?_, ?_, greets.continues (.inl rfl) rfl, greets.flowKey, ?_, List.forall_mem_nil _⟩
  · rw [List.forall_mem_cons, List.forall_mem_cons, List.forall_mem_singleton]
    exact ⟨⟨opens.continues (.inl rfl) rfl, opens.quiet⟩,
      ⟨answers.continues (.inr rfl) rfl, answers.quiet⟩,
      ⟨acks.continues (.inl rfl) rfl, acks.quiet⟩⟩
  · intro job hjob
    cases hjob
    exact opens.flowKey
  · exact announces_helloRecord hname greets.payload (by rw [greets.tuple, htuple]; rfl) hports
      (by rw [serverName, List.length_map]; exact hmax)

theorem Exchange.exchange_http (hplain : e.Plain) (subject : e.subject = .http dstIp host dstPort)
    (opens : syn.Carries e.tuple 0x02 [] f₀)
    (requests : last.Carries e.tuple 0x18 (createHttpRequest host ['/']) f₁) :
    DpiEngine.Exchange e.key (sniToAppType (encode host), encode host) [syn] last [] := by
  rw [Exchange.Plain, subject] at hplain
  have hextract := extract_createHttpRequest hplain
  rw [← requests.payload] at hextract
  have htuple : e.tuple = tcpTuple userIp dstIp e.srcPort dstPort := by
    rw [tuple, subject]
  have hfinding : requestFinding last.payload = (sniToAppType (encode host), encode host) := by
    rw [requestFinding, hextract]
    rfl
  refine ⟨List.forall_mem_singleton.mpr ⟨opens.continues (.inl rfl) rfl, opens.quiet⟩, ?_,
    requests.continues (.inl rfl) rfl, requests.flowKey, ?_, List.forall_mem_nil _⟩
  · intro job hjob
    cases hjob
    exact opens.flowKey
  · rw [← hfinding]
    refine .request (by rw [requests.tuple, htuple]; rfl) ?_
      (.inr (looksLikeRequest_of_extract hextract))
    intro hnil
    rw [hnil] at hextract
    cases hextract

theorem Exchange.exchange_dns (hplain : e.Plain) (subject : e.subject = .dns domain txid)
    (question : createDnsQuery txid domain = some payload)
    (queries : last.Carries e.tuple 0 payload f₀) :
    DpiEngine.Exchange e.key (.dns, encode domain) [] last [] := by
  rw [Exchange.Plain, subject] at hplain
  obtain ⟨result, hquery, hdomain⟩ := extractQuery_createDnsQuery hplain question
  rw [← queries.payload] at hquery
  have htuple : e.tuple = udpTuple userIp dnsServer e.srcPort 53 := by
    rw [tuple, subject]
  refine ⟨List.forall_mem_nil _, fun job hjob => absurd hjob (Option.not_mem_none job),
    queries.continues (.inl rfl) rfl, queries.flowKey, ?_, List.forall_mem_nil _⟩
  rw [← hdomain]
  exact .query (by rw [queries.tuple, htuple]; rfl) (.inr (by rw [queries.tuple, htuple]; rfl))
    hquery

theorem Exchange.passed_blocked (subject : e.subject = .blocked)
    (opens : syn.Carries e.tuple 0x02 [] f₀) (h : flowHistory rules [syn] = .ok r) :
    passed r.2 = if e.AddressBlocked rules then []
      else if e.FindingBlocked rules then [syn].dropLast else [syn] := by
  have hcontinues : Continues e.key syn := opens.continues (.inl rfl) rfl
  have hopen : ¬ e.FindingBlocked rules := by
    simp [Exchange.FindingBlocked, finding, subject]
  rw [if_neg hopen]
  by_cases haddr : e.AddressBlocked rules
  · rw [if_pos haddr]
    exact (passed_addressBlocked (List.forall_mem_singleton.mpr hcontinues)
      (List.forall_mem_singleton.mpr ((addressBlocked_iff opens).mpr haddr)) h).2
  · rw [if_neg haddr]
    refine (passed_quiet (List.forall_mem_singleton.mpr ⟨hcontinues, opens.quiet⟩)
      (fun job hjob => ?_)
      (List.forall_mem_singleton.mpr (mt (addressBlocked_iff opens).mp haddr)) h).2.2
    cases hjob
    exact opens.flowKey

end Kinds

/-- What the processors let pass of an exchange. -/
theorem Exchange.Sends.passed_eq (hsends : e.Sends jobs) (hplain : e.Plain)
    (h : flowHistory rules jobs = .ok r) :
    passed r.2 = if e.AddressBlocked rules then []
      else if e.FindingBlocked rules then jobs.dropLast else jobs := by
  cases hsends with
  | tls subject port_lt record opens answers acks greets =>
    have hexchange := exchange_tls hplain subject port_lt record opens answers acks greets
    exact passed_announced (by rw [finding, subject]) hexchange greets h
  | http subject opens requests =>
    have hexchange := exchange_http hplain subject opens requests
    exact passed_announced (by rw [finding, subject]) hexchange requests h
  | dns subject question queries =>
    have hexchange := exchange_dns hplain subject question queries
    exact passed_announced (by rw [finding, subject]) hexchange queries h
  | blocked subject opens => exact passed_blocked subject opens h

end TestPcap

end DpiEngine
