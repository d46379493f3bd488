import DpiEngine.FastPath.Decided
import DpiEngine.FastPath.Flow
import DpiEngine.Reassembly.Stream

/-! # Payload of the client

What one payload from the client does to a TCP connection that is not yet
classified: an HTTP request classifies it at once, anything else goes through
the reassembler until a name is found or too many packets have passed.
-/

namespace DpiEngine

open Traced FastPathProcessor Except

/-- The payload starts like an HTTP request. -/
def looksLikeRequest (payload : List UInt8) : Bool :=
  (HTTPHostExtractor.isHTTPRequest payload).value = some true

theorem looksLikeRequest_eq (payload : List UInt8) : looksLikeRequest payload =
    (decide (4 ≤ payload.length) && HTTPHostExtractor.methods.contains (payload.take 4)) := by
  unfold looksLikeRequest HTTPHostExtractor.isHTTPRequest
  split_ifs with hlen
  · rw [decide_eq_false (by omega : ¬ 4 ≤ payload.length)]
    rfl
  · rw [value_bind, value_readBytes_of_le (by omega),
      decide_eq_true (by omega : 4 ≤ payload.length)]
    simp

theorem looksLikeRequest_record {payload : List UInt8} (h : byteAt payload 0 = 0x16) :
    looksLikeRequest payload = false := by
  rw [looksLikeRequest_eq]
  cases payload with
  | nil => rfl
  | cons b l =>
    obtain rfl : b = 0x16 := h
    have hmethods : ∀ m ∈ HTTPHostExtractor.methods, m.head? ≠ some 0x16 := by decide
    have hnot : 0x16 :: l.take 3 ∉ HTTPHostExtractor.methods := fun hmem => hmethods _ hmem rfl
    rw [List.take_succ_cons, List.contains_eq_mem, decide_eq_false hnot, Bool.and_false]

/-- The application and the name that an HTTP inspection takes from a payload. -/
def requestFinding (payload : List UInt8) : AppType × Name :=
  match (HTTPHostExtractor.extract payload).value.join with
  | some host => (sniToAppType host, host)
  | none => (.http, [])

theorem PacketJob.getPayload_ne_none {job : PacketJob} (h : job.payload ≠ []) :
    job.getPayload ≠ none := by
  intro hnone
  unfold getPayload at hnone
  split_ifs at hnone with hempty
  apply h
  rcases hempty with hzero | hend
  · rw [payload, hzero, List.take_zero]
  · rw [payload, List.drop_eq_nil_of_le hend, List.take_nil]

theorem contentBlocked_iff {rules : RuleManager} {c : Connection} :
    contentBlocked rules c = true ↔
      rules.isAppBlocked c.appType = true ∨ rules.isDomainBlocked c.bestDomain = true := by
  rw [contentBlocked, Bool.or_eq_true, Bool.and_eq_true]
  refine or_congr_right (and_iff_right_of_imp fun hdomain => ?_)
  cases hempty : c.bestDomain.isEmpty with
  | false => rfl
  | true =>
    rw [RuleManager.isDomainBlocked, if_pos hempty] at hdomain
    cases hdomain

theorem ConnectionState.ne_of_open {s : ConnectionState} (h : s = .new ∨ s = .established) :
    s ≠ .blocked ∧ s ≠ .classified := by
  rcases h with rfl | rfl <;> decide

/-- The rules block what was found. -/
def FindingBlocked (rules : RuleManager) (found : AppType × Name) : Prop :=
  rules.isAppBlocked found.1 = true ∨ rules.isDomainBlocked found.2 = true

instance (rules : RuleManager) (found : AppType × Name) : Decidable (FindingBlocked rules found) :=
  inferInstanceAs (Decidable (_ ∨ _))

namespace Connection

variable {rules : RuleManager} {env : PacketEnv} {job : PacketJob} {c : Connection} {s : Name}
  {client : Bool}

@[simp] theorem tcpReassemblerClient_update (c : Connection) (now size : ℕ) (client : Bool) :
    (c.update now size client).tcpReassemblerClient = c.tcpReassemblerClient := by
  unfold update
  split_ifs <;> rfl

@[simp] theorem originalIsCanonical_update (c : Connection) (now size : ℕ) (client : Bool) :
    (c.update now size client).originalIsCanonical = c.originalIsCanonical := by
  unfold update
  split_ifs <;> rfl

theorem packets_update (c : Connection) (now size : ℕ) (client : Bool) :
    (c.update now size client).packetsIn + (c.update now size client).packetsOut =
      c.packetsIn + c.packetsOut + 1 := by
  unfold update
  split_ifs <;> dsimp only <;> omega

structure Unnamed (c : Connection) : Prop where
  appType : c.appType = .unknown
  sni : c.sni = []
  httpHost : c.httpHost = []
  dnsQuery : c.dnsQuery = []

theorem Unnamed.of_profile {c' : Connection} (h : c.Unnamed) (hp : c'.profile = c.profile) :
    c'.Unnamed := by
  obtain ⟨happ, hp⟩ := Prod.mk.inj hp
  obtain ⟨hsni, hp⟩ := Prod.mk.inj hp
  obtain ⟨hhost, hquery⟩ := Prod.mk.inj hp
  exact ⟨happ.trans h.appType, hsni.trans h.sni, hhost.trans h.httpHost, hquery.trans h.dnsQuery⟩

theorem Unnamed.bestDomain (h : c.Unnamed) : c.bestDomain = [] := by
  rw [Connection.bestDomain, h.sni, h.httpHost, h.dnsQuery]
  rfl

/-- The connection has been classified by a payload, for the first time. -/
structure Finds (c : Connection) (finding : AppType × Name) (c' : Connection) : Prop where
  flowKey : c'.flowKey = c.flowKey
  state : c'.state = .classified
  appType : c'.appType = finding.1
  bestDomain : c'.bestDomain = finding.2

theorem Unnamed.finds_sni (h : c.Unnamed) (hstate : c.state ≠ .classified) (app : AppType)
    (s : Name) (r : TCPReassembler) :
    c.Finds (app, s) { c.classify app s [] [] with tcpReassemblerClient := r } := by
  refine ⟨rfl, rfl, if_neg hstate, ?_⟩
  cases s <;> simp [Connection.bestDomain, classify, h.sni, h.httpHost, h.dnsQuery]

theorem Unnamed.finds_host (h : c.Unnamed) (hstate : c.state ≠ .classified) (app : AppType)
    (host : Name) : c.Finds (app, host) (c.classify app [] host []) := by
  refine ⟨rfl, rfl, if_neg hstate, ?_⟩
  cases host <;> simp [Connection.bestDomain, classify, h.sni, h.httpHost, h.dnsQuery]

section Inspection

variable (c)

theorem inspectHTTP_eq (payload : List UInt8) :
    c.inspectHTTP payload = .ok (c.classify (requestFinding payload).1 []
      (requestFinding payload).2 [], true) := by
  obtain ⟨host, h⟩ := checked_of_safe (HTTPHostExtractor.extract_safe payload)
  rw [inspectHTTP, h, requestFinding, checked_eq_ok_iff.mp h]
  cases host <;> rfl

theorem checked_isHTTPRequest (payload : List UInt8) :
    checked (HTTPHostExtractor.isHTTPRequest payload) = .ok (looksLikeRequest payload) := by
  obtain ⟨isRequest, h⟩ := checked_of_safe (HTTPHostExtractor.isHTTPRequest_safe payload)
  rw [looksLikeRequest, h, checked_eq_ok_iff.mp h]
  cases isRequest <;> rfl

variable {c}

theorem inspectTLS_eq {seq : UInt32} {payload : List UInt8} {r : TCPReassembler}
    {x : Traced (Option Name)} {name : Option Name}
    (hcall : c.tcpReassemblerClient.tryExtractSNI seq payload = (r, x)) (hx : x.value = some name) :
    c.inspectTLS seq payload = .ok (match name with
      | some s =>
        ({ c.classify (sniToAppType s) s [] [] with tcpReassemblerClient := r.clear }, true)
      | none => ({ c with tcpReassemblerClient := r }, false)) := by
  rw [inspectTLS, hcall]
  dsimp only
  rw [checked_eq_ok_iff.mpr hx]
  cases name <;> rfl

theorem inspectByProtocol_client (htcp : c.flowKey.protocol = 6) (job : PacketJob) :
    c.inspectByProtocol job true =
      if onPort c.flowKey 80 || looksLikeRequest job.payload then c.inspectHTTP job.payload
      else c.inspectTLS job.tcpSeqNumber job.payload := by
  rw [inspectByProtocol, if_neg (by rw [htcp]; decide), if_pos ⟨htcp, rfl⟩, checked_isHTTPRequest]
  cases onPort c.flowKey 80 <;> cases looksLikeRequest job.payload <;> rfl

theorem inspectPayload_client (htcp : c.flowKey.protocol = 6) (hpayload : job.getPayload ≠ none)
    (hrequest : (onPort c.flowKey 80 || looksLikeRequest job.payload) = true) :
    c.inspectPayload job true = .ok (c.classify (requestFinding job.payload).1 []
      (requestFinding job.payload).2 []) := by
  rw [inspectPayload, if_neg hpayload, inspectByProtocol_client htcp, if_pos hrequest,
    inspectHTTP_eq]
  rfl

theorem inspectPayload_hello {r : TCPReassembler} {x : Traced (Option Name)}
    (htcp : c.flowKey.protocol = 6) (hpayload : job.getPayload ≠ none)
    (hrequest : (onPort c.flowKey 80 || looksLikeRequest job.payload) = false)
    (hcall : c.tcpReassemblerClient.tryExtractSNI job.tcpSeqNumber job.payload = (r, x))
    (hx : x.value = some (some s)) : c.inspectPayload job true =
      .ok { c.classify (sniToAppType s) s [] [] with tcpReassemblerClient := r.clear } := by
  rw [inspectPayload, if_neg hpayload, inspectByProtocol_client htcp, hrequest, if_neg (by simp),
    inspectTLS_eq hcall hx]
  rfl

theorem inspectPayload_nothing {r : TCPReassembler} {x : Traced (Option Name)}
    (htcp : c.flowKey.protocol = 6) (hpayload : job.getPayload ≠ none)
    (hrequest : (onPort c.flowKey 80 || looksLikeRequest job.payload) = false)
    (hcall : c.tcpReassemblerClient.tryExtractSNI job.tcpSeqNumber job.payload = (r, x))
    (hx : x.value = some none) : c.inspectPayload job true =
      .ok (if c.packetsIn + c.packetsOut > 10 then
        { c with tcpReassemblerClient := r }.classify .unknown [] [] []
      else { c with tcpReassemblerClient := r }) := by
  rw [inspectPayload, if_neg hpayload, inspectByProtocol_client htcp, hrequest, if_neg (by simp),
    inspectTLS_eq hcall hx]
  by_cases hmany : c.packetsIn + c.packetsOut > 10
  · rw [if_pos hmany]
    exact if_pos ⟨rfl, hmany⟩
  · rw [if_neg hmany]
    exact if_neg fun h => hmany h.2

end Inspection

/-- A record with a name that is the first payload of its connection classifies it. -/
theorem inspectPayload_record (htcp : c.flowKey.protocol = 6) (hport : onPort c.flowKey 80 = false)
    (hfresh : c.tcpReassemblerClient = .fresh {}) (hmax : job.payload.length ≤ 16384)
    (hrecord : 5 + wordAt job.payload 3 = job.payload.length)
    (hs : (SNIExtractor.extract job.payload).value = some (some s)) :
    ∃ r, c.inspectPayload job true =
      .ok { c.classify (sniToAppType s) s [] [] with tcpReassemblerClient := r } := by
  have hpayload : job.payload ≠ [] := by
    intro hnil
    rw [hnil, List.length_nil] at hrecord
    omega
  have hcontent : byteAt job.payload 0 = 0x16 := (SNIExtractor.hasHello_of_extract hs).contentType
  have hrequest : (onPort c.flowKey 80 || looksLikeRequest job.payload) = false := by
    rw [hport, looksLikeRequest_record hcontent, Bool.or_false]
  have hcall : c.tcpReassemblerClient.tryExtractSNI job.tcpSeqNumber job.payload =
      (.streamed {} job.tcpSeqNumber job.payload, ClientHello.scan job.payload) := by
    rw [hfresh, TCPReassembler.tryExtractSNI_fresh hpayload]
    exact TCPReassembler.tryExtractSNI_streamed hpayload hmax (lt_of_le_of_lt hmax (by decide))
  exact ⟨_, inspectPayload_hello htcp (PacketJob.getPayload_ne_none hpayload) hrequest hcall
    (ClientHello.scan_of_extract hrecord hs)⟩

theorem verdict_open (hstate : c.state = .new ∨ c.state = .established)
    (hip : ipBlocked rules c = .ok false) {c' : Connection}
    (hinspect : c.inspectPayload job client = .ok c') :
    c.verdict rules job client = .ok (if c'.state = .classified ∧ contentBlocked rules c' then
      (c'.block, .drop) else (c', .forward)) := by
  have hblocked : c.state ≠ .blocked := (ConnectionState.ne_of_open hstate).1
  have hopen : c.inspectOpen job client = .ok c' := (if_pos hstate).trans hinspect
  rw [verdict, if_neg hblocked, hip]
  change (c.inspectOpen job client >>= _) = _
  rw [hopen]
  by_cases hcontent : c'.state = .classified ∧ contentBlocked rules c' = true
  · rw [if_pos hcontent]
    exact if_pos hcontent
  · rw [if_neg hcontent]
    exact if_neg hcontent

/-- An open connection is decided by the payload that classifies it. -/
theorem verdict_finds (hopen : c.state = .new ∨ c.state = .established)
    (hip : ipBlocked rules c = .ok false) {c' : Connection} {found : AppType × Name}
    (hinspect : c.inspectPayload job client = .ok c') (hfinds : c.Finds found c') :
    c.verdict rules job client =
      .ok (if FindingBlocked rules found then (c'.block, .drop) else (c', .forward)) := by
  rw [verdict_open hopen hip hinspect]
  have hblocked : contentBlocked rules c' = true ↔ FindingBlocked rules found := by
    rw [contentBlocked_iff, hfinds.appType, hfinds.bestDomain]
    rfl
  exact congrArg Except.ok (if_congr ((and_iff_right hfinds.state).trans hblocked) rfl rfl)

theorem verdict_classified (hstate : c.state = .classified) (hip : ipBlocked rules c = .ok false)
    (hcontent : contentBlocked rules c = false) :
    c.verdict rules job client = .ok (c, .forward) := by
  have hopen : c.inspectOpen job client = .ok c := if_neg (by rw [hstate]; decide)
  rw [verdict, if_neg (by rw [hstate]; decide), hip]
  change (c.inspectOpen job client >>= _) = _
  rw [hopen]
  exact if_neg fun h => Bool.false_ne_true (hcontent.symm.trans h.2)

theorem verdict_blocked (hstate : c.state = .blocked) :
    c.verdict rules job client = .ok (c, .drop) := if_pos hstate

theorem verdict_ipBlocked (hip : ipBlocked rules c = .ok true) (hstate : c.state ≠ .blocked) :
    c.verdict rules job client = .ok (c.block, .drop) := by
  rw [verdict, if_neg hstate, hip]
  rfl

end Connection

end DpiEngine
