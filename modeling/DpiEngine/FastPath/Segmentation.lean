import DpiEngine.FastPath.Hello
import DpiEngine.FastPath.Streams

/-! # Segmentation of a stream

The segments of the stream of a client go through a new connection. It waits
until something is found and then keeps what was found. So a cut changes the
outcome exactly if it changes what is found.
-/

namespace DpiEngine

open FastPathProcessor ConnectionTracker TCPReassembler Except

variable {rules : RuleManager} {env : PacketEnv} {job : PacketJob} {c c' : Connection}
  {tuple : FiveTuple} {seg : Segment} {client : Bool} {found : AppType × Name}

/-- The packet carries a segment of the client, and opens or closes nothing. -/
structure Carries (tuple : FiveTuple) (seg : Segment) (job : PacketJob) : Prop where
  isIPv4 : job.IsIPv4
  tuple_eq : job.tuple = tuple
  protocol : tuple.protocol = 6
  seq : job.tcpSeqNumber = seg.seq
  payload : job.payload = seg.data
  syn : hasFlag job.tcpFlags TCPFlags.SYN = false
  rst : hasFlag job.tcpFlags TCPFlags.RST = false

theorem Carries.flowKey (h : Carries tuple seg job) : job.flowKey = .fromFiveTuple tuple := by
  rw [h.isIPv4.2, h.tuple_eq]

/-- The connection has been classified by what was found, and blocked if the rules say so. -/
structure Settled (rules : RuleManager) (k : FlowKey) (found : AppType × Name) (c : Connection) :
    Prop where
  flowKey : c.flowKey = k
  appType : c.appType = found.1
  bestDomain : c.bestDomain = found.2
  state : FindingBlocked rules found ∧ c.state = .blocked ∨
    ¬ FindingBlocked rules found ∧ c.state = .classified

/-- Nothing has been found in the first `n` packets, whose payload is `buf`. -/
structure Waiting (tuple : FiveTuple) (b : UInt32) (buf : List UInt8) (n : ℕ) (c : Connection) :
    Prop where
  flowKey : c.flowKey = (FlowKey.fromFiveTuple tuple).canonical
  original : c.originalIsCanonical =
    decide (FlowKey.fromFiveTuple tuple = (FlowKey.fromFiveTuple tuple).canonical)
  state : c.state = .new ∨ c.state = .established
  unnamed : c.Unnamed
  packets : c.packetsIn + c.packetsOut = n
  reassembles : ∀ p ≠ [],
    c.tcpReassemblerClient.tryExtractSNI (b + .ofNat buf.length) p =
      (streamed {} b buf).tryExtractSNI (b + .ofNat buf.length) p

namespace Connection

theorem state_follow_carries (h : Carries tuple seg job) (c : Connection) :
    (c.follow env job client).state = c.state := by
  unfold follow followFlags
  rw [h.syn, h.rst]
  split_ifs <;> simp_all

theorem packets_follow (c : Connection) : (c.follow env job client).packetsIn +
    (c.follow env job client).packetsOut = c.packetsIn + c.packetsOut + 1 := by
  rw [← packets_update c env.seenAt job.data.length client]
  unfold follow followFlags
  split_ifs <;> rfl

end Connection

open Connection

theorem Settled.follow (h : Carries tuple seg job) {k : FlowKey} (hc : Settled rules k found c) :
    Settled rules k found (c.follow env job client) := by
  have hprofile := profile_follow c env job client
  refine ⟨(flowKey_follow c env job client).trans hc.flowKey,
    (appType_eq hprofile).trans hc.appType, (bestDomain_eq hprofile).trans hc.bestDomain, ?_⟩
  rw [state_follow_carries h]
  exact hc.state

theorem Waiting.follow (h : Carries tuple seg job) {b : UInt32} {buf : List UInt8} {n : ℕ}
    (hc : Waiting tuple b buf n c) : Waiting tuple b buf (n + 1) (c.follow env job client) := by
  have horigin := origin_follow c env job client
  have hreassembler : (c.follow env job client).tcpReassemblerClient = c.tcpReassemblerClient :=
    congrArg (·.2.2.2) horigin
  refine ⟨(flowKey_follow c env job client).trans hc.flowKey,
    (congrArg (·.2.1) horigin).trans hc.original, ?_,
    hc.unnamed.of_profile (profile_follow c env job client), ?_, ?_⟩
  · rw [state_follow_carries h]
    exact hc.state
  · rw [packets_follow, hc.packets]
  · rw [hreassembler]
    exact hc.reassembles

theorem receive_blocked (h : Carries tuple seg job) (hc : c.state = .blocked) :
    ∃ c' action, receive rules env job (some c) = .ok (c', action) ∧ c'.state = .blocked ∧
      c'.profile = c.profile := by
  have hblocked : (c.follow env job (isClient c job.flowKey)).state = .blocked :=
    (state_follow_carries h c).trans hc
  refine ⟨_, .drop, ?_, hblocked, profile_follow c env job _⟩
  rw [receive_known h.isIPv4, verdict_blocked hblocked]

theorem receive_settled (h : Carries tuple seg job) (haddr : ¬ AddressBlocked rules job)
    (hc : Settled rules job.flowKey.canonical found c) :
    ∃ c' action, receive rules env job (some c) = .ok (c', action) ∧
      Settled rules job.flowKey.canonical found c' := by
  have hc₁ : Settled rules job.flowKey.canonical found
      (c.follow env job (isClient c job.flowKey)) := hc.follow h
  rw [receive_known h.isIPv4]
  rcases hc₁.state with ⟨-, hstate⟩ | ⟨hclean, hstate⟩
  · exact ⟨_, .drop, verdict_blocked hstate, hc₁⟩
  · have hip : ipBlocked rules (c.follow env job (isClient c job.flowKey)) = .ok false := by
      rw [ipBlocked_eq h.isIPv4 hc₁.flowKey, decide_eq_false haddr]
    refine ⟨_, .forward, verdict_classified hstate hip ?_, hc₁⟩
    rw [Bool.eq_false_iff]
    intro hcontent
    apply hclean
    rw [FindingBlocked, ← hc₁.appType, ← hc₁.bestDomain]
    exact contentBlocked_iff.mp hcontent

/-- The ports of the tuple are those of the web. -/
def webPorts (tuple : FiveTuple) : Bool := tuple.srcPort = 80 || tuple.dstPort = 80

section Wait

variable {b : UInt32} {buf : List UInt8} {n : ℕ}

theorem Waiting.tryExtractSNI (hc : Waiting tuple b buf n c)
    (hseq : seg.seq = b + .ofNat buf.length) (hne : seg.data ≠ [])
    (hmax : (buf ++ seg.data).length ≤ 16384) :
    c.tcpReassemblerClient.tryExtractSNI seg.seq seg.data =
      (streamed {} b (buf ++ seg.data), ClientHello.scan (buf ++ seg.data)) := by
  rw [hseq, hc.reassembles _ hne]
  exact tryExtractSNI_streamed hne hmax (lt_of_le_of_lt hmax (by decide))

/-- The connection is settled by what was found, or waits. -/
def Proceeds (rules : RuleManager) (tuple : FiveTuple) (b : UInt32) (buf : List UInt8) (n : ℕ) :
    Option (AppType × Name) → Connection → Prop
  | some found, c => Settled rules (FlowKey.fromFiveTuple tuple).canonical found c
  | none, c => Waiting tuple b buf n c

/-- The next segment is inspected: something is found in it, or the connection goes on waiting. -/
theorem inspect_waiting (h : Carries tuple seg job) (hseq : seg.seq = b + .ofNat buf.length)
    (hne : seg.data ≠ []) (hmax : (buf ++ seg.data).length ≤ 16384)
    (hc : Waiting tuple b buf (n + 1) c) {name : Option Name}
    (hscan : (ClientHello.scan (buf ++ seg.data)).value = some name) :
    ∃ c', c.inspectPayload job true = .ok c' ∧
      match segmentFinding (webPorts tuple) n seg.data name with
      | some found => c.Finds found c'
      | none => Waiting tuple b (buf ++ seg.data) (n + 1) c' := by
  have hkey : c.flowKey = job.flowKey.canonical := by rw [hc.flowKey, h.flowKey]
  have htcp : c.flowKey.protocol = 6 := by
    rw [hkey, protocol_canonical h.isIPv4, h.tuple_eq, h.protocol]
  have hport : onPort c.flowKey 80 = webPorts tuple := by
    rw [hkey, onPort_canonical h.isIPv4, h.tuple_eq]
    rfl
  have hpayload : job.getPayload ≠ none :=
    PacketJob.getPayload_ne_none (by rw [h.payload]; exact hne)
  have hopen : c.state ≠ .classified := (ConnectionState.ne_of_open hc.state).2
  have hcall : c.tcpReassemblerClient.tryExtractSNI job.tcpSeqNumber job.payload =
      (streamed {} b (buf ++ seg.data), ClientHello.scan (buf ++ seg.data)) := by
    rw [h.seq, h.payload, hc.tryExtractSNI hseq hne hmax]
  cases hrequest : webPorts tuple || looksLikeRequest seg.data with
  | true =>
    have hinspect := inspectPayload_client htcp hpayload (by rw [hport, h.payload]; exact hrequest)
    rw [h.payload] at hinspect
    rw [segmentFinding_request hrequest]
    exact ⟨_, hinspect, hc.unnamed.finds_host hopen _ _⟩
  | false =>
    have hrequest' : (onPort c.flowKey 80 || looksLikeRequest job.payload) = false := by
      rw [hport, h.payload, hrequest]
    cases name with
    | some s =>
      rw [segmentFinding_name hrequest]
      exact ⟨_, inspectPayload_hello htcp hpayload hrequest' hcall hscan,
        hc.unnamed.finds_sni hopen _ _ _⟩
    | none =>
      have hinspect := inspectPayload_nothing htcp hpayload hrequest' hcall hscan
      rw [hc.packets] at hinspect
      rw [segmentFinding_none hrequest]
      by_cases hmany : n + 1 > maxInspected
      · rw [if_pos hmany]
        exact ⟨_, hinspect.trans (congrArg Except.ok (if_pos hmany)),
          hc.unnamed.finds_sni hopen .unknown [] _⟩
      · have hunnamed := hc.unnamed
        rw [if_neg hmany]
        exact ⟨_, hinspect.trans (congrArg Except.ok (if_neg hmany)), hc.flowKey, hc.original,
          hc.state, ⟨hunnamed.appType, hunnamed.sni, hunnamed.httpHost, hunnamed.dnsQuery⟩,
          hc.packets, fun _ _ => rfl⟩

/-- The next segment of a waiting connection settles it, or it goes on waiting. -/
theorem receive_waiting (env : PacketEnv) (h : Carries tuple seg job)
    (hseq : seg.seq = b + .ofNat buf.length) (hne : seg.data ≠ [])
    (hmax : (buf ++ seg.data).length ≤ 16384) (haddr : ¬ AddressBlocked rules job)
    (hc : Waiting tuple b buf n c) {name : Option Name}
    (hscan : (ClientHello.scan (buf ++ seg.data)).value = some name) :
    ∃ c' action, receive rules env job (some c) = .ok (c', action) ∧
      Proceeds rules tuple b (buf ++ seg.data) (n + 1)
        (segmentFinding (webPorts tuple) n seg.data name) c' := by
  have hclient : isClient c job.flowKey = true :=
    isClient_of_original (by rw [h.flowKey]; exact hc.original)
  have hwait : Waiting tuple b buf (n + 1) (c.follow env job true) := hc.follow h
  have hip : ipBlocked rules (c.follow env job true) = .ok false := by
    rw [ipBlocked_eq h.isIPv4 (by rw [hwait.flowKey, h.flowKey]), decide_eq_false haddr]
  obtain ⟨c', hinspect, hfinding⟩ := inspect_waiting h hseq hne hmax hwait hscan
  rw [receive_known h.isIPv4, hclient]
  cases hfound : segmentFinding (webPorts tuple) n seg.data name with
  | some found =>
    have hfinds : (c.follow env job true).Finds found c' := by
      rw [hfound] at hfinding
      exact hfinding
    have hkey := hfinds.flowKey.trans hwait.flowKey
    rw [verdict_finds hwait.state hip hinspect hfinds]
    split_ifs with hblocked
    · exact ⟨_, _, rfl, hkey, hfinds.appType, hfinds.bestDomain, .inl ⟨hblocked, rfl⟩⟩
    · exact ⟨_, _, rfl, hkey, hfinds.appType, hfinds.bestDomain, .inr ⟨hblocked, hfinds.state⟩⟩
  | none =>
    have hwait' : Waiting tuple b (buf ++ seg.data) (n + 1) c' := by
      rw [hfound] at hfinding
      exact hfinding
    have hopen : c'.state ≠ .classified := (ConnectionState.ne_of_open hwait'.state).2
    rw [verdict_open hwait.state hip hinspect, if_neg fun hcontent => hopen hcontent.1]
    exact ⟨_, _, rfl, hwait'⟩

end Wait

def receiveAll (rules : RuleManager) (entry : Option Connection)
    (l : List (PacketEnv × PacketJob)) : Except Fault (Option Connection) :=
  l.foldlM (fun entry x => do
    let (conn, _) ← receive rules x.1 x.2 entry
    return some conn) entry

theorem receiveAll_cons {entry : Option Connection} {x : PacketEnv × PacketJob}
    {l : List (PacketEnv × PacketJob)} {action : PacketAction}
    (h : receive rules x.1 x.2 entry = .ok (c, action)) :
    receiveAll rules entry (x :: l) = receiveAll rules (some c) l := by
  rw [receiveAll, List.foldlM_cons, h]
  rfl

theorem processAll_receiveAll (rules : RuleManager) {fp : FastPathProcessor} {key : FlowKey}
    {l : List (PacketEnv × PacketJob)} (hk : fp.tracker.Keyed)
    (hl : ∀ x ∈ l, lookupKey x.2 = .ok key) :
    Related (fun fp' entry => fp'.tracker.connections.lookup key.canonical = entry)
      (processAll rules fp l)
      (receiveAll rules (fp.tracker.connections.lookup key.canonical) l) := by
  induction l generalizing fp with
  | nil => exact .ok rfl
  | cons x l ih =>
    obtain ⟨hx, hl⟩ := List.forall_mem_cons.mp hl
    rw [processAll, receiveAll, List.foldlM_cons, List.foldlM_cons, bind_assoc]
    refine (processPacket_receive hk hx).bind ?_
    rintro fp' ⟨conn, action⟩ hreceived
    have htail := ih hreceived.keyed hl
    rw [hreceived.lookup] at htail
    exact htail

section Run

variable {l : List (PacketEnv × PacketJob)} {segs : List Segment} {b : UInt32}

theorem receiveAll_settled (haddr : ∀ x ∈ l, ¬ AddressBlocked rules x.2)
    (hl : List.Forall₂ (fun seg x => Carries tuple seg x.2) segs l)
    (hc : Settled rules (FlowKey.fromFiveTuple tuple).canonical found c) :
    ∃ c', receiveAll rules (some c) l = .ok (some c') ∧
      Settled rules (FlowKey.fromFiveTuple tuple).canonical found c' := by
  induction hl generalizing c with
  | nil => exact ⟨c, rfl, hc⟩
  | cons hx _ ih =>
    obtain ⟨haddr, hrest⟩ := List.forall_mem_cons.mp haddr
    rw [← hx.flowKey] at hc
    obtain ⟨c', action, hreceive, hc'⟩ := receive_settled hx haddr hc
    rw [receiveAll_cons hreceive]
    rw [hx.flowKey] at hc'
    exact ih hrest hc'

theorem receiveAll_blocked (rules : RuleManager)
    (hl : List.Forall₂ (fun seg x => Carries tuple seg x.2) segs l)
    (hc : c.state = .blocked) : ∃ c', receiveAll rules (some c) l = .ok (some c') ∧
      c'.state = .blocked ∧ c'.profile = c.profile := by
  induction hl generalizing c with
  | nil => exact ⟨c, rfl, hc, rfl⟩
  | cons hx _ ih =>
    obtain ⟨c', action, hreceive, hblocked, hprofile⟩ := receive_blocked hx hc
    obtain ⟨c'', hall, hblocked', hprofile'⟩ := ih hblocked
    rw [receiveAll_cons hreceive]
    exact ⟨c'', hall, hblocked', hprofile'.trans hprofile⟩

theorem receiveAll_waiting {stream buf : List UInt8} {ps : List (List UInt8)} {n : ℕ}
    (hstream : ClientStream stream) (hmax : stream.length ≤ 16384)
    (hsplit : buf ++ ps.flatten = stream) (hne : ∀ p ∈ ps, p ≠ [])
    (haddr : ∀ x ∈ l, ¬ AddressBlocked rules x.2)
    (hl : List.Forall₂ (fun seg x => Carries tuple seg x.2) (inOrder (b + .ofNat buf.length) ps) l)
    (hc : Waiting tuple b buf n c) : ∃ c', receiveAll rules (some c) l = .ok (some c') ∧
      Proceeds rules tuple b stream (n + ps.length) (findingFrom (webPorts tuple) buf n ps) c' := by
  induction ps generalizing l buf n c with
  | nil =>
    cases hl
    rw [List.flatten_nil, List.append_nil] at hsplit
    exact ⟨c, rfl, hsplit ▸ hc⟩
  | cons p ps ih =>
    rw [inOrder] at hl
    cases hl with
    | @cons _ x _ l hx hl =>
      obtain ⟨hp, hps⟩ := List.forall_mem_cons.mp hne
      obtain ⟨haddr, hrest⟩ := List.forall_mem_cons.mp haddr
      have hsplit' : (buf ++ p) ++ ps.flatten = stream := by
        rw [List.append_assoc]
        exact hsplit
      have hlength : (buf ++ p).length ≤ 16384 := by
        rw [← hsplit', List.length_append] at hmax
        omega
      have hseq : b + .ofNat buf.length + .ofNat p.length = b + .ofNat (buf ++ p).length := by
        rw [Machine.add_ofNat_add, List.length_append]
      obtain ⟨c', action, hreceive, hc'⟩ := receive_waiting x.1 hx rfl hp hlength haddr hc
        (hstream.scan_prefix hsplit' (by simp [hp]))
      rw [receiveAll_cons hreceive, findingFrom, hstream.scan_prefix hsplit' (by simp [hp]),
        Option.join_some]
      cases hfound : segmentFinding (webPorts tuple) n p
          (if ps.flatten = [] then helloName stream else none) with
      | some found =>
        rw [hfound] at hc'
        exact receiveAll_settled hrest hl hc'
      | none =>
        rw [hfound] at hc'
        rw [hseq] at hl
        have hcount : n + (p :: ps).length = n + 1 + ps.length := by
          rw [List.length_cons]
          omega
        rw [hcount]
        exact ih hsplit' hps hrest hl hc'

end Run

end DpiEngine
