import DpiEngine.FastPath.Client

/-! # The packet with the ClientHello

A connection whose packets have had no payload is as it was created. The first
payload from its client, if it is a record with a name, then decides by this
name, whatever else the processor has seen.
-/

namespace DpiEngine

open Traced FastPathProcessor ConnectionTracker Except

variable {rules : RuleManager} {env : PacketEnv} {job : PacketJob} {c c' : Connection}
  {key : FlowKey}
  {client : Bool} {action : PacketAction}

namespace Connection

def origin (c : Connection) : FlowKey × Bool × (AppType × Name × Name × Name) × TCPReassembler :=
  (c.flowKey, c.originalIsCanonical, c.profile, c.tcpReassemblerClient)

def originOf (key : FlowKey) : FlowKey × Bool × (AppType × Name × Name × Name) × TCPReassembler :=
  (key.canonical, key = key.canonical, (.unknown, [], [], []), {})

theorem origin_followFlags (c : Connection) (flags : UInt8) :
    (c.followFlags flags).origin = c.origin := by
  unfold followFlags
  split_ifs <;> rfl

theorem origin_follow (c : Connection) (env : PacketEnv) (job : PacketJob) (client : Bool) :
    (c.follow env job client).origin = c.origin := by
  have hupdate : (c.update env.seenAt job.data.length client).origin = c.origin := by
    simp [origin]
  unfold follow
  split_ifs
  · rw [origin_followFlags, hupdate]
  · exact hupdate

theorem verdict_silent (hpayload : job.getPayload = none)
    (h : c.verdict rules job client = .ok (c', action)) : c'.origin = c.origin := by
  have hopen : c.inspectOpen job client = .ok c := by
    unfold inspectOpen
    split_ifs
    · exact if_pos hpayload
    · rfl
  unfold verdict at h
  split_ifs at h
  · cases h
    rfl
  · obtain ⟨ip, -, h⟩ := do_eq_ok_iff.mp h
    cases ip with
    | true =>
      cases h
      rfl
    | false =>
      obtain ⟨c₁, hc₁, h⟩ := do_eq_ok_iff.mp h
      obtain rfl : c = c₁ := Except.ok.inj (hopen.symm.trans hc₁)
      split_ifs at h <;> cases h <;> rfl

end Connection

open Connection

theorem receive_silent (hpayload : job.getPayload = none)
    (h : receive rules env job (some c) = .ok (c', action)) : c'.origin = c.origin := by
  obtain ⟨⟨c₁, client⟩, hlookup, h⟩ := do_eq_ok_iff.mp h
  obtain ⟨key, -, hlookup⟩ := do_eq_ok_iff.mp hlookup
  cases hlookup
  rw [verdict_silent hpayload h, origin_follow]

theorem receive_new (hkey : lookupKey job = .ok key) (hpayload : job.getPayload = none)
    (h : receive rules env job none = .ok (c', action)) : c'.origin = originOf key := by
  obtain ⟨⟨c₁, client⟩, hlookup, h⟩ := do_eq_ok_iff.mp h
  obtain ⟨key', hkey', hlookup⟩ := do_eq_ok_iff.mp hlookup
  cases hkey.symm.trans hkey'
  obtain ⟨c₀, hc₀, hlookup⟩ := do_eq_ok_iff.mp hlookup
  obtain ⟨tuple, rfl⟩ := newConnection_ok hc₀
  cases hlookup
  rw [verdict_silent hpayload h, origin_follow]
  rfl

namespace FastPathProcessor

variable {fp fp' : FastPathProcessor} {k : FlowKey} {x : Input} {r : Connection × PacketAction}

theorem Received.drops_iff (h : Received fp job k fp' r) : Drops fp job fp' ↔ r.2 = .drop := by
  rw [Drops, h.actions]
  simp

def Silent (k : FlowKey) (x : Input) : Prop :=
  ∀ env job, x = .packet env job → JobOf k job → job.getPayload = none

theorem step_silent (hk : fp.tracker.Keyed) (hmem : k ∈ fp.tracker.connections) (hx : Silent k x)
    (h : Step rules fp x fp') (hmem' : k ∈ fp'.tracker.connections) :
    (fp'.tracker.conn k).origin = (fp.tracker.conn k).origin := by
  by_cases hof : x.IsPacketOf k
  · cases x with
    | cleanup now => exact hof.elim
    | packet env job =>
      have hpayload := hx env job rfl hof
      obtain ⟨key, hkey, rfl⟩ := hof
      obtain ⟨⟨c, action⟩, hreceive, hreceived⟩ := (processPacket_receive hk hkey).of_ok h
      obtain ⟨c₀, hc₀⟩ := Option.isSome_iff_exists.mp (AList.lookup_isSome.mpr hmem)
      rw [hc₀] at hreceive
      rw [hreceived.conn, ConnectionTracker.conn, hc₀]
      exact receive_silent hpayload hreceive
  · rw [(step_of_other hk h hof hmem').2]

/--
The entry of a flow was created by a packet with this key, it has stayed since, and no packet
of the flow has had payload.
-/
def OpenedBy (rules : RuleManager) (key : FlowKey) (fp : FastPathProcessor) : Prop :=
  ∃ l₁ env job l₂ s s', Run (Step rules) {} l₁ s ∧ key.canonical ∉ s.tracker.connections ∧
    lookupKey job = .ok key ∧ job.getPayload = none ∧ Step rules s (.packet env job) s' ∧
    Run (fun u x v => Step rules u x v ∧ key.canonical ∈ v.tracker.connections ∧
      Silent key.canonical x) s' l₂ fp

theorem OpenedBy.entry (h : OpenedBy rules key fp) : fp.tracker.Keyed ∧
    ∃ c, fp.tracker.connections.lookup key.canonical = some c ∧ c.origin = originOf key := by
  obtain ⟨l₁, env, job, l₂, s, s', hs, hnew, hkey, hpayload, hstep, hrun⟩ := h
  have hks : s.tracker.Keyed := run_keyed hs
  obtain ⟨⟨c, action⟩, hreceive, hreceived⟩ := (processPacket_receive hks hkey).of_ok hstep
  rw [AList.lookup_eq_none.mpr hnew] at hreceive
  have hstart : s'.tracker.Keyed ∧ key.canonical ∈ s'.tracker.connections ∧
      (s'.tracker.conn key.canonical).origin = originOf key := by
    refine ⟨step_keyed hks hstep, hreceived.mem, ?_⟩
    rw [hreceived.conn]
    exact receive_new hkey hpayload hreceive
  have hinv {u x v} (hu : u.tracker.Keyed ∧ key.canonical ∈ u.tracker.connections ∧
      (u.tracker.conn key.canonical).origin = originOf key)
      (hx : Step rules u x v ∧ key.canonical ∈ v.tracker.connections ∧ Silent key.canonical x) :
      v.tracker.Keyed ∧ key.canonical ∈ v.tracker.connections ∧
        (v.tracker.conn key.canonical).origin = originOf key := by
    obtain ⟨hk, hmem, horigin⟩ := hu
    obtain ⟨hstep, hmem', hsilent⟩ := hx
    exact ⟨step_keyed hk hstep, hmem', (step_silent hk hmem hsilent hstep hmem').trans horigin⟩
  obtain ⟨hk, hmem, horigin⟩ := Run.invariant (I := fun u => u.tracker.Keyed ∧
    key.canonical ∈ u.tracker.connections ∧ (u.tracker.conn key.canonical).origin = originOf key)
    hinv hrun hstart
  obtain ⟨c, hc⟩ := Option.isSome_iff_exists.mp (AList.lookup_isSome.mpr hmem)
  rw [ConnectionTracker.conn, hc] at horigin
  exact ⟨hk, c, hc, horigin⟩

theorem isClient_of_original (h : c.originalIsCanonical = decide (key = key.canonical)) :
    isClient c key = true := by
  rw [isClient, h]
  by_cases hkey : key = key.canonical
  · rw [decide_eq_true hkey, if_pos rfl, decide_eq_true hkey.symm]
  · rw [decide_eq_false hkey, if_neg Bool.false_ne_true, decide_eq_true (Ne.symm hkey)]

theorem follow_of_flags (htcp : job.tuple.protocol = 6)
    (hsyn : hasFlag job.tcpFlags TCPFlags.SYN = false)
    (hfin : hasFlag job.tcpFlags TCPFlags.FIN = false)
    (hrst : hasFlag job.tcpFlags TCPFlags.RST = false) (c : Connection) :
    c.follow env job client = c.update env.seenAt job.data.length client := by
  rw [follow, if_pos htcp, followFlags, hsyn, hfin, hrst]
  rfl

theorem onPort_canonical (hv4 : job.IsIPv4) (port : UInt16) :
    onPort job.flowKey.canonical port =
      (decide (job.tuple.srcPort = port) || decide (job.tuple.dstPort = port)) := by
  rw [hv4.2]
  rcases FlowKey.canonical_cases (.fromFiveTuple job.tuple) with h | h <;> rw [h]
  · rfl
  · exact Bool.or_comm _ _

theorem protocol_canonical (hv4 : job.IsIPv4) :
    job.flowKey.canonical.protocol = job.tuple.protocol := by
  rw [hv4.2]
  rcases FlowKey.canonical_cases (.fromFiveTuple job.tuple) with h | h <;> rw [h] <;> rfl

theorem receive_known (hv4 : job.IsIPv4) : receive rules env job (some c) =
    (c.follow env job (isClient c job.flowKey)).verdict rules job (isClient c job.flowKey) := by
  rw [receive, lookupEntry, lookupKey, if_pos hv4.1]
  rfl

theorem unnamed_of_origin (h : c.origin = originOf key) : c.Unnamed := by
  have hnew : ({} : Connection).Unnamed := ⟨rfl, rfl, rfl, rfl⟩
  exact hnew.of_profile (congrArg (·.2.2.1) h)

/-- The rules block an address of the packet, the application of the name, or the name. -/
def HelloBlocked (rules : RuleManager) (job : PacketJob) (s : Name) : Prop :=
  (rules.isIPBlocked job.tuple.srcIp = true ∨ rules.isIPBlocked job.tuple.dstIp = true) ∨
    rules.isAppBlocked (sniToAppType s) = true ∨ rules.isDomainBlocked s = true

theorem receive_hello (rules : RuleManager) (env : PacketEnv) {s : Name}
    (horigin : c.origin = originOf job.flowKey)
    (hstate : c.state = .new ∨ c.state = .established) (hv4 : job.IsIPv4)
    (htcp : job.tuple.protocol = 6) (hport : job.tuple.srcPort ≠ 80 ∧ job.tuple.dstPort ≠ 80)
    (hsyn : hasFlag job.tcpFlags TCPFlags.SYN = false)
    (hfin : hasFlag job.tcpFlags TCPFlags.FIN = false)
    (hrst : hasFlag job.tcpFlags TCPFlags.RST = false) (hmax : job.payload.length ≤ 16384)
    (hrecord : 5 + wordAt job.payload 3 = job.payload.length)
    (hs : (SNIExtractor.extract job.payload).value = some (some s)) :
    ∃ c' action, receive rules env job (some c) = .ok (c', action) ∧
      (action = .drop ↔ HelloBlocked rules job s) ∧
      (action ≠ .drop → c'.state = .classified ∧ c'.appType = sniToAppType s ∧ c'.sni = s) := by
  rw [receive_known hv4, isClient_of_original (congrArg (·.2.1) horigin),
    follow_of_flags htcp hsyn hfin hrst]
  obtain ⟨c₁, hc₁⟩ : ∃ c₁, c₁ = c.update env.seenAt job.data.length true := ⟨_, rfl⟩
  have hkey : c₁.flowKey = job.flowKey.canonical := by
    rw [hc₁, flowKey_update]
    exact congrArg (·.1) horigin
  have hopen : c₁.state = .new ∨ c₁.state = .established := by
    rw [hc₁, state_update]
    exact hstate
  have hne : c₁.state ≠ .blocked ∧ c₁.state ≠ .classified := ConnectionState.ne_of_open hopen
  have hunnamed : c₁.Unnamed := (unnamed_of_origin horigin).of_profile (by rw [hc₁, profile_update])
  have hip : ipBlocked rules c₁ = .ok (decide (AddressBlocked rules job)) := ipBlocked_eq hv4 hkey
  rw [← hc₁]
  by_cases haddr : AddressBlocked rules job
  · rw [decide_eq_true haddr] at hip
    exact ⟨_, _, verdict_ipBlocked hip hne.1, iff_of_true rfl (.inl haddr), fun h => absurd rfl h⟩
  · rw [decide_eq_false haddr] at hip
    have hport80 : onPort c₁.flowKey 80 = false := by
      rw [hkey, onPort_canonical hv4, decide_eq_false hport.1, decide_eq_false hport.2,
        Bool.or_false]
    have htcp₁ : c₁.flowKey.protocol = 6 := by
      rw [hkey, protocol_canonical hv4, htcp]
    have hfresh : c₁.tcpReassemblerClient = TCPReassembler.fresh {} := by
      rw [hc₁, tcpReassemblerClient_update]
      exact congrArg (·.2.2.2) horigin
    obtain ⟨r, hinspect⟩ := inspectPayload_record htcp₁ hport80 hfresh hmax hrecord hs
    have hfinds := hunnamed.finds_sni hne.2 (sniToAppType s) s r
    have hsni : (c₁.classify (sniToAppType s) s [] []).sni = s := by
      cases s with
      | nil => exact hunnamed.sni
      | cons b l => rfl
    rw [verdict_finds hopen hip hinspect hfinds]
    split_ifs with hblocked
    · exact ⟨_, _, rfl, iff_of_true rfl (.inr hblocked), fun h => absurd rfl h⟩
    · exact ⟨_, _, rfl, iff_of_false (by decide) (not_or.mpr ⟨haddr, hblocked⟩),
        fun _ => ⟨rfl, hfinds.appType, hsni⟩⟩

/--
The first payload of a connection, if it is a record with a name from the client, is dropped
exactly if the rules block an address, the application of the name or the name. Otherwise the
connection is classified by the name.
-/
theorem hello_verdict (rules : RuleManager) (fp : FastPathProcessor) (env : PacketEnv)
    (job : PacketJob) (r : List UInt8) (s : Name) (hopened : OpenedBy rules job.flowKey fp)
    (hstate : (fp.tracker.conn job.flowKey.canonical).state = .new ∨
      (fp.tracker.conn job.flowKey.canonical).state = .established)
    (hv4 : job.IsIPv4) (htcp : job.tuple.protocol = 6)
    (hport : job.tuple.srcPort ≠ 80 ∧ job.tuple.dstPort ≠ 80)
    (hflags : ¬ hasFlag job.tcpFlags TCPFlags.SYN ∧ ¬ hasFlag job.tcpFlags TCPFlags.FIN ∧
      ¬ hasFlag job.tcpFlags TCPFlags.RST)
    (hpayload : job.payload = r) (hmax : r.length ≤ 16384)
    (hrecord : 5 + wordAt r 3 = r.length) (hs : (SNIExtractor.extract r).value = some (some s)) :
    ∃ fp', processPacket rules env job fp = .ok fp' ∧
      (Drops fp job fp' ↔ HelloBlocked rules job s) ∧
      (¬ Drops fp job fp' →
        (fp'.tracker.conn job.flowKey.canonical).state = .classified ∧
        (fp'.tracker.conn job.flowKey.canonical).appType = sniToAppType s ∧
        (fp'.tracker.conn job.flowKey.canonical).sni = s) := by
  subst hpayload
  obtain ⟨hk, c, hlookup, horigin⟩ := hopened.entry
  rw [ConnectionTracker.conn, hlookup] at hstate
  obtain ⟨hsyn, hfin, hrst⟩ := hflags
  obtain ⟨c', action, hreceive, hdrop, hclassified⟩ := receive_hello rules env
    horigin hstate hv4 htcp hport (Bool.eq_false_iff.mpr hsyn) (Bool.eq_false_iff.mpr hfin)
    (Bool.eq_false_iff.mpr hrst) hmax hrecord hs
  rw [← hlookup] at hreceive
  obtain ⟨fp', hstep, hreceived⟩ := (processPacket_receive hk (if_pos hv4.1)).ok_of hreceive
  refine ⟨fp', hstep, ?_, ?_⟩
  · rw [hreceived.drops_iff]
    exact hdrop
  · rw [hreceived.drops_iff, hreceived.conn]
    exact hclassified

def domainRule (domain : Name) : RuleManager where
  blockedDomains := {domain}

/-- A ClientHello after a SYN is dropped if its name is blocked. -/
theorem hello_verdict_short : ∃ fp fp', Step (domainRule (ascii "a.b")) {}
      (.packet {} (segmentJob 443 6 TCPFlags.SYN [])) fp ∧
    Step (domainRule (ascii "a.b")) fp
      (.packet {} (segmentJob 443 7 TCPFlags.ACK TCPReassembler.shortHello)) fp' ∧
    Drops fp (segmentJob 443 7 TCPFlags.ACK TCPReassembler.shortHello) fp' := by
  obtain ⟨fp, hfp⟩ : ∃ fp, Step (domainRule (ascii "a.b")) {}
    (.packet {} (segmentJob 443 6 TCPFlags.SYN [])) fp := ⟨_, rfl⟩
  have hstate : (fp.tracker.conn (segmentJob 443 7 TCPFlags.ACK
      TCPReassembler.shortHello).flowKey.canonical).state = .new := by
    cases hfp
    rfl
  have hopened : OpenedBy (domainRule (ascii "a.b"))
      (segmentJob 443 7 TCPFlags.ACK TCPReassembler.shortHello).flowKey fp :=
    ⟨[], {}, _, [], {}, fp, .nil _, AList.notMem_empty _, rfl, rfl, hfp, .nil _⟩
  obtain ⟨fp', hstep, hdrops, -⟩ := hello_verdict _ fp {} _ _ (ascii "a.b") hopened (.inl hstate)
    ⟨rfl, rfl⟩ rfl (by decide) (by decide) rfl (by decide) (by decide)
    TCPReassembler.extract_shortHello
  exact ⟨fp, fp', hfp, hstep, hdrops.mpr (.inr (.inr (by decide)))⟩

end FastPathProcessor

end DpiEngine
