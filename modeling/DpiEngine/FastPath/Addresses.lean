import DpiEngine.FastPath.Decided
import DpiEngine.Rules.Address

/-! # Address rules

With rules for addresses only, the fast path drops exactly the frames that carry
a listed address. A connection is then blocked only under a listed address, so
neither the history of a connection nor its payload changes what happens.
-/

namespace DpiEngine

open Traced

def Frame.source (f : Frame) : String :=
  dottedDecimal (byteAt f.raw.data 26) (byteAt f.raw.data 27) (byteAt f.raw.data 28)
    (byteAt f.raw.data 29)

def Frame.dest (f : Frame) : String :=
  dottedDecimal (byteAt f.raw.data 30) (byteAt f.raw.data 31) (byteAt f.raw.data 32)
    (byteAt f.raw.data 33)

theorem Frame.ipv4ToString_job (f : Frame) (h : f.IsIPv4) :
    ipv4ToString f.job.tuple.srcIp = f.source ∧ ipv4ToString f.job.tuple.dstIp = f.dest := by
  obtain ⟨hsrc, hdst⟩ := f.addresses_job h
  rw [hsrc, hdst]
  exact ⟨ipv4ToString_be32 _ _ _ _, ipv4ToString_be32 _ _ _ _⟩

/-- The rules block addresses and nothing else. -/
def RuleManager.OnlyAddresses (rules : RuleManager) : Prop :=
  { rules with blockedIps := ∅ } = ({} : RuleManager)

namespace FastPathProcessor

open ConnectionTracker Except

variable {rules : RuleManager} {env : PacketEnv} {job : PacketJob} {fp fp' : FastPathProcessor}
  {t : ConnectionTracker} {k p : FlowKey} {client : Bool} {x : Input}

theorem contentBlocked_of_onlyAddresses (hrules : rules.OnlyAddresses) (conn : Connection) :
    contentBlocked rules conn = false := by
  obtain ⟨-, happs, hdomains, hpatterns, -⟩ := RuleManager.mk.inj hrules
  have happ : rules.isAppBlocked conn.appType = false := by simp [RuleManager.isAppBlocked, happs]
  have hdomain : rules.isDomainBlocked conn.bestDomain = false := by
    simp [RuleManager.isDomainBlocked, hdomains, hpatterns]
  rw [contentBlocked, happ, hdomain, Bool.and_false, Bool.or_false]

/-- A rule blocks an address of the flow. -/
def FlowBlocked (rules : RuleManager) (k : FlowKey) : Prop :=
  ∃ addr, rules.isIPBlocked addr = true ∧ (k.srcAddr = .v4 addr ∨ k.dstAddr = .v4 addr)

theorem flowBlocked_canonical (hv4 : job.IsIPv4) :
    FlowBlocked rules job.flowKey.canonical ↔ AddressBlocked rules job := by
  rw [hv4.2]
  unfold FlowBlocked AddressBlocked
  rcases FlowKey.canonical_cases (.fromFiveTuple job.tuple) with h | h <;> rw [h]
  · simp [FlowKey.fromFiveTuple, and_or_left, exists_or]
  · simp [FlowKey.fromFiveTuple, FlowKey.reverse, and_or_left, exists_or, or_comm]

/-- Connections are blocked only under a blocked address. -/
def AddressPoliced (rules : RuleManager) (fp : FastPathProcessor) : Prop :=
  fp.tracker.Keyed ∧ ∀ k ∈ fp.tracker.connections,
    (fp.tracker.conn k).state = .blocked → FlowBlocked rules k

theorem lookupConnection_blocked (hk : fp.tracker.Keyed)
    (h : lookupConnection fp.tracker env job = .ok (t, p, client))
    (hb : (t.conn p).state = .blocked) :
    p ∈ fp.tracker.connections ∧ (fp.tracker.conn p).state = .blocked := by
  have hmem : p ∈ fp.tracker.connections := by
    by_contra hnew
    exact (lookupConnection_flowKey hk h).2.2.2 hnew hb
  obtain ⟨key, t₁, -, hcreate, -, hfollow⟩ := lookupConnection_ok hk h
  obtain ⟨rfl, -, ⟨-, rfl⟩ | ⟨hnew, -⟩⟩ := getOrCreateConnection_ok hcreate
  · rw [hfollow.conn] at hb
    by_contra hne
    exact follow_ne_blocked (fun h => hne ⟨hmem, h⟩) hb
  · exact absurd hmem hnew

theorem processPacket_addresses (hrules : rules.OnlyAddresses) (hpol : AddressPoliced rules fp)
    (hv4 : job.IsIPv4) (h : processPacket rules env job fp = .ok fp') :
    (Drops fp job fp' ↔ AddressBlocked rules job) ∧
      ((fp'.tracker.conn job.flowKey.canonical).state = .blocked → AddressBlocked rules job) := by
  obtain ⟨t, p, client, t', action, hlookup, hverdict, rfl⟩ := processPacket_ok.mp h
  obtain ⟨-, rfl, hkey, -⟩ := lookupConnection_flowKey hpol.1 hlookup
  have hdrops {a : PacketAction} : Drops fp job
      ({ fp with totalProcessed := fp.totalProcessed + 1, tracker := t' }.handleAction job a) ↔
        a = .drop := by
    simp [Drops, handleAction]
  have hblocked (hb : (t.conn job.flowKey.canonical).state = .blocked) :
      AddressBlocked rules job := by
    obtain ⟨hmem, hb⟩ := lookupConnection_blocked hpol.1 hlookup hb
    exact (flowBlocked_canonical hv4).mp (hpol.2 _ hmem hb)
  rw [hdrops]
  rcases verdict_ok hverdict with
    ⟨hstate, rfl, rfl⟩ | ⟨-, hip, rfl, rfl⟩ |
    ⟨hstate, hip, t₁, hins, ⟨-, hcontent, -, -⟩ | ⟨-, rfl, rfl⟩⟩
  · exact ⟨iff_of_true rfl (hblocked hstate), fun _ => hblocked hstate⟩
  · have haddr := (ipBlocked_ok hv4 hkey hip).mp rfl
    exact ⟨iff_of_true rfl haddr, fun _ => haddr⟩
  · rw [contentBlocked_of_onlyAddresses hrules] at hcontent
    cases hcontent
  · have haddr : ¬ AddressBlocked rules job := by
      rw [← ipBlocked_ok hv4 hkey hip]
      exact Bool.false_ne_true
    refine ⟨iff_of_false (by decide) haddr, fun hb => ?_⟩
    rcases hins.settled with hclass | ⟨hsame, -⟩
    · cases hclass.symm.trans hb
    · exact absurd (hsame.symm.trans hb) hstate

theorem processPacket_of_addressBlocked (env : PacketEnv) (hk : fp.tracker.Keyed)
    (hv4 : job.IsIPv4) (haddr : AddressBlocked rules job) :
    (processPacket rules env job fp).Returns := by
  apply (processPacket_returns_iff_scanFits hk hv4).mpr
  intro t p client hlookup hreach
  obtain ⟨-, rfl, hkey, -⟩ := lookupConnection_flowKey hk hlookup
  exact absurd ((ipBlocked_ok hv4 hkey hreach.address).mpr haddr) Bool.false_ne_true

/-- The input is the packet of an IPv4 frame or a cleanup. -/
def Input.OfIPv4 : Input → Prop
  | .packet _ job => ∃ f : Frame, f.IsIPv4 ∧ f.job = job
  | .cleanup _ => True

theorem step_addressPoliced (hrules : rules.OnlyAddresses) (hx : x.OfIPv4)
    (hpol : AddressPoliced rules fp) (h : Step rules fp x fp') : AddressPoliced rules fp' := by
  refine ⟨step_keyed hpol.1 h,
    step_entries (P := fun k c => c.state = .blocked → FlowBlocked rules k) hpol.1 h hpol.2 ?_⟩
  rintro env job k rfl ⟨key, hkey, rfl⟩ hb
  obtain ⟨f, hf, rfl⟩ := hx
  have hv4 := f.isIPv4_job hf
  rw [lookupKey, if_pos hv4.1] at hkey
  cases hkey
  exact (flowBlocked_canonical hv4).mpr ((processPacket_addresses hrules hpol hv4 h).2 hb)

theorem run_addressPoliced (hrules : rules.OnlyAddresses) {l : List Input}
    (hl : ∀ x ∈ l, x.OfIPv4) (h : Run (Step rules) {} l fp) : AddressPoliced rules fp := by
  have hstep {s a t} (hs : AddressPoliced rules s) (h : a.OfIPv4 ∧ Step rules s a t) :
      AddressPoliced rules t := step_addressPoliced hrules h.1 hs h.2
  exact Run.invariant (I := AddressPoliced rules) hstep (h.with_labels hl)
    ⟨keyed_empty 100000, fun k hk => absurd hk (AList.notMem_empty k)⟩

/--
With a list of canonical texts as the only rules, a frame that arrives after any run is dropped
exactly if the text of one of its addresses is in the list.
-/
theorem drops_iff_listed (ips : List String) (hips : ∀ ip ∈ ips, IsDottedDecimal ip) :
    ∃ rules, ({} : RuleManager).blockIPs ips = some rules ∧
      ∀ (l : List Input) (fp : FastPathProcessor) (env : PacketEnv) (f : Frame),
        (∀ x ∈ l, x.OfIPv4) → Run (Step rules) {} l fp → f.IsIPv4 →
        ((∃ fp', Step rules fp (.packet env f.job) fp' ∧ Drops fp f.job fp') ↔
          f.source ∈ ips ∨ f.dest ∈ ips) := by
  obtain ⟨rules, hblock, hblocks⟩ := RuleManager.blockIPs_blocks hips {}
  refine ⟨rules, hblock, fun l fp env f hl hrun hf => ?_⟩
  have hpol := run_addressPoliced hblocks.rest hl hrun
  have hv4 := f.isIPv4_job hf
  have hlisted : AddressBlocked rules f.job ↔ f.source ∈ ips ∨ f.dest ∈ ips := by
    obtain ⟨hsrc, hdst⟩ := f.ipv4ToString_job hf
    have hempty (addr : UInt32) : ({} : RuleManager).isIPBlocked addr = false := rfl
    simp only [AddressBlocked, hblocks.isIPBlocked, hempty, hsrc, hdst, Bool.false_eq_true,
      false_or]
  rw [← hlisted]
  constructor
  · rintro ⟨fp', hstep, hdrops⟩
    exact (processPacket_addresses hblocks.rest hpol hv4 hstep).1.mp hdrops
  · intro haddr
    obtain ⟨fp', hstep⟩ := processPacket_of_addressBlocked env hpol.1 hv4 haddr
    exact ⟨fp', hstep, (processPacket_addresses hblocks.rest hpol hv4 hstep).1.mpr haddr⟩

def web : Frame where
  raw := { data := webFrame TCPFlags.ACK }
  packetId := 0
  job := webJob TCPFlags.ACK
  built := rfl

/-- With the text of its source address in the list, the frame is dropped. -/
theorem drops_iff_listed_web : ∃ rules, ({} : RuleManager).blockIPs ["1.0.0.0"] = some rules ∧
    ∃ fp', Step rules { tracker := ({} : ConnectionTracker).cleanupStale 0 defaultTimeout }
      (.packet {} web.job) fp' ∧ fp'.actions = [(web.job, .drop)] := by
  have hips : ∀ ip ∈ ["1.0.0.0"], IsDottedDecimal ip := by
    intro ip h
    exact ⟨1, 0, 0, 0, (List.mem_singleton.mp h).trans (by decide)⟩
  obtain ⟨rules, hblock, hrules⟩ := drops_iff_listed ["1.0.0.0"] hips
  have hlisted : web.source ∈ ["1.0.0.0"] := by decide
  obtain ⟨fp', hstep, hdrops⟩ := (hrules [.cleanup 0] _ {} web
    (fun x h => (List.mem_singleton.mp h) ▸ trivial) (.cons rfl (.nil _)) rfl).mpr (.inl hlisted)
  exact ⟨rules, hblock, fp', hstep, hdrops⟩

end FastPathProcessor

end DpiEngine
