import DpiEngine.FastPath.Run

/-! # One flow of the fast path

Seen from its flow, a packet finds a connection or makes one, changes it and
gets its action. The processor does the same to the entry of the flow, whatever
else is in the table, and leaves the other entries alone.
-/

namespace DpiEngine

open ConnectionTracker FastPathProcessor

namespace Connection

variable (conn : Connection)

def inspectDNS (payload : List UInt8) : Except Fault (Connection × Bool) := do
  match ← checked (DNSExtractor.extractQuery payload) with
  | some result => return (conn.classify .dns [] [] result.queryDomain, true)
  | none => return (conn, false)

def inspectQUIC (payload : List UInt8) : Except Fault (Connection × Bool) := do
  if ← checked (QUICSNIExtractor.isQUICInitial payload) then
    match ← checked (QUICSNIExtractor.extract payload) with
    | some sni => return (conn.classify (sniToAppType sni) sni [] [], true)
    | none => return (conn.classify .quic [] [] [], true)
  else return (conn, false)

def inspectHTTP (payload : List UInt8) : Except Fault (Connection × Bool) := do
  match ← checked (HTTPHostExtractor.extract payload) with
  | some host => return (conn.classify (sniToAppType host) [] host [], true)
  | none => return (conn.classify .http [] [] [], true)

def inspectTLS (seq : UInt32) (payload : List UInt8) : Except Fault (Connection × Bool) := do
  let (reassembler, name) := conn.tcpReassemblerClient.tryExtractSNI seq payload
  let conn := { conn with tcpReassemblerClient := reassembler }
  match ← checked name with
  | some sni =>
    let conn := conn.classify (sniToAppType sni) sni [] []
    return ({ conn with tcpReassemblerClient := conn.tcpReassemblerClient.clear }, true)
  | none => return (conn, false)

def inspectByProtocol (job : PacketJob) (client : Bool) : Except Fault (Connection × Bool) := do
  if conn.flowKey.protocol = 17 then
    if onPort conn.flowKey 53 then conn.inspectDNS job.payload else conn.inspectQUIC job.payload
  else if conn.flowKey.protocol = 6 ∧ client then
    if onPort conn.flowKey 80 then conn.inspectHTTP job.payload
    else if ← checked (HTTPHostExtractor.isHTTPRequest job.payload) then
      conn.inspectHTTP job.payload
    else conn.inspectTLS job.tcpSeqNumber job.payload
  else return (conn, false)

def inspectPayload (job : PacketJob) (client : Bool) : Except Fault Connection := do
  if job.getPayload = none then return conn
  let (conn, updated) ← conn.inspectByProtocol job client
  if !updated ∧ conn.packetsIn + conn.packetsOut > 10 then
    return conn.classify .unknown [] [] []
  return conn

def inspectOpen (job : PacketJob) (client : Bool) : Except Fault Connection :=
  if conn.state = .new ∨ conn.state = .established then conn.inspectPayload job client
  else .ok conn

def block : Connection := { conn with state := .blocked, action := .drop }

def verdict (rules : RuleManager) (job : PacketJob) (client : Bool) :
    Except Fault (Connection × PacketAction) := do
  if conn.state = .blocked then return (conn, .drop)
  if ← ipBlocked rules conn then return (conn.block, .drop)
  let conn ← conn.inspectOpen job client
  if conn.state = .classified ∧ contentBlocked rules conn then return (conn.block, .drop)
  return (conn, .forward)

end Connection

/-- The entry of a flow, made if there is none. -/
def openEntry (key : FlowKey) (env : PacketEnv) : Option Connection → Except Fault Connection
  | some conn => .ok conn
  | none => newConnection key env.createdAt

/-- The lookup of one flow: its connection after the packet is counted, and the direction. -/
def lookupEntry (env : PacketEnv) (job : PacketJob) (entry : Option Connection) :
    Except Fault (Connection × Bool) := do
  let key ← lookupKey job
  let conn ← openEntry key env entry
  return (conn.follow env job (isClient conn key), isClient conn key)

/-- What a packet does to the entry of its flow, and the action it gets. -/
def receive (rules : RuleManager) (env : PacketEnv) (job : PacketJob) (entry : Option Connection) :
    Except Fault (Connection × PacketAction) := do
  let (conn, client) ← lookupEntry env job entry
  conn.verdict rules job client

namespace FastPathProcessor

variable {rules : RuleManager} {env : PacketEnv} {job : PacketJob} {fp fp' : FastPathProcessor}
  {t t' : ConnectionTracker} {p : FlowKey} {client : Bool} {c c' : Connection}

/-- The table `t` has become `t'`, with the connection `c` behind the pointer. -/
structure Holds (p : FlowKey) (t t' : ConnectionTracker) (c : Connection) : Prop
    extends Touches p t t' where
  conn : t'.conn p = c
  maxConnections : t'.maxConnections = t.maxConnections

namespace Holds

theorem refl (p : FlowKey) (t : ConnectionTracker) : Holds p t t (t.conn p) :=
  ⟨.refl p t, rfl, rfl⟩

theorem modify {f : Connection → Connection} (h : Holds p t t' c)
    (hf : ∀ conn, (f conn).flowKey = conn.flowKey) : Holds p t (t'.modify p f) (f c) :=
  ⟨h.toTouches.trans (.modify hf), by rw [conn_modify, h.conn], h.maxConnections⟩

theorem classify (h : Holds p t t' c) (app : AppType) (sni httpHost dnsQuery : Name) :
    Holds p t (t'.classifyConnection p app sni httpHost dnsQuery)
      (c.classify app sni httpHost dnsQuery) :=
  ⟨h.toTouches.trans (touches_classifyConnection app sni httpHost dnsQuery),
    by rw [conn_classifyConnection, h.conn], h.maxConnections⟩

theorem block (h : Holds p t t' c) : Holds p t (t'.blockConnection p) c.block :=
  ⟨h.toTouches.trans touches_blockConnection, by rw [conn_blockConnection, h.conn]; rfl,
    h.maxConnections⟩

end Holds

/-- An inspection of the table and one of the connection give the same connection and flag. -/
def Alike (p : FlowKey) (t : ConnectionTracker) (r : Inspected) (r' : Connection × Bool) : Prop :=
  Holds p t r.1 r'.1 ∧ r.2 = r'.2

open Except

theorem inspectDNS_alike (payload : List UInt8) :
    Related (Alike p t) (inspectDNS t p payload) ((t.conn p).inspectDNS payload) := by
  apply Related.bind_same
  rintro (_ | result) _
  · exact .ok ⟨.refl p t, rfl⟩
  · exact .ok ⟨(Holds.refl p t).classify _ _ _ _, rfl⟩

theorem inspectQUIC_alike (payload : List UInt8) :
    Related (Alike p t) (inspectQUIC t p payload) ((t.conn p).inspectQUIC payload) := by
  apply Related.bind_same
  rintro (_ | _) _
  · exact .ok ⟨.refl p t, rfl⟩
  · apply Related.bind_same
    rintro (_ | sni) _
    · exact .ok ⟨(Holds.refl p t).classify _ _ _ _, rfl⟩
    · exact .ok ⟨(Holds.refl p t).classify _ _ _ _, rfl⟩

theorem inspectHTTP_alike (payload : List UInt8) :
    Related (Alike p t) (inspectHTTP t p payload) ((t.conn p).inspectHTTP payload) := by
  apply Related.bind_same
  rintro (_ | host) _
  · exact .ok ⟨(Holds.refl p t).classify _ _ _ _, rfl⟩
  · exact .ok ⟨(Holds.refl p t).classify _ _ _ _, rfl⟩

theorem inspectTLS_alike (seq : UInt32) (payload : List UInt8) :
    Related (Alike p t) (inspectTLS t p seq payload) ((t.conn p).inspectTLS seq payload) := by
  unfold FastPathProcessor.inspectTLS Connection.inspectTLS
  obtain ⟨reassembler, name⟩ := (t.conn p).tcpReassemblerClient.tryExtractSNI seq payload
  have hfed := (Holds.refl p t).modify
    (f := fun conn => { conn with tcpReassemblerClient := reassembler }) fun _ => rfl
  apply Related.bind_same
  rintro (_ | sni) _
  · exact .ok ⟨hfed, rfl⟩
  · have hcleared := (hfed.classify (sniToAppType sni) sni [] []).modify
      (f := fun conn => { conn with tcpReassemblerClient := conn.tcpReassemblerClient.clear })
      fun _ => rfl
    exact .ok ⟨hcleared, rfl⟩

theorem inspectByProtocol_alike (job : PacketJob) (client : Bool) :
    Related (Alike p t) (inspectByProtocol t p job client)
      ((t.conn p).inspectByProtocol job client) := by
  unfold FastPathProcessor.inspectByProtocol Connection.inspectByProtocol
  apply Related.ite
  · intro _
    exact Related.ite (fun _ => inspectDNS_alike _) (fun _ => inspectQUIC_alike _)
  · intro _
    apply Related.ite
    · intro _
      apply Related.ite
      · intro _
        exact inspectHTTP_alike _
      · intro _
        apply Related.bind_same
        intro isRequest _
        exact Related.ite (fun _ => inspectHTTP_alike _) (fun _ => inspectTLS_alike _ _)
    · intro _
      exact .ok ⟨.refl p t, rfl⟩

theorem inspectPayload_alike (job : PacketJob) (client : Bool) :
    Related (Holds p t) (inspectPayload t p job client) ((t.conn p).inspectPayload job client) := by
  apply Related.ite
  · intro _
    exact .ok (.refl p t)
  · intro _
    apply (inspectByProtocol_alike job client).bind
    rintro ⟨t', updated⟩ ⟨conn, updated'⟩ ⟨hholds, rfl⟩
    have hconn : t'.conn p = conn := hholds.conn
    dsimp only
    rw [hconn]
    apply Related.ite
    · intro _
      exact .ok (hholds.classify _ _ _ _)
    · intro _
      exact .ok hholds

theorem inspectOpen_alike (job : PacketJob) (client : Bool) :
    Related (Holds p t) (inspectOpen t p job client) ((t.conn p).inspectOpen job client) :=
  Related.ite (fun _ => inspectPayload_alike job client) (fun _ => .ok (.refl p t))

theorem verdict_alike (rules : RuleManager) (job : PacketJob) (client : Bool) :
    Related (fun r r' => Holds p t r.1 r'.1 ∧ r.2 = r'.2) (verdict rules t p job client)
      ((t.conn p).verdict rules job client) := by
  apply Related.ite
  · intro _
    exact .ok ⟨.refl p t, rfl⟩
  · intro _
    apply Related.bind_same
    intro ip _
    apply Related.ite
    · intro _
      exact .ok ⟨(Holds.refl p t).block, rfl⟩
    · intro _
      apply (inspectOpen_alike job client).bind
      intro t' conn hholds
      rw [hholds.conn]
      apply Related.ite
      · intro _
        exact .ok ⟨hholds.block, rfl⟩
      · intro _
        exact .ok ⟨hholds, rfl⟩

/-- Another entry stays, unless it is evicted from a full table. -/
def Stays (t t' : ConnectionTracker) (q : FlowKey) : Prop :=
  t'.connections.lookup q = t.connections.lookup q ∨
    t.maxConnections ≤ t.connections.entries.length ∧ t'.connections.lookup q = none

/-- The entry `c` stands behind the pointer, and the others have stayed. -/
structure Finds (p : FlowKey) (t t' : ConnectionTracker) (c : Connection) : Prop where
  lookup : t'.connections.lookup p = some c
  lookup_ne : ∀ q, q ≠ p → Stays t t' q
  keyed : t'.Keyed
  maxConnections : t'.maxConnections = t.maxConnections

namespace Finds

theorem conn (h : Finds p t t' c) : t'.conn p = c := by
  rw [ConnectionTracker.conn, h.lookup]
  rfl

theorem mem (h : Finds p t t' c) : p ∈ t'.connections := AList.lookup_isSome.mp (h.lookup ▸ rfl)

theorem holds {t'' : ConnectionTracker} (h : Finds p t t' c) (h' : Holds p t' t'' c') :
    Finds p t t'' c' where
  lookup := by
    obtain ⟨c'', hc⟩ := Option.isSome_iff_exists.mp (AList.lookup_isSome.mpr (h'.mem h.mem))
    rw [← h'.conn, ConnectionTracker.conn, hc]
    rfl
  lookup_ne q hq := by
    unfold Stays
    rw [h'.lookup_ne q hq]
    exact h.lookup_ne q hq
  keyed := h'.keyed h.mem h.keyed
  maxConnections := h'.maxConnections.trans h.maxConnections

end Finds

theorem getOrCreateConnection_finds (hk : t.Keyed) (key : FlowKey) (env : PacketEnv) :
    Related (fun r c => r.2 = key.canonical ∧ Finds key.canonical t r.1 c)
      (t.getOrCreateConnection key env)
      (openEntry key env (t.connections.lookup key.canonical)) := by
  cases hlookup : t.connections.lookup key.canonical with
  | some c =>
    have hmem : key.canonical ∈ t.connections := AList.lookup_isSome.mp (hlookup ▸ rfl)
    rw [getOrCreateConnection, if_pos hmem]
    exact .ok ⟨rfl, hlookup, fun _ _ => .inl rfl, hk, rfl⟩
  | none =>
    have hmem : key.canonical ∉ t.connections := AList.lookup_eq_none.mp hlookup
    have hcreate : t.getOrCreateConnection key env = newConnection key env.createdAt >>= fun c =>
        .ok ({ (if t.connections.entries.length ≥ t.maxConnections then t.evictOldest env.order
            else t) with
          connections := (if t.connections.entries.length ≥ t.maxConnections then
            t.evictOldest env.order else t).connections.insert key.canonical c
          totalSeen := (if t.connections.entries.length ≥ t.maxConnections then
            t.evictOldest env.order else t).totalSeen + 1 }, key.canonical) := by
      rw [getOrCreateConnection, if_neg hmem]
      rfl
    cases hnew : newConnection key env.createdAt with
    | error e =>
      rw [hcreate, openEntry, hnew]
      exact .error e
    | ok c =>
      rw [hcreate, openEntry, hnew]
      refine .ok ⟨rfl, AList.lookup_insert _, ?_,
        getOrCreateConnection_keyed hk (hcreate.trans (by rw [hnew]; rfl)), ?_⟩
      · intro q hq
        unfold Stays
        dsimp only
        rw [AList.lookup_insert_ne hq]
        split_ifs with hfull
        · exact (evictOldest_lookup env.order q).imp_right fun h => ⟨hfull, h⟩
        · exact .inl rfl
      · dsimp only
        split_ifs
        · unfold evictOldest
          split <;> rfl
        · rfl

theorem updateTCPState_holds (hk : t.Keyed) (hp : p ∈ t.connections) (flags : UInt8) :
    Holds p t (updateTCPState t p flags) ((t.conn p).followFlags flags) := by
  have h := updateTCPState_changes hk hp flags
  refine ⟨h.toTouches, h.conn, ?_⟩
  unfold updateTCPState closeConnection
  split_ifs <;> rfl

theorem lookupConnection_finds (env : PacketEnv) (hk : t.Keyed) {key : FlowKey}
    (hkey : lookupKey job = .ok key) :
    Related (fun r r' => r.2.1 = key.canonical ∧ Finds key.canonical t r.1 r'.1 ∧ r.2.2 = r'.2)
      (lookupConnection t env job) (lookupEntry env job (t.connections.lookup key.canonical)) := by
  unfold lookupConnection lookupEntry
  rw [hkey]
  apply (getOrCreateConnection_finds hk key env).bind
  rintro ⟨t₁, p⟩ c ⟨rfl, hfinds⟩
  have hconn : t₁.conn key.canonical = c := hfinds.conn
  have hseen := hfinds.holds ((Holds.refl key.canonical t₁).modify (f := fun conn =>
    conn.update env.seenAt job.data.length (isClient c key))
    fun _ => Connection.flowKey_update _ _ _ _)
  rw [hconn] at hseen
  dsimp only
  rw [hconn]
  refine .ok ⟨rfl, ?_, rfl⟩
  unfold Connection.follow
  split_ifs
  · have hflags := updateTCPState_holds hseen.keyed hseen.mem job.tcpFlags
    rw [hseen.conn] at hflags
    exact hseen.holds hflags
  · exact hseen

/-- What a processed packet leaves: the entry of its flow and its action. -/
structure Received (fp : FastPathProcessor) (job : PacketJob) (p : FlowKey)
    (fp' : FastPathProcessor) (r : Connection × PacketAction) : Prop
    extends Finds p fp.tracker fp'.tracker r.1 where
  actions : fp'.actions = fp.actions ++ [(job, r.2)]

/-- The processor does to a packet what the flow of the packet alone says. -/
theorem processPacket_receive (hk : fp.tracker.Keyed) {key : FlowKey}
    (hkey : lookupKey job = .ok key) :
    Related (Received fp job key.canonical) (processPacket rules env job fp)
      (receive rules env job (fp.tracker.connections.lookup key.canonical)) := by
  apply (lookupConnection_finds env hk hkey).bind
  rintro ⟨t, p, client⟩ ⟨c, client'⟩ ⟨rfl, hfinds, rfl⟩
  have hconn : t.conn key.canonical = c := hfinds.conn
  have hverdict := verdict_alike (t := t) (p := key.canonical) rules job client
  rw [hconn] at hverdict
  dsimp only
  apply hverdict.bind_left
  rintro ⟨t', action⟩ ⟨c', action'⟩ ⟨hholds, rfl⟩
  exact .ok ⟨hfinds.holds hholds, rfl⟩

end FastPathProcessor

end DpiEngine
