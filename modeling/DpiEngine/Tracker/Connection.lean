import DpiEngine.Flow.Key
import DpiEngine.Inspect.Names
import DpiEngine.Reassembly.Model
import Mathlib.Data.List.AList

/-! # The connection tracker

The flow table of a fast path processor. A pointer to a connection is the
canonical key of its entry. The clock readings and the iteration order of the
hash table come from outside.
-/

namespace DpiEngine

/-- What a fast path processor can run into instead of returning. -/
inductive Fault
  | badVariantAccess
  | danglingFlowKey
  | outOfBounds
  deriving DecidableEq, Repr

/-- `std::get<IPv4Addr>`. -/
def getIPv4 : IPAddress → Except Fault UInt32
  | .v4 addr => .ok addr
  | .v6 _ => .error .badVariantAccess

inductive ConnectionState
  | new | established | classified | blocked | closed
  deriving DecidableEq, Repr

inductive PacketAction
  | forward | drop | inspect | logOnly
  deriving DecidableEq, Repr

structure Connection where
  flowKey : FlowKey := {}
  tuple : FiveTuple := {}
  originalIsCanonical : Bool := true
  state : ConnectionState := .new
  appType : AppType := .unknown
  sni : Name := []
  httpHost : Name := []
  dnsQuery : Name := []
  packetsIn : ℕ := 0
  packetsOut : ℕ := 0
  bytesIn : ℕ := 0
  bytesOut : ℕ := 0
  firstSeen : ℕ := 0
  lastSeen : ℕ := 0
  action : PacketAction := .forward
  synSeen : Bool := false
  synAckSeen : Bool := false
  finSeen : Bool := false
  tcpReassemblerClient : TCPReassembler := {}
  deriving DecidableEq, Repr

def Connection.bestDomain (conn : Connection) : Name :=
  if !conn.sni.isEmpty then conn.sni
  else if !conn.httpHost.isEmpty then conn.httpHost
  else if !conn.dnsQuery.isEmpty then conn.dnsQuery
  else []

def Connection.update (conn : Connection) (now packetSize : ℕ) (isClientToServer : Bool) :
    Connection :=
  if isClientToServer then
    { conn with
      lastSeen := now
      packetsIn := conn.packetsIn + 1
      bytesIn := conn.bytesIn + packetSize }
  else
    { conn with
      lastSeen := now
      packetsOut := conn.packetsOut + 1
      bytesOut := conn.bytesOut + packetSize }

/-- `classifyConnection` on the connection itself; the first classification sets the application. -/
def Connection.classify (conn : Connection) (app : AppType)
    (sni httpHost dnsQuery : Name) : Connection :=
  { conn with
    appType := if conn.state = .classified then conn.appType else app
    state := .classified
    sni := if sni.isEmpty then conn.sni else sni
    httpHost := if httpHost.isEmpty then conn.httpHost else httpHost
    dnsQuery := if dnsQuery.isEmpty then conn.dnsQuery else dnsQuery }

abbrev FlowTable := AList fun _ : FlowKey => Connection

/-- The order in which an iteration over the hash table visits the entries. -/
structure BucketOrder where
  arrange : List (Sigma fun _ : FlowKey => Connection) → List (Sigma fun _ : FlowKey => Connection)
  perm : ∀ l, (arrange l).Perm l

def BucketOrder.asStored : BucketOrder := ⟨id, fun _ => .refl _⟩

/-- The clock readings and the iteration order that one packet meets. -/
structure PacketEnv where
  createdAt : ℕ := 0
  seenAt : ℕ := 0
  order : BucketOrder := .asStored

structure ConnectionTracker where
  maxConnections : ℕ := 100000
  connections : FlowTable := ∅
  totalSeen : ℕ := 0
  classifiedCount : ℕ := 0
  blockedCount : ℕ := 0

namespace ConnectionTracker

def conn (t : ConnectionTracker) (p : FlowKey) : Connection := (t.connections.lookup p).getD {}

def modify (t : ConnectionTracker) (p : FlowKey) (f : Connection → Connection) :
    ConnectionTracker :=
  { t with connections := t.connections.insert p (f (t.conn p)) }

def oldest (best : Sigma fun _ : FlowKey => Connection) :
    List (Sigma fun _ : FlowKey => Connection) → Sigma fun _ : FlowKey => Connection
  | [] => best
  | e :: rest => oldest (if e.2.lastSeen < best.2.lastSeen then e else best) rest

def evictOldest (t : ConnectionTracker) (order : BucketOrder) : ConnectionTracker :=
  match order.arrange t.connections.entries with
  | [] => t
  | e :: rest => { t with connections := t.connections.erase (oldest e rest).1 }

def newConnection (key : FlowKey) (now : ℕ) : Except Fault Connection := do
  let conn : Connection := {
    flowKey := key.canonical
    originalIsCanonical := key = key.canonical
    firstSeen := now
    lastSeen := now }
  if key.isIPv6 then return conn
  let srcIp ← getIPv4 key.srcAddr
  let dstIp ← getIPv4 key.dstAddr
  let tuple : FiveTuple := ⟨srcIp, dstIp, key.srcPort, key.dstPort, key.protocol⟩
  return { conn with tuple := tuple.canonical }

def getOrCreateConnection (t : ConnectionTracker) (key : FlowKey) (env : PacketEnv) :
    Except Fault (ConnectionTracker × FlowKey) := do
  if key.canonical ∈ t.connections then return (t, key.canonical)
  let t := if t.connections.entries.length ≥ t.maxConnections then t.evictOldest env.order else t
  let conn ← newConnection key env.createdAt
  return ({ t with
    connections := t.connections.insert key.canonical conn
    totalSeen := t.totalSeen + 1 }, key.canonical)

def getConnection (t : ConnectionTracker) (key : FlowKey) : Option FlowKey :=
  if key.canonical ∈ t.connections then some key.canonical else none

def updateConnection (t : ConnectionTracker) (p : FlowKey) (now packetSize : ℕ)
    (isClientToServer : Bool) : ConnectionTracker :=
  t.modify p fun conn => conn.update now packetSize isClientToServer

def classifyConnection (t : ConnectionTracker) (p : FlowKey) (app : AppType)
    (sni httpHost dnsQuery : Name) : ConnectionTracker :=
  { t.modify p fun conn => conn.classify app sni httpHost dnsQuery with
    classifiedCount :=
      if (t.conn p).state = .classified then t.classifiedCount else t.classifiedCount + 1 }

def blockConnection (t : ConnectionTracker) (p : FlowKey) : ConnectionTracker :=
  { t.modify p fun conn => { conn with state := .blocked, action := .drop } with
    blockedCount := t.blockedCount + 1 }

def closeConnection (t : ConnectionTracker) (key : FlowKey) : ConnectionTracker :=
  if key.canonical ∈ t.connections then
    t.modify key.canonical fun conn => { conn with state := .closed }
  else t

def second : ℕ := 1000000000

def isStale (now timeout : ℕ) (conn : Connection) : Bool :=
  let age := (now - conn.lastSeen) / second
  if conn.state = .closed then true
  else if conn.flowKey.protocol = 6 then
    if conn.state = .established ∨ conn.state = .classified then timeout < age else 60 < age
  else 120 < age

def cleanupStale (t : ConnectionTracker) (now timeout : ℕ) : ConnectionTracker :=
  { t with connections :=
      ⟨t.connections.entries.filter fun e => !isStale now timeout e.2,
        t.connections.nodupKeys.sublist List.filter_sublist⟩ }

def clear (t : ConnectionTracker) : ConnectionTracker := { t with connections := ∅ }

end ConnectionTracker

end DpiEngine
