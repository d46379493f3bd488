import DpiEngine.Inspect.Extractors
import DpiEngine.Packet.Job
import DpiEngine.Rules.Manager
import DpiEngine.Tracker.Connection

/-! # The fast path

A fast path processor looks up the connection of a packet, follows its TCP
flags, checks the rules, inspects the payload until the connection is classified
and forwards or drops the packet. A step that throws or reads memory it must not
read is a fault.
-/

namespace DpiEngine

namespace TCPFlags

def FIN : UInt8 := 0x01
def SYN : UInt8 := 0x02
def RST : UInt8 := 0x04
def ACK : UInt8 := 0x10

end TCPFlags

def hasFlag (flags flag : UInt8) : Bool := flags &&& flag ≠ 0

/-- Memory outside the payload must not be read. -/
def checked {α : Type} (x : Traced α) : Except Fault α :=
  match x.value with
  | some a => .ok a
  | none => .error .outOfBounds

def PacketJob.payload (job : PacketJob) : List UInt8 :=
  (job.data.drop job.payloadOffset).take job.payloadLength

structure FastPathProcessor where
  tracker : ConnectionTracker := {}
  totalProcessed : ℕ := 0
  totalForwarded : ℕ := 0
  totalDropped : ℕ := 0
  /-- The calls of `handleAction` so far. -/
  actions : List (PacketJob × PacketAction) := []

namespace FastPathProcessor

def handleAction (fp : FastPathProcessor) (job : PacketJob) (action : PacketAction) :
    FastPathProcessor :=
  { fp with
    totalDropped := if action = .drop then fp.totalDropped + 1 else fp.totalDropped
    totalForwarded := if action = .drop then fp.totalForwarded else fp.totalForwarded + 1
    actions := fp.actions ++ [(job, action)] }

/-- Without a flow key in the job, the pointer to the local key dangles where it is read. -/
def lookupKey (job : PacketJob) : Except Fault FlowKey :=
  if job.hasFlowKey then .ok job.flowKey else .error .danglingFlowKey

def isClient (conn : Connection) (key : FlowKey) : Bool :=
  if conn.originalIsCanonical then key.canonical = key else key.canonical ≠ key

def updateTCPState (t : ConnectionTracker) (p : FlowKey) (flags : UInt8) : ConnectionTracker :=
  if hasFlag flags TCPFlags.SYN then
    if hasFlag flags TCPFlags.ACK then
      t.modify p fun conn =>
        { conn with
          synAckSeen := true
          state := if conn.synSeen then .established else conn.state }
    else t.modify p fun conn => { conn with synSeen := true }
  else if hasFlag flags TCPFlags.FIN then t.modify p fun conn => { conn with finSeen := true }
  else if hasFlag flags TCPFlags.RST then t.closeConnection (t.conn p).flowKey
  else t

/-- The lookup: the table, the pointer to the connection and the direction of the packet. -/
def lookupConnection (t : ConnectionTracker) (env : PacketEnv) (job : PacketJob) :
    Except Fault (ConnectionTracker × FlowKey × Bool) := do
  let key ← lookupKey job
  let (t, p) ← t.getOrCreateConnection key env
  let client := isClient (t.conn p) key
  let t := t.updateConnection p env.seenAt job.data.length client
  let t := if job.tuple.protocol = 6 then updateTCPState t p job.tcpFlags else t
  return (t, p, client)

def ipBlocked (rules : RuleManager) (conn : Connection) : Except Fault Bool := do
  let src ← getIPv4 conn.flowKey.srcAddr
  if rules.isIPBlocked src then return true
  let dst ← getIPv4 conn.flowKey.dstAddr
  return rules.isIPBlocked dst

/-- The table, and whether the payload classified the connection. -/
abbrev Inspected := ConnectionTracker × Bool

def inspectDNS (t : ConnectionTracker) (p : FlowKey) (payload : List UInt8) :
    Except Fault Inspected := do
  match ← checked (DNSExtractor.extractQuery payload) with
  | some result => return (t.classifyConnection p .dns [] [] result.queryDomain, true)
  | none => return (t, false)

def inspectQUIC (t : ConnectionTracker) (p : FlowKey) (payload : List UInt8) :
    Except Fault Inspected := do
  if ← checked (QUICSNIExtractor.isQUICInitial payload) then
    match ← checked (QUICSNIExtractor.extract payload) with
    | some sni => return (t.classifyConnection p (sniToAppType sni) sni [] [], true)
    | none => return (t.classifyConnection p .quic [] [] [], true)
  else return (t, false)

def inspectHTTP (t : ConnectionTracker) (p : FlowKey) (payload : List UInt8) :
    Except Fault Inspected := do
  match ← checked (HTTPHostExtractor.extract payload) with
  | some host => return (t.classifyConnection p (sniToAppType host) [] host [], true)
  | none => return (t.classifyConnection p .http [] [] [], true)

def inspectTLS (t : ConnectionTracker) (p : FlowKey) (seq : UInt32) (payload : List UInt8) :
    Except Fault Inspected := do
  let (reassembler, name) := (t.conn p).tcpReassemblerClient.tryExtractSNI seq payload
  let t := t.modify p fun conn => { conn with tcpReassemblerClient := reassembler }
  match ← checked name with
  | some sni =>
    let t := t.classifyConnection p (sniToAppType sni) sni [] []
    return (t.modify p fun conn =>
      { conn with tcpReassemblerClient := conn.tcpReassemblerClient.clear }, true)
  | none => return (t, false)

def onPort (key : FlowKey) (port : UInt16) : Bool := key.srcPort = port || key.dstPort = port

/-- Classify by payload; only client packets of TCP are inspected. -/
def inspectByProtocol (t : ConnectionTracker) (p : FlowKey) (job : PacketJob) (client : Bool) :
    Except Fault Inspected := do
  let key := (t.conn p).flowKey
  if key.protocol = 17 then
    if onPort key 53 then inspectDNS t p job.payload else inspectQUIC t p job.payload
  else if key.protocol = 6 ∧ client then
    if onPort key 80 then inspectHTTP t p job.payload
    else if ← checked (HTTPHostExtractor.isHTTPRequest job.payload) then
      inspectHTTP t p job.payload
    else inspectTLS t p job.tcpSeqNumber job.payload
  else return (t, false)

def inspectPayload (t : ConnectionTracker) (p : FlowKey) (job : PacketJob) (client : Bool) :
    Except Fault ConnectionTracker := do
  if job.getPayload = none then return t
  let (t, updated) ← inspectByProtocol t p job client
  if !updated ∧ (t.conn p).packetsIn + (t.conn p).packetsOut > 10 then
    return t.classifyConnection p .unknown [] [] []
  return t

def contentBlocked (rules : RuleManager) (conn : Connection) : Bool :=
  rules.isAppBlocked conn.appType ||
    !conn.bestDomain.isEmpty && rules.isDomainBlocked conn.bestDomain

/-- Only a connection that is not yet classified is inspected. -/
def inspectOpen (t : ConnectionTracker) (p : FlowKey) (job : PacketJob) (client : Bool) :
    Except Fault ConnectionTracker :=
  if (t.conn p).state = .new ∨ (t.conn p).state = .established then inspectPayload t p job client
  else .ok t

/-- What happens to a packet of the connection after the lookup. -/
def verdict (rules : RuleManager) (t : ConnectionTracker) (p : FlowKey) (job : PacketJob)
    (client : Bool) : Except Fault (ConnectionTracker × PacketAction) := do
  if (t.conn p).state = .blocked then return (t, .drop)
  if ← ipBlocked rules (t.conn p) then return (t.blockConnection p, .drop)
  let t ← inspectOpen t p job client
  if (t.conn p).state = .classified ∧ contentBlocked rules (t.conn p) then
    return (t.blockConnection p, .drop)
  return (t, .forward)

def processPacket (rules : RuleManager) (env : PacketEnv) (job : PacketJob)
    (fp : FastPathProcessor) : Except Fault FastPathProcessor := do
  let fp := { fp with totalProcessed := fp.totalProcessed + 1 }
  let (t, p, client) ← lookupConnection fp.tracker env job
  let (t, action) ← verdict rules t p job client
  return { fp with tracker := t }.handleAction job action

end FastPathProcessor

end DpiEngine
