import DpiEngine.Flow.Text
import DpiEngine.Library.JsonText
import DpiEngine.Report.Counts

/-! # The JSON report

The report is written piece by piece between quotation marks, commas and
brackets that stand in the source. The summaries of applications and domains are
kept in hash tables, whose order comes from outside. The texts of floating point
numbers are taken to be numbers.
-/

namespace DpiEngine

open JsonText

/-- The text of a floating point number. -/
structure NumberText where
  text : List UInt8
  isNumber : IsNumber text

/-- `elapsed_seconds` and what is computed from it, as they are printed. -/
structure Rates where
  elapsedSeconds : NumberText
  pps : NumberText
  mbps : NumberText

def NumberText.zero (n : ℕ) : NumberText :=
  ⟨decimal 0 ++ 0x2E :: List.replicate (n + 1) 0x30, isNumber_fixed 0 (isDigits_replicate_zero n)⟩

def Rates.none : Rates := ⟨.zero 3, .zero 1, .zero 1⟩

structure AppSummary where
  flows : ℕ := 0
  packets : ℕ := 0
  bytes : ℕ := 0
  blocked : Bool := false

structure DomainSummary where
  app : Name := []
  packets : ℕ := 0
  blocked : Bool := false

/-- The order in which an iteration over a hash table of summaries visits the entries. -/
structure SummaryOrder (β : Type) where
  arrange : List (Sigma fun _ : Name => β) → List (Sigma fun _ : Name => β)
  perm : ∀ l, (arrange l).Perm l

def SummaryOrder.asStored (β : Type) : SummaryOrder β := ⟨id, fun _ => .refl _⟩

structure Summaries where
  appMap : AList fun _ : Name => AppSummary := ∅
  domainMap : AList fun _ : Name => DomainSummary := ∅

def Connection.isBlocked (conn : Connection) : Bool :=
  conn.action = .drop || conn.state = .blocked

def AppSummary.add (entry : AppSummary) (conn : Connection) : AppSummary where
  flows := entry.flows + 1
  packets := entry.packets + (conn.packetsIn + conn.packetsOut)
  bytes := entry.bytes + (conn.bytesIn + conn.bytesOut)
  blocked := if conn.isBlocked then true else entry.blocked

def DomainSummary.add (entry : DomainSummary) (conn : Connection) : DomainSummary where
  app := ascii (appTypeToString conn.appType)
  packets := entry.packets + (conn.packetsIn + conn.packetsOut)
  blocked := if conn.isBlocked then true else entry.blocked

/-- The loop that fills both tables; flows without a domain are left out of the second. -/
def Summaries.add (s : Summaries) (conn : Connection) : Summaries where
  appMap :=
    let appName := ascii (appTypeToString conn.appType)
    s.appMap.insert appName (((s.appMap.lookup appName).getD {}).add conn)
  domainMap :=
    let domain := conn.bestDomain
    if domain.isEmpty then s.domainMap
    else s.domainMap.insert domain (((s.domainMap.lookup domain).getD {}).add conn)

def summarize (conns : List Connection) : Summaries := conns.foldl Summaries.add {}

/-- Everything that the report is made from. -/
structure ReportSource where
  stats : DPIStats := {}
  rates : Rates
  appOrder : SummaryOrder AppSummary := .asStored _
  domainOrder : SummaryOrder DomainSummary := .asStored _
  conns : List Connection := []

namespace ReportSource

def ofConns (conns : List Connection) : ReportSource := { rates := .none, conns := conns }

variable (r : ReportSource)

def tcpPkts : ℕ := (protocolPackets r.stats r.conns).1

def udpPkts : ℕ := (protocolPackets r.stats r.conns).2

def otherPkts : ℕ :=
  if r.stats.totalPackets > r.tcpPkts + r.udpPkts then r.stats.totalPackets - r.tcpPkts - r.udpPkts
  else r.stats.otherPackets

def apps : List (Sigma fun _ : Name => AppSummary) :=
  r.appOrder.arrange (summarize r.conns).appMap.entries

def domains : List (Sigma fun _ : Name => DomainSummary) :=
  r.domainOrder.arrange (summarize r.conns).domainMap.entries

end ReportSource

def statusText (blocked : Bool) : List UInt8 := ascii (if blocked then "BLOCKED" else "FORWARDED")

def stateText : ConnectionState → List UInt8
  | .new => ascii "NEW"
  | .established => ascii "ESTABLISHED"
  | .classified => ascii "CLASSIFIED"
  | .blocked => ascii "BLOCKED"
  | .closed => ascii "CLOSED"

def actionText (action : PacketAction) : List UInt8 :=
  ascii (if action = .drop then "DROP" else "FORWARD")

def protocolText (protocol : UInt8) : List UInt8 :=
  ascii (if protocol = 6 then "TCP" else if protocol = 17 then "UDP" else "OTHER")

/-! ### The pieces -/

def fieldLine (indent : ℕ) (name : String) (value lineEnd : List UInt8) : List UInt8 :=
  blanks indent ++ ascii "\"" ++ ascii name ++ ascii "\": " ++ value ++ lineEnd

def inQuotes (text : List UInt8) : List UInt8 := ascii "\"" ++ text ++ ascii "\""

def textLine (indent : ℕ) (name : String) (text lineEnd : List UInt8) : List UInt8 :=
  fieldLine indent name (inQuotes text) lineEnd

def more : List UInt8 := ascii ",\n"

def last : List UInt8 := ascii "\n"

def summaryPiece (r : ReportSource) : List UInt8 :=
  ascii "  \"summary\": \x7b\n" ++
  fieldLine 4 "total_packets" (decimal r.stats.totalPackets) more ++
  fieldLine 4 "total_bytes" (decimal r.stats.totalBytes) more ++
  fieldLine 4 "forwarded_packets" (decimal r.stats.forwardedPackets) more ++
  fieldLine 4 "dropped_packets" (decimal r.stats.droppedPackets) more ++
  fieldLine 4 "tcp_packets" (decimal r.tcpPkts) more ++
  fieldLine 4 "udp_packets" (decimal r.udpPkts) more ++
  fieldLine 4 "other_packets" (decimal r.otherPkts) more ++
  fieldLine 4 "elapsed_seconds" r.rates.elapsedSeconds.text more ++
  fieldLine 4 "packets_per_second" r.rates.pps.text more ++
  fieldLine 4 "mb_per_second" r.rates.mbps.text last ++
  ascii "  \x7d,\n"

def protocolsPiece (r : ReportSource) : List UInt8 :=
  ascii "  \"protocols\": \x7b\n" ++
  fieldLine 4 "TCP" (decimal r.tcpPkts) more ++
  fieldLine 4 "UDP" (decimal r.udpPkts) more ++
  fieldLine 4 "Other" (decimal r.otherPkts) last ++
  ascii "  \x7d,\n"

def loopPieces {α : Type} (piece : α → List UInt8) (l : List α) : List UInt8 :=
  l.zipIdx.flatMap fun (a, idx) =>
    piece a ++ (if idx + 1 < l.length then ascii "," else ascii "") ++ ascii "\n"

def appPiece (pair : Sigma fun _ : Name => AppSummary) : List UInt8 :=
  ascii "    \x7b\n" ++
  textLine 6 "name" pair.1 more ++
  fieldLine 6 "flows" (decimal pair.2.flows) more ++
  fieldLine 6 "packets" (decimal pair.2.packets) more ++
  fieldLine 6 "bytes" (decimal pair.2.bytes) more ++
  textLine 6 "status" (statusText pair.2.blocked) last ++
  ascii "    \x7d"

def domainPiece (pair : Sigma fun _ : Name => DomainSummary) : List UInt8 :=
  ascii "    \x7b\n" ++
  textLine 6 "domain" pair.1 more ++
  textLine 6 "application" pair.2.app more ++
  fieldLine 6 "packets" (decimal pair.2.packets) more ++
  textLine 6 "status" (statusText pair.2.blocked) last ++
  ascii "    \x7d"

def flowPiece (conn : Connection) : List UInt8 :=
  ascii "    \x7b\n" ++
  textLine 6 "flow" (ascii conn.flowKey.toString) more ++
  textLine 6 "protocol" (protocolText conn.flowKey.protocol) more ++
  textLine 6 "application" (ascii (appTypeToString conn.appType)) more ++
  textLine 6 "domain" conn.bestDomain more ++
  textLine 6 "state" (stateText conn.state) more ++
  textLine 6 "action" (actionText conn.action) more ++
  fieldLine 6 "packets" (decimal (conn.packetsIn + conn.packetsOut)) more ++
  fieldLine 6 "bytes" (decimal (conn.bytesIn + conn.bytesOut)) last ++
  ascii "    \x7d"

def generateJSONReport (r : ReportSource) : List UInt8 :=
  ascii "\x7b\n" ++ summaryPiece r ++ protocolsPiece r ++
  ascii "  \"applications\": [\n" ++ loopPieces appPiece r.apps ++ ascii "  ],\n" ++
  ascii "  \"domains\": [\n" ++ loopPieces domainPiece r.domains ++ ascii "  ],\n" ++
  ascii "  \"flows\": [\n" ++ loopPieces flowPiece r.conns ++ ascii "  ]\n" ++
  ascii "\x7d\n"

/-! ### The value -/

def summaryValue (r : ReportSource) : Json := .object [
  (ascii "total_packets", .number (decimal r.stats.totalPackets)),
  (ascii "total_bytes", .number (decimal r.stats.totalBytes)),
  (ascii "forwarded_packets", .number (decimal r.stats.forwardedPackets)),
  (ascii "dropped_packets", .number (decimal r.stats.droppedPackets)),
  (ascii "tcp_packets", .number (decimal r.tcpPkts)),
  (ascii "udp_packets", .number (decimal r.udpPkts)),
  (ascii "other_packets", .number (decimal r.otherPkts)),
  (ascii "elapsed_seconds", .number r.rates.elapsedSeconds.text),
  (ascii "packets_per_second", .number r.rates.pps.text),
  (ascii "mb_per_second", .number r.rates.mbps.text)]

def protocolsValue (r : ReportSource) : Json := .object [
  (ascii "TCP", .number (decimal r.tcpPkts)),
  (ascii "UDP", .number (decimal r.udpPkts)),
  (ascii "Other", .number (decimal r.otherPkts))]

def appValue (pair : Sigma fun _ : Name => AppSummary) : Json := .object [
  (ascii "name", .string pair.1),
  (ascii "flows", .number (decimal pair.2.flows)),
  (ascii "packets", .number (decimal pair.2.packets)),
  (ascii "bytes", .number (decimal pair.2.bytes)),
  (ascii "status", .string (statusText pair.2.blocked))]

def domainValue (pair : Sigma fun _ : Name => DomainSummary) : Json := .object [
  (ascii "domain", .string pair.1),
  (ascii "application", .string pair.2.app),
  (ascii "packets", .number (decimal pair.2.packets)),
  (ascii "status", .string (statusText pair.2.blocked))]

def flowValue (conn : Connection) : Json := .object [
  (ascii "flow", .string (ascii conn.flowKey.toString)),
  (ascii "protocol", .string (protocolText conn.flowKey.protocol)),
  (ascii "application", .string (ascii (appTypeToString conn.appType))),
  (ascii "domain", .string conn.bestDomain),
  (ascii "state", .string (stateText conn.state)),
  (ascii "action", .string (actionText conn.action)),
  (ascii "packets", .number (decimal (conn.packetsIn + conn.packetsOut))),
  (ascii "bytes", .number (decimal (conn.bytesIn + conn.bytesOut)))]

/-- The value that the report is meant to be a text of. -/
def reportValue (r : ReportSource) : Json := .object [
  (ascii "summary", summaryValue r),
  (ascii "protocols", protocolsValue r),
  (ascii "applications", .array (r.apps.map appValue)),
  (ascii "domains", .array (r.domains.map domainValue)),
  (ascii "flows", .array (r.conns.map flowValue))]

end DpiEngine
