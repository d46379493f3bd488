import DpiEngine.FastPath.Run
import DpiEngine.Library.Shutdown
import DpiEngine.Packet.Frame
import Mathlib.Data.Fintype.Sigma
import Mathlib.Data.Fintype.Sum
import Mathlib.Tactic.DeriveFintype

/-! # The engine

The reader, the parser workers, the load balancers, the fast path processors and
the output thread form a network. The controlling thread runs `waitForCompletion`
and then `stop`.
-/

namespace DpiEngine

abbrev ThreadSafeQueue := BoundedQueue

structure RawPacketJob where
  packetId : UInt32 := 0
  tsSec : UInt32 := 0
  tsUsec : UInt32 := 0
  data : List UInt8
  deriving DecidableEq, Repr

def RawPacketJob.toRawPacket (r : RawPacketJob) : RawPacket where
  tsSec := r.tsSec
  tsUsec := r.tsUsec
  data := r.data

/-- `DPIEngine::Config`, with the fixed sizes of the inner queues. -/
structure Config where
  numParserWorkers : ℕ := 2
  numLoadBalancers : ℕ := 2
  fpsPerLb : ℕ := 2
  queueSize : ℕ := 10000
  lbQueueSize : ℕ := 10000
  fpQueueSize : ℕ := 10000
  numLoadBalancers_pos : 0 < numLoadBalancers := by decide
  fpsPerLb_pos : 0 < fpsPerLb := by decide

def Config.parserCount (cfg : Config) : ℕ := max cfg.numParserWorkers 1

theorem Config.parserCount_pos (cfg : Config) : 0 < cfg.parserCount :=
  Nat.lt_of_lt_of_le Nat.one_pos (Nat.le_max_right _ _)

inductive QueueId (cfg : Config)
  | rawPacket
  | lb (i : Fin cfg.numLoadBalancers)
  | fp (i : Fin cfg.numLoadBalancers) (j : Fin cfg.fpsPerLb)
  | output
  deriving DecidableEq, Fintype

inductive Thread (cfg : Config)
  | parser (p : Fin cfg.parserCount)
  | lb (i : Fin cfg.numLoadBalancers)
  | fp (i : Fin cfg.numLoadBalancers) (j : Fin cfg.fpsPerLb)
  | output
  deriving DecidableEq, Fintype

/-- What the queues carry. -/
inductive Item
  | raw (r : RawPacketJob)
  | packet (job : PacketJob)
  deriving DecidableEq

structure ParserStats where
  totalParsed : ℕ := 0
  totalErrors : ℕ := 0

structure LBStats (cfg : Config) where
  packetsReceived : ℕ := 0
  packetsDispatched : ℕ := 0
  perFpPackets : Fin cfg.fpsPerLb → ℕ := fun _ => 0

variable (cfg : Config)

/-- The data of a thread; the output thread has the packets written to the file. -/
def ThreadState : Thread cfg → Type
  | .parser _ => ParserStats
  | .lb _ => LBStats cfg
  | .fp _ _ => FastPathProcessor
  | .output => List PacketJob

abbrev Result := Option (QueueId cfg × Item)

def getLBForPacket (H : StdHash) (t : FiveTuple) : Fin cfg.numLoadBalancers :=
  ⟨(t.hash H).toNat % cfg.numLoadBalancers, Nat.mod_lt _ cfg.numLoadBalancers_pos⟩

def selectFP (H : StdHash) (t : FiveTuple) : Fin cfg.fpsPerLb :=
  ⟨(t.hash H).toNat % cfg.fpsPerLb, Nat.mod_lt _ cfg.fpsPerLb_pos⟩

/-- Packets that are not dropped go to the output queue while the file is open. -/
def handleOutput (isOpen : Bool) (job : PacketJob) (action : PacketAction) : Result cfg :=
  if action = .drop then none
  else if isOpen then some (.output, .packet job)
  else none

namespace Thread

def parse (H : StdHash) (stats : ParserStats) : Item → Option (ParserStats × Result cfg)
  | .raw r =>
    match (ParserWorker.parseJob r.toRawPacket r.packetId).value with
    | none => none
    | some none => some ({ stats with totalErrors := stats.totalErrors + 1 }, none)
    | some (some job) => some (stats, some (.lb (getLBForPacket cfg H job.tuple), .packet job))
  | .packet _ => none

def dispatch (H : StdHash) (i : Fin cfg.numLoadBalancers) (stats : LBStats cfg) :
    Item → Option (LBStats cfg × Result cfg)
  | .packet job =>
    some ({ stats with packetsReceived := stats.packetsReceived + 1 },
      some (.fp i (selectFP cfg H job.tuple), .packet job))
  | .raw _ => none

/-- The callback of `handleAction` gets the last action of the processor. -/
def process (rules : RuleManager) (isOpen : Bool) (env : PacketEnv) (fp : FastPathProcessor) :
    Item → Option (FastPathProcessor × Result cfg)
  | .packet job =>
    match fp.processPacket rules env job with
    | .ok fp' =>
      some (fp', fp'.actions.getLast?.bind fun (job, action) => handleOutput cfg isOpen job action)
    | .error _ => none
  | .raw _ => none

def write (file : List PacketJob) : Item → Option (List PacketJob × Result cfg)
  | .packet job => some (file ++ [job], none)
  | .raw _ => none

end Thread

namespace DPIEngine

open Command

/-- Each worker stops and is joined in turn. -/
def stopParsers : List (Command (QueueId cfg) (Thread cfg)) :=
  (List.finRange cfg.parserCount).flatMap fun p => [clear (.parser p), join (.parser p)]

def stopLBs : List (Command (QueueId cfg) (Thread cfg)) :=
  (List.finRange cfg.numLoadBalancers).flatMap fun i =>
    [clear (.lb i), close (.lb i), join (.lb i)]

def stopFPs : List (Command (QueueId cfg) (Thread cfg)) :=
  (List.finRange cfg.numLoadBalancers).flatMap fun i =>
    (List.finRange cfg.fpsPerLb).flatMap fun j => [clear (.fp i j), close (.fp i j), join (.fp i j)]

def waitForCompletion : List (Command (QueueId cfg) (Thread cfg)) :=
  [joinSource, close .rawPacket] ++ stopParsers cfg

/-- The parsers are stopped already, so that stopping them again does nothing. -/
def stop : List (Command (QueueId cfg) (Thread cfg)) :=
  [clear .output, close .rawPacket] ++ stopLBs cfg ++ stopFPs cfg ++ [close .output, join .output]

/-- The engine during one run, with the output file open or not. -/
def network (H : StdHash) (rules : RuleManager) (isOpen : Bool) :
    Network (QueueId cfg) (Thread cfg) PacketEnv Item (ThreadState cfg) where
  source := .rawPacket
  maxSize
    | .rawPacket => cfg.queueSize
    | .lb _ => cfg.lbQueueSize
    | .fp _ _ => cfg.fpQueueSize
    | .output => cfg.queueSize
  input
    | .parser _ => .rawPacket
    | .lb i => .lb i
    | .fp i j => .fp i j
    | .output => .output
  testsFirst
    | .output => true
    | _ => false
  start
    | .parser _ => ({} : ParserStats)
    | .lb _ => ({} : LBStats cfg)
    | .fp _ _ => ({} : FastPathProcessor)
    | .output => ([] : List PacketJob)
  work
    | .parser _, _ => Thread.parse cfg H
    | .lb i, _ => Thread.dispatch cfg H i
    | .fp _ _, env => Thread.process cfg rules isOpen env
    | .output, _ => Thread.write cfg
  sent
    | .parser _, _ => fun (stats : ParserStats) =>
      { stats with totalParsed := stats.totalParsed + 1 }
    | .lb i, q => fun (stats : LBStats cfg) =>
      { stats with
        packetsDispatched := stats.packetsDispatched + 1
        perFpPackets := fun j => stats.perFpPackets j + if q = .fp i j then 1 else 0 }
    | .fp _ _, _ => id
    | .output, _ => id
  maintain
    | .parser _, _ => id
    | .lb _, _ => id
    | .fp _ _, env => fun (fp : FastPathProcessor) =>
      { fp with tracker := fp.tracker.cleanupStale env.seenAt FastPathProcessor.defaultTimeout }
    | .output, _ => id
  script := waitForCompletion cfg ++ stop cfg

abbrev State := Network.State (QueueId cfg) (Thread cfg) Item (ThreadState cfg)

abbrev processFile (H : StdHash) (rules : RuleManager) := network cfg H rules true

abbrev processSynthetic (H : StdHash) (rules : RuleManager) := network cfg H rules false

def identityHash : StdHash := ⟨UInt32.toUInt64, UInt16.toUInt64, UInt8.toUInt64⟩

end DPIEngine

end DpiEngine
