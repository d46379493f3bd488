import DpiEngine.FastPath.Conservation

/-! # The packets of TCP and UDP in the report

The engine has counters for both protocols but nothing increments them, so the
report adds up the packets of the connections that are left in the tables.
-/

namespace DpiEngine

/-- The counters of the engine that the report prints. -/
structure DPIStats where
  totalPackets : ℕ := 0
  totalBytes : ℕ := 0
  forwardedPackets : ℕ := 0
  droppedPackets : ℕ := 0
  tcpPackets : ℕ := 0
  udpPackets : ℕ := 0
  otherPackets : ℕ := 0

/-- The places where the engine counts: `readerThreadFunc` and `handleOutput`. -/
inductive DPIStats.Count
  | read (bytes : ℕ)
  | output (action : PacketAction)

/-- One step of a counter. -/
def DPIStats.count (stats : DPIStats) : DPIStats.Count → DPIStats
  | .read bytes => { stats with
      totalPackets := stats.totalPackets + 1
      totalBytes := stats.totalBytes + bytes }
  | .output action =>
    if action = .drop then { stats with droppedPackets := stats.droppedPackets + 1 }
    else { stats with forwardedPackets := stats.forwardedPackets + 1 }

def ConnectionTracker.getAllConnections (t : ConnectionTracker) (order : BucketOrder) :
    List Connection := (order.arrange t.connections.entries).map (·.2)

def addPackets (sum : ℕ × ℕ) (conn : Connection) : ℕ × ℕ :=
  let p := conn.packetsIn + conn.packetsOut
  if conn.flowKey.protocol = 6 then (sum.1 + p, sum.2)
  else if conn.flowKey.protocol = 17 then (sum.1, sum.2 + p)
  else sum

def protocolPackets (stats : DPIStats) (conns : List Connection) : ℕ × ℕ :=
  if stats.tcpPackets = 0 ∧ stats.udpPackets = 0 then conns.foldl addPackets (0, 0)
  else (stats.tcpPackets, stats.udpPackets)

open FastPathProcessor

/-- A processor after a run over IPv4 jobs and cleanups, and the order of its hash table. -/
structure FPRun where
  inputs : List Input
  fp : FastPathProcessor
  order : BucketOrder
  run : Run AnyStep {} inputs fp
  ipv4 : ∀ x ∈ inputs, x.IsIPv4

/-- The connections that the report is made from. -/
def allConnections (fps : List FPRun) : List Connection :=
  fps.flatMap fun f => f.fp.tracker.getAllConnections f.order

/-- The jobs of the protocol that were passed to `processPacket`. -/
def processed (protocol : UInt8) (fps : List FPRun) : ℕ :=
  (fps.map fun f => arrivals protocol f.inputs).sum

variable {stats : DPIStats}

theorem DPIStats.foldl_count (counts : List DPIStats.Count) :
    (counts.foldl DPIStats.count stats).tcpPackets = stats.tcpPackets ∧
      (counts.foldl DPIStats.count stats).udpPackets = stats.udpPackets := by
  induction counts generalizing stats with
  | nil => exact ⟨rfl, rfl⟩
  | cons c counts ih =>
    have hstep : (stats.count c).tcpPackets = stats.tcpPackets ∧
        (stats.count c).udpPackets = stats.udpPackets := by
      cases c with
      | read bytes => exact ⟨rfl, rfl⟩
      | output action =>
        by_cases hdrop : action = .drop
        · simp [DPIStats.count, hdrop]
        · simp [DPIStats.count, hdrop]
    rw [List.foldl_cons]
    exact ⟨ih.1.trans hstep.1, ih.2.trans hstep.2⟩

theorem foldl_addPackets (sum : ℕ × ℕ) (conns : List Connection) :
    conns.foldl addPackets sum =
      (sum.1 + packetsAmong 6 conns, sum.2 + packetsAmong 17 conns) := by
  induction conns generalizing sum with
  | nil => rfl
  | cons conn conns ih =>
    rw [List.foldl_cons, ih, packetsAmong_cons, packetsAmong_cons]
    have h₆ : (6 : UInt8) ≠ 17 := by decide
    unfold addPackets Connection.packetsOf Connection.packets
    split_ifs <;> simp_all [Nat.add_assoc]

theorem protocolPackets_eq (counts : List DPIStats.Count) (conns : List Connection) :
    protocolPackets (counts.foldl DPIStats.count {}) conns =
      (packetsAmong 6 conns, packetsAmong 17 conns) := by
  rw [protocolPackets, if_pos (DPIStats.foldl_count counts), foldl_addPackets, Nat.zero_add,
    Nat.zero_add]

theorem packetsAmong_getAllConnections (protocol : UInt8) (t : ConnectionTracker)
    (order : BucketOrder) :
    packetsAmong protocol (t.getAllConnections order) = packetsOf protocol t := by
  rw [packetsAmong, ConnectionTracker.getAllConnections, List.map_map]
  exact ((order.perm t.connections.entries).map _).sum_eq

theorem packetsAmong_allConnections (protocol : UInt8) (fps : List FPRun) :
    packetsAmong protocol (allConnections fps) =
      (fps.map fun f => packetsOf protocol f.fp.tracker).sum := by
  induction fps with
  | nil => rfl
  | cons f fps ih =>
    rw [allConnections, List.flatMap_cons, packetsAmong_append, packetsAmong_getAllConnections,
      ← allConnections, ih, List.map_cons, List.sum_cons]

theorem packetsAmong_eq_processed_iff (protocol : UInt8) (fps : List FPRun) :
    packetsAmong protocol (allConnections fps) = processed protocol fps ↔
      ∀ f ∈ fps, packetsOf protocol f.fp.tracker = arrivals protocol f.inputs := by
  rw [packetsAmong_allConnections]
  exact List.sum_map_eq_iff fun f _ => packetsOf_le f.ipv4 f.run protocol

/--
The report prints the numbers of the TCP and UDP jobs that were processed exactly if no step of a
processor has removed a TCP or UDP connection.
-/
theorem protocolPackets_iff (counts : List DPIStats.Count) (fps : List FPRun) :
    protocolPackets (counts.foldl DPIStats.count {}) (allConnections fps) =
        (processed 6 fps, processed 17 fps) ↔
      ∀ f ∈ fps, Run (KeepingStep [6, 17]) {} f.inputs f.fp := by
  rw [protocolPackets_eq, Prod.mk.injEq, packetsAmong_eq_processed_iff,
    packetsAmong_eq_processed_iff, ← forall₂_and]
  refine forall₂_congr fun f _ => ?_
  rw [← packetsOf_iff f.ipv4 f.run]
  simp

def resetJob : PacketJob where
  tuple := { protocol := 6 }
  flowKey := { protocol := 6 }
  hasFlowKey := true
  data := List.replicate 54 0
  tcpFlags := 0x04

/-- The reset closes the connection and the next cleanup removes it. -/
theorem not_protocolPackets_reset : ∃ f : FPRun,
    f.inputs = [.packet {} resetJob, .cleanup 0] ∧
    protocolPackets {} (allConnections [f]) = (0, 0) ∧
    (processed 6 [f], processed 17 [f]) = (1, 0) := by
  obtain ⟨fp₁, h₁, hcleaned⟩ : ∃ fp₁, Step {} {} (.packet {} resetJob) fp₁ ∧
      (fp₁.tracker.cleanupStale 0 defaultTimeout).connections.entries = [] := ⟨_, rfl, by decide⟩
  obtain ⟨fp₂, h₂, hempty⟩ : ∃ fp₂, Step {} fp₁ (.cleanup 0) fp₂ ∧
      fp₂.tracker.connections.entries = [] := ⟨_, rfl, hcleaned⟩
  have hipv4 : ∀ x ∈ [Input.packet {} resetJob, .cleanup 0], x.IsIPv4 :=
    List.forall_mem_cons.mpr ⟨⟨rfl, rfl⟩, List.forall_mem_singleton.mpr trivial⟩
  refine ⟨⟨_, fp₂, .asStored, .cons ⟨{}, h₁⟩ (.cons ⟨{}, h₂⟩ (.nil _)), hipv4⟩, rfl, ?_, rfl⟩
  simp [protocolPackets, allConnections, ConnectionTracker.getAllConnections,
    BucketOrder.asStored, hempty]

end DpiEngine
