import DpiEngine.FastPath.Direction
import DpiEngine.FastPath.Isolation
import DpiEngine.Library.Weights
import DpiEngine.Tracker.Bounded

/-! # Packets are counted in entries

The packets of the entries and those of the entries that were removed are the
packets that came. So the table alone tells how many came as long as nothing is
evicted or found stale.
-/

namespace DpiEngine

open ConnectionTracker

def Connection.packets (conn : Connection) : ℕ := conn.packetsIn + conn.packetsOut

theorem Connection.packets_of_tally {c c' : Connection} {env : PacketEnv} {job : PacketJob}
    {client : Bool} (h : c'.tally = (c.follow env job client).tally) :
    c'.packets = c.packets + 1 := by
  rw [Connection.tally_follow] at h
  unfold Connection.packets
  split_ifs at h
  · simp only [Connection.tally, Prod.mk.injEq] at h
    omega
  · simp only [Connection.tally, Prod.mk.injEq] at h
    omega

/-- The packets of a connection of the protocol. -/
def Connection.packetsOf (protocol : UInt8) (conn : Connection) : ℕ :=
  if conn.flowKey.protocol = protocol then conn.packets else 0

/-- The connection that `evictOldest` removes. -/
def ConnectionTracker.evicted (t : ConnectionTracker) (order : BucketOrder) : List Connection :=
  match order.arrange t.connections.entries with
  | [] => []
  | e :: rest => [(oldest e rest).2]

namespace FastPathProcessor

/-- The connections that an input removes from the table. -/
def Input.removed (fp : FastPathProcessor) : Input → List Connection
  | .packet env job =>
    match lookupKey job with
    | .error _ => []
    | .ok key =>
      if key.canonical ∉ fp.tracker.connections ∧
          fp.tracker.connections.entries.length ≥ fp.tracker.maxConnections then
        fp.tracker.evicted env.order
      else []
  | .cleanup now =>
    (fp.tracker.connections.entries.filter fun e => isStale now defaultTimeout e.2).map (·.2)

def Input.arrived (protocol : UInt8) : Input → ℕ
  | .packet _ job => if job.tuple.protocol = protocol then 1 else 0
  | .cleanup _ => 0

variable {protocol : UInt8} {rules : RuleManager} {env : PacketEnv} {job : PacketJob}
  {fp fp' : FastPathProcessor} {t t' : ConnectionTracker} {p : FlowKey} {client : Bool}
  {action : PacketAction} {x : Input} {l : List Input} {conn : Connection}

def packetsOf (protocol : UInt8) (t : ConnectionTracker) : ℕ :=
  t.connections.weight (·.packetsOf protocol)

def packetsAmong (protocol : UInt8) (l : List Connection) : ℕ :=
  (l.map (·.packetsOf protocol)).sum

@[simp] theorem packetsAmong_cons (protocol : UInt8) (conn : Connection) (l : List Connection) :
    packetsAmong protocol (conn :: l) = conn.packetsOf protocol + packetsAmong protocol l :=
  List.sum_cons

@[simp] theorem packetsAmong_append (protocol : UInt8) (l l' : List Connection) :
    packetsAmong protocol (l ++ l') = packetsAmong protocol l + packetsAmong protocol l' := by
  simp [packetsAmong]

theorem weightAt_conn (h : p ∈ t.connections) :
    t.connections.weightAt (·.packetsOf protocol) p = (t.conn p).packetsOf protocol := by
  obtain ⟨conn, hconn⟩ := Option.isSome_iff_exists.mp (AList.lookup_isSome.mpr h)
  rw [AList.weightAt, ConnectionTracker.conn, hconn]
  rfl

/-! ### What is removed -/

theorem packetsOf_evictOldest (t : ConnectionTracker) (order : BucketOrder) :
    packetsOf protocol (t.evictOldest order) + packetsAmong protocol (t.evicted order) =
      packetsOf protocol t := by
  have hperm := order.perm t.connections.entries
  unfold evictOldest evicted
  cases harr : order.arrange t.connections.entries with
  | nil => rfl
  | cons e rest =>
    rw [harr] at hperm
    obtain ⟨hmem, hconn⟩ := mem_of_mem_entries (hperm.mem_iff.mp (oldest_mem e rest))
    have herase := AList.weight_erase_add (w := (·.packetsOf protocol)) t.connections
      (oldest e rest).1
    rw [weightAt_conn hmem, hconn] at herase
    simpa [packetsOf, packetsAmong] using herase

theorem packetsOf_cleanupStale (t : ConnectionTracker) (now timeout : ℕ) :
    packetsOf protocol (t.cleanupStale now timeout) + packetsAmong protocol
      ((t.connections.entries.filter fun e => isStale now timeout e.2).map (·.2)) =
        packetsOf protocol t := by
  have h := List.sum_map_filter_add (f := fun e => e.2.packetsOf protocol)
    (fun e => isStale now timeout e.2) t.connections.entries
  rw [Nat.add_comm] at h
  rw [packetsAmong, List.map_map]
  exact h

theorem mem_removed (h : conn ∈ x.removed fp) :
    ∃ k ∈ fp.tracker.connections, fp.tracker.conn k = conn := by
  have hentry {e : Sigma fun _ : FlowKey => Connection}
      (he : e ∈ fp.tracker.connections.entries) :
      ∃ k ∈ fp.tracker.connections, fp.tracker.conn k = e.2 := ⟨e.1, mem_of_mem_entries he⟩
  cases x with
  | cleanup now =>
    obtain ⟨e, he, rfl⟩ := List.mem_map.mp h
    exact hentry (List.mem_filter.mp he).1
  | packet env job =>
    unfold Input.removed at h
    cases hkey : lookupKey job with
    | error fault => simp [hkey] at h
    | ok key =>
      simp only [hkey] at h
      split_ifs at h
      · have hperm := env.order.perm fp.tracker.connections.entries
        unfold evicted at h
        cases harr : env.order.arrange fp.tracker.connections.entries with
        | nil => simp [harr] at h
        | cons e rest =>
          rw [harr] at h hperm
          obtain rfl := List.mem_singleton.mp h
          exact hentry (hperm.mem_iff.mp (oldest_mem e rest))
      · simp at h

/-! ### One packet -/

theorem packetsOf_of_touches (protocol : UInt8) (h : Touches p t t') (hp : p ∈ t.connections)
    (hpackets : (t'.conn p).packets = (t.conn p).packets + 1) :
    packetsOf protocol t' =
      packetsOf protocol t + if (t.conn p).flowKey.protocol = protocol then 1 else 0 := by
  have hdiff := AList.weight_of_lookup_ne (w := (·.packetsOf protocol)) h.lookup_ne
  rw [weightAt_conn hp, weightAt_conn (h.mem hp)] at hdiff
  simp only [Connection.packetsOf, h.flowKey, hpackets] at hdiff
  unfold packetsOf
  simp only [Connection.packetsOf]
  split_ifs at hdiff ⊢ <;> omega

theorem packetsOf_getOrCreateConnection (protocol : UInt8) {key : FlowKey}
    (h : t.getOrCreateConnection key env = .ok (t', p)) :
    packetsOf protocol t' + packetsAmong protocol
      (if key.canonical ∉ t.connections ∧ t.connections.entries.length ≥ t.maxConnections then
        t.evicted env.order else []) = packetsOf protocol t := by
  rcases getOrCreateConnection_cases t key env with ⟨hmem, heq⟩ | ⟨hnew, ⟨fault, heq⟩ | hcase⟩
  · cases heq.symm.trans h
    rw [if_neg fun h => h.1 hmem]
    rfl
  · cases heq.symm.trans h
  · obtain ⟨conn, t₁, hconn, heq, hinsert, -⟩ := hcase
    cases heq.symm.trans h
    obtain ⟨tuple, rfl⟩ := newConnection_ok hconn
    have hsub : key.canonical ∉ (t.makeRoom env.order).connections := by
      unfold makeRoom
      split_ifs
      · rcases evictOldest_lookup (t := t) env.order key.canonical with hsame | hnone
        · rw [← AList.lookup_eq_none, hsame]
          exact AList.lookup_eq_none.mpr hnew
        · exact AList.lookup_eq_none.mp hnone
      · exact hnew
    have hne (q) (hq : q ≠ key.canonical) :
        t'.connections.lookup q = (t.makeRoom env.order).connections.lookup q := by
      rw [hinsert, AList.lookup_insert_ne hq]
    have hdiff := AList.weight_of_lookup_ne (w := (·.packetsOf protocol)) hne
    rw [AList.weightAt_of_notMem hsub, AList.weightAt, hinsert, AList.lookup_insert] at hdiff
    have hroom : packetsOf protocol t' = packetsOf protocol (t.makeRoom env.order) := by
      rw [packetsOf, hinsert]
      simpa [Connection.packetsOf, Connection.packets, packetsOf] using hdiff
    rw [hroom]
    unfold makeRoom
    by_cases hfull : t.connections.entries.length ≥ t.maxConnections
    · rw [if_pos hfull, if_pos ⟨hnew, hfull⟩]
      exact packetsOf_evictOldest t env.order
    · rw [if_neg hfull, if_neg fun h => hfull h.2]
      rfl

theorem step_packetsOf (protocol : UInt8) (hk : fp.tracker.Keyed) (hx : x.IsIPv4)
    (h : AnyStep fp x fp') :
    packetsOf protocol fp'.tracker + packetsAmong protocol (x.removed fp) =
      packetsOf protocol fp.tracker + x.arrived protocol := by
  obtain ⟨rules, h⟩ := h
  cases x with
  | cleanup now =>
    cases h
    exact packetsOf_cleanupStale fp.tracker now defaultTimeout
  | packet env job =>
    obtain ⟨t, p, client, t', action, hlookup, hverdict, rfl⟩ := processPacket_ok.mp h
    obtain ⟨key, t₁, hkey, hcreate, rfl, hfollow⟩ := lookupConnection_ok hk hlookup
    have hmem := getOrCreateConnection_mem hcreate
    have hcreated := packetsOf_getOrCreateConnection protocol hcreate
    obtain ⟨rfl, -, -⟩ := getOrCreateConnection_ok hcreate
    have htouch : Touches key.canonical t₁ t' :=
      hfollow.toTouches.trans (verdict_touches hverdict)
    have htally := verdict_tally hverdict
    rw [hfollow.conn] at htally
    have hadd := packetsOf_of_touches protocol htouch hmem (Connection.packets_of_tally htally)
    obtain ⟨hjob, -⟩ := lookupKey_of_isIPv4 hx
    cases hkey.symm.trans hjob
    have hkeyed := (getOrCreateConnection_keyed hk hcreate).flowKey _ hmem
    rw [hkeyed, FlowKey.protocol_canonical, hx.2] at hadd
    simp only [Input.removed, hkey, Input.arrived]
    change packetsOf protocol t' + _ = _
    rw [hadd, Nat.add_right_comm, hcreated]
    rfl

/-- Every entry has counted a packet. -/
def Counted (fp : FastPathProcessor) : Prop :=
  ∀ k ∈ fp.tracker.connections, 1 ≤ (fp.tracker.conn k).packets

theorem step_counted (hk : fp.tracker.Keyed) (hc : Counted fp) (h : AnyStep fp x fp') :
    Counted fp' := by
  obtain ⟨rules, h⟩ := h
  refine step_entries (P := fun _ c => 1 ≤ c.packets) hk h hc ?_
  rintro env job k rfl ⟨key, hkey, rfl⟩
  obtain ⟨c, -, -, htally⟩ := processPacket_tally hk hkey h
  have hpackets := Connection.packets_of_tally htally
  omega

/-! ### Runs -/

def arrivals (protocol : UInt8) (l : List Input) : ℕ := (l.map (·.arrived protocol)).sum

/-- No connection of the protocols is removed. -/
def Keeps (protocols : List UInt8) (fp : FastPathProcessor) (x : Input) : Prop :=
  ∀ conn ∈ x.removed fp, conn.flowKey.protocol ∉ protocols

/-- A step that removes no connection of the protocols. -/
def KeepingStep (protocols : List UInt8) (fp : FastPathProcessor) (x : Input)
    (fp' : FastPathProcessor) : Prop := Keeps protocols fp x ∧ AnyStep fp x fp'

variable {protocols : List UInt8}

theorem packetsAmong_eq_zero {conns : List Connection}
    (h : ∀ conn ∈ conns, conn.flowKey.protocol ≠ protocol) : packetsAmong protocol conns = 0 := by
  rw [packetsAmong, List.sum_eq_zero_iff]
  intro n hn
  obtain ⟨conn, hconn, rfl⟩ := List.mem_map.mp hn
  exact if_neg (h conn hconn)

theorem protocol_ne_of_packetsAmong {conns : List Connection} (h : packetsAmong protocol conns = 0)
    (hpos : ∀ conn ∈ conns, 1 ≤ conn.packets) :
    ∀ conn ∈ conns, conn.flowKey.protocol ≠ protocol := by
  intro conn hconn heq
  have hzero := List.sum_eq_zero_iff.mp h _ (List.mem_map_of_mem hconn)
  have hpackets := hpos conn hconn
  rw [Connection.packetsOf, if_pos heq] at hzero
  omega

/-- As long as nothing is removed the table tells what came. -/
theorem run_packetsOf (hk : fp.tracker.Keyed) (hl : ∀ x ∈ l, x.IsIPv4)
    (h : Run (KeepingStep protocols) fp l fp') (hp : protocol ∈ protocols) :
    packetsOf protocol fp'.tracker = packetsOf protocol fp.tracker + arrivals protocol l := by
  induction h with
  | nil => rfl
  | @cons fp fp₁ fp' x l hstep _ ih =>
    obtain ⟨hkeeps, hstep⟩ := hstep
    obtain ⟨hx, hl⟩ := List.forall_mem_cons.mp hl
    have hstep' := step_packetsOf protocol hk hx hstep
    have hzero : packetsAmong protocol (x.removed fp) = 0 :=
      packetsAmong_eq_zero fun conn hconn heq => hkeeps conn hconn (heq ▸ hp)
    have hkeyed : fp₁.tracker.Keyed := by
      obtain ⟨rules, hstep⟩ := hstep
      exact step_keyed hk hstep
    rw [ih hkeyed hl]
    simp only [arrivals, List.map_cons, List.sum_cons]
    omega

theorem run_packetsOf_le (protocols : List UInt8) (hk : fp.tracker.Keyed) (hc : Counted fp)
    (hl : ∀ x ∈ l, x.IsIPv4) (h : Run AnyStep fp l fp') :
    (∀ protocol, packetsOf protocol fp'.tracker ≤
      packetsOf protocol fp.tracker + arrivals protocol l) ∧
    ((∀ protocol ∈ protocols, packetsOf protocol fp'.tracker =
      packetsOf protocol fp.tracker + arrivals protocol l) →
      Run (KeepingStep protocols) fp l fp') := by
  induction h with
  | nil => exact ⟨fun _ => le_rfl, fun _ => .nil _⟩
  | @cons fp fp₁ fp' x l hstep _ ih =>
    obtain ⟨hx, hl⟩ := List.forall_mem_cons.mp hl
    have hkeyed : fp₁.tracker.Keyed := by
      obtain ⟨rules, hstep⟩ := hstep
      exact step_keyed hk hstep
    have hstep' (protocol) := step_packetsOf protocol hk hx hstep
    have hsum (protocol) : arrivals protocol (x :: l) = x.arrived protocol + arrivals protocol l :=
      List.sum_cons
    obtain ⟨hle, hrest⟩ := ih hkeyed (step_counted hk hc hstep) hl
    constructor
    · intro protocol
      have h₁ := hle protocol
      have h₂ := hstep' protocol
      rw [hsum]
      omega
    · intro heq
      -- the rest cannot make up for what this step removes
      have hall (protocol) (hp : protocol ∈ protocols) :
          packetsAmong protocol (x.removed fp) = 0 ∧ packetsOf protocol fp'.tracker =
            packetsOf protocol fp₁.tracker + arrivals protocol l := by
        have h₁ := hle protocol
        have h₂ := hstep' protocol
        have h₃ := heq protocol hp
        rw [hsum] at h₃
        constructor
        · omega
        · omega
      refine .cons ⟨fun conn hconn hp => ?_, hstep⟩ (hrest fun protocol hp => (hall protocol hp).2)
      have hpos : ∀ c ∈ x.removed fp, 1 ≤ c.packets := by
        intro c hmem
        obtain ⟨k, hk, rfl⟩ := mem_removed hmem
        exact hc k hk
      exact protocol_ne_of_packetsAmong (hall _ hp).1 hpos conn hconn rfl

theorem packetsOf_iff (hl : ∀ x ∈ l, x.IsIPv4) (h : Run AnyStep {} l fp) :
    (∀ protocol ∈ protocols, packetsOf protocol fp.tracker = arrivals protocol l) ↔
      Run (KeepingStep protocols) {} l fp := by
  have hk : ({} : FastPathProcessor).tracker.Keyed := keyed_empty 100000
  have hempty (protocol) : packetsOf protocol ({} : FastPathProcessor).tracker = 0 := rfl
  have hc : Counted {} := fun k hk => absurd hk (AList.notMem_empty k)
  constructor
  · intro heq
    refine (run_packetsOf_le protocols hk hc hl h).2 fun protocol hp => ?_
    rw [heq protocol hp, hempty, Nat.zero_add]
  · intro hkeeps protocol hp
    rw [run_packetsOf hk hl hkeeps hp, hempty, Nat.zero_add]

theorem packetsOf_le (hl : ∀ x ∈ l, x.IsIPv4) (h : Run AnyStep {} l fp) (protocol : UInt8) :
    packetsOf protocol fp.tracker ≤ arrivals protocol l := by
  have hk : ({} : FastPathProcessor).tracker.Keyed := keyed_empty 100000
  have hc : Counted {} := fun k hk => absurd hk (AList.notMem_empty k)
  have hle := (run_packetsOf_le [] hk hc hl h).1 protocol
  have hempty : packetsOf protocol ({} : FastPathProcessor).tracker = 0 := rfl
  omega

end FastPathProcessor

end DpiEngine
