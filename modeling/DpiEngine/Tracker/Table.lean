import DpiEngine.Library.Outcome
import DpiEngine.Tracker.Connection

/-! # The flow table

Every operation on a connection changes the entry behind its pointer and nothing
else. Entries stay under their own flow key, which is canonical.
-/

namespace DpiEngine

namespace ConnectionTracker

variable {t t' : ConnectionTracker} {p q : FlowKey} {f g : Connection → Connection}

@[simp] theorem lookup_modify_self (t : ConnectionTracker) (p : FlowKey)
    (f : Connection → Connection) :
    (t.modify p f).connections.lookup p = some (f (t.conn p)) := AList.lookup_insert _

theorem lookup_modify_ne (t : ConnectionTracker) (f : Connection → Connection) (h : q ≠ p) :
    (t.modify p f).connections.lookup q = t.connections.lookup q := AList.lookup_insert_ne h

@[simp] theorem conn_modify (t : ConnectionTracker) (p : FlowKey) (f : Connection → Connection) :
    (t.modify p f).conn p = f (t.conn p) := by
  rw [conn, lookup_modify_self]; rfl

theorem mem_modify : q ∈ (t.modify p f).connections ↔ q = p ∨ q ∈ t.connections :=
  AList.mem_insert _

@[simp] theorem mem_modify_self : p ∈ (t.modify p f).connections := mem_modify.mpr (.inl rfl)

/-- Entries are stored under their own flow key, which is canonical. -/
structure Keyed (t : ConnectionTracker) : Prop where
  flowKey : ∀ p ∈ t.connections, (t.conn p).flowKey = p
  canonical : ∀ p ∈ t.connections, p.canonical = p

theorem keyed_empty (n : ℕ) : Keyed { maxConnections := n } :=
  ⟨fun _ h => absurd h (AList.notMem_empty _), fun _ h => absurd h (AList.notMem_empty _)⟩

theorem Keyed.of_lookup (ht : t.Keyed)
    (h : ∀ q ∈ t'.connections, t'.connections.lookup q = t.connections.lookup q ∨
      (t'.conn q).flowKey = q ∧ q.canonical = q) : t'.Keyed := by
  have hmem (q : FlowKey) (hq : q ∈ t'.connections)
      (hlook : t'.connections.lookup q = t.connections.lookup q) : q ∈ t.connections :=
    AList.lookup_isSome.mp (hlook ▸ AList.lookup_isSome.mpr hq)
  constructor
  · intro q hq
    rcases h q hq with hlook | ⟨hkey, -⟩
    · rw [conn, hlook]
      exact ht.flowKey q (hmem q hq hlook)
    · exact hkey
  · intro q hq
    rcases h q hq with hlook | ⟨-, hcanonical⟩
    · exact ht.canonical q (hmem q hq hlook)
    · exact hcanonical

theorem Keyed.of_sub (ht : t.Keyed)
    (h : ∀ q, t'.connections.lookup q = t.connections.lookup q ∨
      t'.connections.lookup q = none) : t'.Keyed := by
  refine ht.of_lookup fun q hq => .inl ((h q).resolve_right fun hnone => ?_)
  exact absurd hq (AList.lookup_eq_none.mp hnone)

/-- Only the entry behind the pointer changes, and it keeps its flow key. -/
structure Touches (p : FlowKey) (t t' : ConnectionTracker) : Prop where
  lookup_ne : ∀ q, q ≠ p → t'.connections.lookup q = t.connections.lookup q
  mem : p ∈ t.connections → p ∈ t'.connections
  flowKey : (t'.conn p).flowKey = (t.conn p).flowKey

namespace Touches

theorem refl (p : FlowKey) (t : ConnectionTracker) : Touches p t t :=
  ⟨fun _ _ => rfl, id, rfl⟩

theorem trans {t'' : ConnectionTracker} (h : Touches p t t') (h' : Touches p t' t'') :
    Touches p t t'' :=
  ⟨fun q hq => (h'.lookup_ne q hq).trans (h.lookup_ne q hq), fun hp => h'.mem (h.mem hp),
    h'.flowKey.trans h.flowKey⟩

theorem modify (hf : ∀ conn, (f conn).flowKey = conn.flowKey) :
    Touches p t (t.modify p f) := by
  constructor
  · intro q hq
    exact lookup_modify_ne t f hq
  · intro _
    exact mem_modify_self
  · rw [conn_modify, hf]

theorem keyed (h : Touches p t t') (hp : p ∈ t.connections) (ht : t.Keyed) : t'.Keyed := by
  refine ht.of_lookup fun q _ => ?_
  by_cases hqp : q = p
  · subst hqp
    exact .inr ⟨h.flowKey.trans (ht.flowKey q hp), ht.canonical q hp⟩
  · exact .inl (h.lookup_ne q hqp)

end Touches

theorem conn_classifyConnection (t : ConnectionTracker) (p : FlowKey) (app : AppType)
    (sni httpHost dnsQuery : Name) :
    (t.classifyConnection p app sni httpHost dnsQuery).conn p =
      (t.conn p).classify app sni httpHost dnsQuery :=
  conn_modify t p fun conn => conn.classify app sni httpHost dnsQuery

theorem touches_classifyConnection (app : AppType) (sni httpHost dnsQuery : Name) :
    Touches p t (t.classifyConnection p app sni httpHost dnsQuery) := by
  have h : Touches p t (t.modify p fun conn => conn.classify app sni httpHost dnsQuery) :=
    .modify fun _ => rfl
  exact ⟨h.lookup_ne, h.mem, h.flowKey⟩

theorem conn_blockConnection (t : ConnectionTracker) (p : FlowKey) :
    (t.blockConnection p).conn p = { t.conn p with state := .blocked, action := .drop } :=
  conn_modify t p fun conn => { conn with state := .blocked, action := .drop }

theorem touches_blockConnection : Touches p t (t.blockConnection p) := by
  have h : Touches p t (t.modify p fun conn => { conn with state := .blocked, action := .drop }) :=
    .modify fun _ => rfl
  exact ⟨h.lookup_ne, h.mem, h.flowKey⟩

theorem closeConnection_own (ht : t.Keyed) (hp : p ∈ t.connections) :
    t.closeConnection (t.conn p).flowKey =
      t.modify p fun conn => { conn with state := .closed } := by
  rw [closeConnection, ht.flowKey p hp, ht.canonical p hp, if_pos hp]

theorem newConnection_ok {key : FlowKey} {now : ℕ} {conn : Connection}
    (h : newConnection key now = .ok conn) :
    ∃ tuple, conn = { flowKey := key.canonical, originalIsCanonical := key = key.canonical
                      firstSeen := now, lastSeen := now, tuple := tuple } := by
  unfold newConnection at h
  split_ifs at h
  · cases h; exact ⟨{}, rfl⟩
  · simp only [Except.do_eq_ok_iff] at h
    obtain ⟨srcIp, -, dstIp, -, h⟩ := h
    cases h; exact ⟨_, rfl⟩

theorem newConnection_cases (key : FlowKey) (now : ℕ) :
    (∃ conn, newConnection key now = .ok conn) ∨
      ∃ a b, key.srcAddr = .v4 a ∧ key.dstAddr = .v6 b := by
  obtain ⟨src, dst, srcPort, dstPort, protocol⟩ := key
  cases src with
  | v6 a => exact .inl ⟨_, rfl⟩
  | v4 a =>
    cases dst with
    | v4 b => exact .inl ⟨_, rfl⟩
    | v6 b => exact .inr ⟨a, b, rfl, rfl⟩

theorem getOrCreateConnection_error {key : FlowKey} {env : PacketEnv} {fault : Fault}
    (h : t.getOrCreateConnection key env = .error fault) :
    ∃ a b, key.srcAddr = .v4 a ∧ key.dstAddr = .v6 b := by
  rcases newConnection_cases key env.createdAt with ⟨conn, hconn⟩ | hmixed
  · unfold getOrCreateConnection at h
    split_ifs at h
    · cases h
    all_goals
      rw [hconn] at h
      cases h
  · exact hmixed

theorem evictOldest_lookup (order : BucketOrder) (q : FlowKey) :
    (t.evictOldest order).connections.lookup q = t.connections.lookup q ∨
      (t.evictOldest order).connections.lookup q = none := by
  unfold evictOldest
  cases order.arrange t.connections.entries with
  | nil => exact .inl rfl
  | cons e rest =>
    by_cases hq : q = (oldest e rest).1
    · exact .inr (hq ▸ AList.lookup_erase _ _)
    · exact .inl (AList.lookup_erase_ne hq)

@[simp] theorem blockedCount_evictOldest (order : BucketOrder) :
    (t.evictOldest order).blockedCount = t.blockedCount := by
  unfold evictOldest; split <;> rfl

@[simp] theorem classifiedCount_evictOldest (order : BucketOrder) :
    (t.evictOldest order).classifiedCount = t.classifiedCount := by
  unfold evictOldest; split <;> rfl

@[simp] theorem totalSeen_evictOldest (order : BucketOrder) :
    (t.evictOldest order).totalSeen = t.totalSeen := by
  unfold evictOldest; split <;> rfl

/-- The lookup finds the entry of the flow or inserts a fresh one, evicting another if needed. -/
theorem getOrCreateConnection_ok {key : FlowKey} {env : PacketEnv}
    (h : t.getOrCreateConnection key env = .ok (t', p)) :
    p = key.canonical ∧ t'.blockedCount = t.blockedCount ∧
      (p ∈ t.connections ∧ t' = t ∨
        p ∉ t.connections ∧
          (∃ conn, newConnection key env.createdAt = .ok conn ∧
            t'.connections.lookup p = some conn) ∧
          ∀ q, q ≠ p → t'.connections.lookup q = t.connections.lookup q ∨
            t'.connections.lookup q = none) := by
  unfold getOrCreateConnection at h
  split_ifs at h with hmem hfull
  · cases h; exact ⟨rfl, rfl, .inl ⟨hmem, rfl⟩⟩
  · obtain ⟨conn, hconn, h⟩ := Except.do_eq_ok_iff.mp h
    cases h
    refine ⟨rfl, blockedCount_evictOldest _, .inr ⟨hmem, ⟨conn, hconn, AList.lookup_insert _⟩, ?_⟩⟩
    intro q hq
    simp only [AList.lookup_insert_ne hq]
    exact evictOldest_lookup env.order q
  · obtain ⟨conn, hconn, h⟩ := Except.do_eq_ok_iff.mp h
    cases h
    refine ⟨rfl, rfl, .inr ⟨hmem, ⟨conn, hconn, AList.lookup_insert _⟩, fun q hq => .inl ?_⟩⟩
    exact AList.lookup_insert_ne hq

theorem getOrCreateConnection_counts {key : FlowKey} {env : PacketEnv}
    (h : t.getOrCreateConnection key env = .ok (t', p)) :
    t'.classifiedCount = t.classifiedCount ∧
      t'.totalSeen = t.totalSeen + if key.canonical ∈ t.connections then 0 else 1 := by
  unfold getOrCreateConnection at h
  split_ifs at h with hmem hfull
  · cases h
    simp [hmem]
  · obtain ⟨conn, -, h⟩ := Except.do_eq_ok_iff.mp h
    cases h
    simp [hmem]
  · obtain ⟨conn, -, h⟩ := Except.do_eq_ok_iff.mp h
    cases h
    simp [hmem]

theorem getOrCreateConnection_mem {key : FlowKey} {env : PacketEnv}
    (h : t.getOrCreateConnection key env = .ok (t', p)) : p ∈ t'.connections := by
  obtain ⟨-, -, ⟨hp, rfl⟩ | ⟨-, ⟨conn, -, hlookup⟩, -⟩⟩ := getOrCreateConnection_ok h
  · exact hp
  · exact AList.lookup_isSome.mp (hlookup ▸ rfl)

theorem getOrCreateConnection_keyed {key : FlowKey} {env : PacketEnv} (ht : t.Keyed)
    (h : t.getOrCreateConnection key env = .ok (t', p)) : t'.Keyed := by
  obtain ⟨rfl, -, ⟨hp, rfl⟩ | ⟨-, ⟨conn, hconn, hlookup⟩, hne⟩⟩ := getOrCreateConnection_ok h
  · exact ht
  · obtain ⟨tuple, rfl⟩ := newConnection_ok hconn
    refine ht.of_lookup fun q hmem => ?_
    by_cases hq : q = key.canonical
    · rw [hq, ConnectionTracker.conn, hlookup, FlowKey.canonical_canonical]
      exact .inr ⟨rfl, rfl⟩
    · refine .inl ((hne q hq).resolve_right fun hnone => ?_)
      exact absurd hmem (AList.lookup_eq_none.mp hnone)

/-- A cleanup removes the entries that are stale. -/
theorem lookup_cleanupStale (now timeout : ℕ) (q : FlowKey) :
    (t.cleanupStale now timeout).connections.lookup q =
      (t.connections.lookup q).filter fun conn => !isStale now timeout conn := by
  ext conn
  rw [Option.filter_eq_some_iff, ← Option.mem_def, ← Option.mem_def, AList.mem_lookup_iff,
    AList.mem_lookup_iff]
  exact List.mem_filter

theorem cleanupStale_lookup (now timeout : ℕ) (q : FlowKey) :
    (t.cleanupStale now timeout).connections.lookup q = t.connections.lookup q ∨
      (t.cleanupStale now timeout).connections.lookup q = none := by
  rw [lookup_cleanupStale]
  cases t.connections.lookup q with
  | none => exact .inr rfl
  | some conn =>
    rw [Option.filter_some]
    split_ifs
    · exact .inl rfl
    · exact .inr rfl

theorem length_entries_le {l : List FlowKey} (h : ∀ q ∈ t.connections, q ∈ l) :
    t.connections.entries.length ≤ l.length := by
  have hle := (List.subperm_of_subset t.connections.keys_nodup h).length_le
  rwa [AList.keys, List.keys, List.length_map] at hle

theorem cleanupStale_keyed (ht : t.Keyed) (now timeout : ℕ) :
    (t.cleanupStale now timeout).Keyed := ht.of_sub (cleanupStale_lookup now timeout)

end ConnectionTracker

end DpiEngine
