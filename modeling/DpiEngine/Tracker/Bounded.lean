import DpiEngine.Library.Runs
import DpiEngine.Tracker.Table

/-! # The table is bounded

The table never holds more entries than its limit. A new key in a full table takes
the place of the entry that was seen least recently.
-/

namespace DpiEngine

namespace ConnectionTracker

variable {t t' : ConnectionTracker} {p q : FlowKey}

/-! ### Evicting the oldest entry -/

section Oldest

variable (best : Sigma fun _ : FlowKey => Connection)
  (l : List (Sigma fun _ : FlowKey => Connection))

theorem oldest_mem : oldest best l ∈ best :: l := by
  induction l generalizing best with
  | nil => exact List.mem_cons_self
  | cons e l ih =>
    rw [oldest]
    split_ifs
    · exact List.mem_cons_of_mem _ (ih e)
    · rcases List.mem_cons.mp (ih best) with h | h
      · exact List.mem_cons.mpr (.inl h)
      · exact List.mem_cons_of_mem _ (List.mem_cons_of_mem _ h)

theorem oldest_le : ∀ e ∈ best :: l, (oldest best l).2.lastSeen ≤ e.2.lastSeen := by
  induction l generalizing best with
  | nil => simp [oldest]
  | cons e l ih =>
    rw [oldest]
    split_ifs with hlt
    · have he := ih e e List.mem_cons_self
      rintro x hx
      rcases List.mem_cons.mp hx with rfl | hx
      · exact he.trans hlt.le
      · exact ih e x hx
    · have hbest := ih best best List.mem_cons_self
      rintro x hx
      rcases List.mem_cons.mp hx with rfl | hx
      · exact hbest
      rcases List.mem_cons.mp hx with rfl | hx
      · exact hbest.trans (Nat.le_of_not_lt hlt)
      · exact ih best x (List.mem_cons_of_mem _ hx)

end Oldest

theorem mem_entries_iff {conn : Connection} :
    (⟨p, conn⟩ : Sigma fun _ : FlowKey => Connection) ∈ t.connections.entries ↔
      t.connections.lookup p = some conn := AList.mem_lookup_iff.symm

theorem mem_of_mem_entries {e : Sigma fun _ : FlowKey => Connection}
    (h : e ∈ t.connections.entries) : e.1 ∈ t.connections ∧ t.conn e.1 = e.2 := by
  have hlookup := mem_entries_iff.mp h
  constructor
  · exact AList.lookup_isSome.mp (by rw [hlookup]; rfl)
  · rw [conn, hlookup]
    rfl

theorem exists_mem_entries (h : p ∈ t.connections) :
    ⟨p, t.conn p⟩ ∈ t.connections.entries := by
  obtain ⟨conn, hconn⟩ := Option.isSome_iff_exists.mp (AList.lookup_isSome.mpr h)
  rw [mem_entries_iff, ConnectionTracker.conn, hconn]
  rfl

/-- No entry was seen before that of `p`. -/
def LeastRecent (t : ConnectionTracker) (p : FlowKey) : Prop :=
  p ∈ t.connections ∧ ∀ q ∈ t.connections, (t.conn p).lastSeen ≤ (t.conn q).lastSeen

theorem evictOldest_cases (t : ConnectionTracker) (order : BucketOrder) :
    t.connections.entries = [] ∧ t.evictOldest order = t ∨
      ∃ p, t.LeastRecent p ∧
        t.evictOldest order = { t with connections := t.connections.erase p } := by
  have hperm := order.perm t.connections.entries
  unfold evictOldest
  cases harr : order.arrange t.connections.entries with
  | nil =>
    rw [harr, List.nil_perm] at hperm
    exact .inl ⟨hperm, rfl⟩
  | cons e rest =>
    rw [harr] at hperm
    obtain ⟨hmem, hconn⟩ := mem_of_mem_entries (hperm.mem_iff.mp (oldest_mem e rest))
    refine .inr ⟨_, ⟨hmem, ?_⟩, rfl⟩
    intro q hq
    rw [hconn]
    exact oldest_le e rest _ (hperm.mem_iff.mpr (exists_mem_entries hq))

def makeRoom (t : ConnectionTracker) (order : BucketOrder) : ConnectionTracker :=
  if t.connections.entries.length ≥ t.maxConnections then t.evictOldest order else t

theorem maxConnections_makeRoom (order : BucketOrder) :
    (t.makeRoom order).maxConnections = t.maxConnections := by
  unfold makeRoom evictOldest
  split_ifs
  · split <;> rfl
  · rfl

/-- A key that is there is found; a new one is inserted after room was made for it, unless its
addresses are of two families. -/
theorem getOrCreateConnection_cases (t : ConnectionTracker) (key : FlowKey) (env : PacketEnv) :
    key.canonical ∈ t.connections ∧
        t.getOrCreateConnection key env = .ok (t, key.canonical) ∨
      key.canonical ∉ t.connections ∧
        ((∃ fault, t.getOrCreateConnection key env = .error fault) ∨
          ∃ conn t', newConnection key env.createdAt = .ok conn ∧
            t.getOrCreateConnection key env = .ok (t', key.canonical) ∧
            t'.connections = (t.makeRoom env.order).connections.insert key.canonical conn ∧
            t'.maxConnections = t.maxConnections) := by
  by_cases hmem : key.canonical ∈ t.connections
  · refine .inl ⟨hmem, ?_⟩
    rw [getOrCreateConnection, if_pos hmem]
    rfl
  refine .inr ⟨hmem, ?_⟩
  have heq : t.getOrCreateConnection key env = (newConnection key env.createdAt).bind fun conn =>
      .ok ({ t.makeRoom env.order with
        connections := (t.makeRoom env.order).connections.insert key.canonical conn
        totalSeen := (t.makeRoom env.order).totalSeen + 1 }, key.canonical) := by
    rw [getOrCreateConnection, if_neg hmem]
    rfl
  cases hnew : newConnection key env.createdAt with
  | error fault =>
    rw [hnew] at heq
    exact .inl ⟨fault, heq⟩
  | ok conn =>
    rw [hnew] at heq
    exact .inr ⟨conn, _, rfl, heq, rfl, maxConnections_makeRoom env.order⟩

/-! ### The size of the table -/

abbrev size (t : ConnectionTracker) : ℕ := t.connections.entries.length

theorem length_keys (s : FlowTable) : s.keys.length = s.entries.length := by
  rw [AList.keys, List.keys, List.length_map]

theorem length_erase {s : FlowTable} (h : p ∈ s) :
    (s.erase p).entries.length + 1 = s.entries.length := by
  have hpos := List.length_pos_of_mem (AList.mem_keys.mp h)
  rw [← length_keys, ← length_keys, AList.keys_erase, List.length_erase_of_mem h]
  omega

theorem length_insert_of_mem {s : FlowTable} (h : p ∈ s) (conn : Connection) :
    (s.insert p conn).entries.length = s.entries.length := by
  have hpos := List.length_pos_of_mem (AList.mem_keys.mp h)
  rw [← length_keys, ← length_keys, AList.keys_insert, List.length_cons,
    List.length_erase_of_mem h]
  omega

theorem length_insert_le (s : FlowTable) (p : FlowKey) (conn : Connection) :
    (s.insert p conn).entries.length ≤ s.entries.length + 1 := by
  rw [← length_keys, ← length_keys, AList.keys_insert, List.length_cons]
  exact Nat.succ_le_succ List.erase_sublist.length_le

theorem size_makeRoom_le (t : ConnectionTracker) (order : BucketOrder) :
    (t.makeRoom order).size ≤ t.size := by
  unfold makeRoom
  split_ifs
  · rcases evictOldest_cases t order with ⟨-, heq⟩ | ⟨p, hp, heq⟩
    · rw [heq]
    · rw [heq, size, size, ← length_erase hp.1]
      exact Nat.le_succ _
  · exact le_rfl

theorem size_makeRoom_lt (hmax : 1 ≤ t.maxConnections) (hsize : t.size ≤ t.maxConnections)
    (order : BucketOrder) : (t.makeRoom order).size < t.maxConnections := by
  unfold makeRoom
  split_ifs with hfull
  · rcases evictOldest_cases t order with ⟨hnil, heq⟩ | ⟨p, hp, heq⟩
    · rw [heq, size, hnil]
      exact hmax
    · have hlen := length_erase hp.1
      rw [heq]
      simp only [size] at *
      omega
  · simpa [size] using hfull

/-! ### The operations -/

inductive Operation
  | getOrCreate (key : FlowKey) (env : PacketEnv)
  | update (p : Option FlowKey) (now packetSize : ℕ) (isClientToServer : Bool)
  | classify (p : Option FlowKey) (app : AppType) (sni httpHost dnsQuery : Name)
  | block (p : Option FlowKey)
  | close (key : FlowKey)
  | cleanupStale (now timeout : ℕ)
  | clear

def Operation.pointer : Operation → Option FlowKey
  | .update p _ _ _ => p
  | .classify p _ _ _ _ => p
  | .block p => p
  | _ => none

/-- The table after `getOrCreateConnection`, which may throw after an entry was evicted. -/
def afterGetOrCreate (t : ConnectionTracker) (key : FlowKey) (env : PacketEnv) :
    ConnectionTracker :=
  match t.getOrCreateConnection key env with
  | .ok (t', _) => t'
  | .error _ => t.makeRoom env.order

def perform (t : ConnectionTracker) : Operation → ConnectionTracker
  | .getOrCreate key env => t.afterGetOrCreate key env
  | .update (some p) now packetSize isClientToServer =>
    t.updateConnection p now packetSize isClientToServer
  | .classify (some p) app sni httpHost dnsQuery => t.classifyConnection p app sni httpHost dnsQuery
  | .block (some p) => t.blockConnection p
  | .update none _ _ _ | .classify none _ _ _ _ | .block none => t
  | .close key => t.closeConnection key
  | .cleanupStale now timeout => t.cleanupStale now timeout
  | .clear => t.clear

/-- A call whose pointer is null or points to an entry. -/
def Step (t : ConnectionTracker) (op : Operation) (t' : ConnectionTracker) : Prop :=
  (∀ p, op.pointer = some p → p ∈ t.connections) ∧ t.perform op = t'

/-- The table keeps its limit and the keys of its entries. -/
structure Bounded (n : ℕ) (t : ConnectionTracker) : Prop where
  maxConnections : t.maxConnections = n
  size_le : t.size ≤ n
  keyed : t.Keyed

variable {n : ℕ}

theorem bounded_empty (n : ℕ) : Bounded n { maxConnections := n } :=
  ⟨rfl, Nat.zero_le _, keyed_empty n⟩

theorem Bounded.of_sub (ht : Bounded n t) (hmax : t'.maxConnections = t.maxConnections)
    (hsize : t'.size ≤ t.size)
    (hsub : ∀ q, t'.connections.lookup q = t.connections.lookup q ∨
      t'.connections.lookup q = none) : Bounded n t' :=
  ⟨hmax.trans ht.maxConnections, hsize.trans ht.size_le, ht.keyed.of_sub hsub⟩

theorem Bounded.of_touches (ht : Bounded n t) (hmax : t'.maxConnections = t.maxConnections)
    (hsize : t'.size = t.size) (h : Touches p t t') (hp : p ∈ t.connections) : Bounded n t' :=
  ⟨hmax.trans ht.maxConnections, hsize.trans_le ht.size_le, h.keyed hp ht.keyed⟩

theorem touches_updateConnection (now packetSize : ℕ) (isClientToServer : Bool) :
    Touches p t (t.updateConnection p now packetSize isClientToServer) := by
  refine .modify fun conn => ?_
  unfold Connection.update
  split_ifs <;> rfl

theorem lookup_makeRoom (order : BucketOrder) (q : FlowKey) :
    (t.makeRoom order).connections.lookup q = t.connections.lookup q ∨
      (t.makeRoom order).connections.lookup q = none := by
  unfold makeRoom
  split_ifs
  · exact evictOldest_lookup order q
  · exact .inl rfl

theorem Bounded.makeRoom (ht : Bounded n t) (order : BucketOrder) :
    Bounded n (t.makeRoom order) :=
  ht.of_sub (maxConnections_makeRoom order) (size_makeRoom_le t order) (lookup_makeRoom order)

theorem Bounded.afterGetOrCreate (hn : 1 ≤ n) (ht : Bounded n t) (key : FlowKey)
    (env : PacketEnv) : Bounded n (t.afterGetOrCreate key env) := by
  have hmax := ht.maxConnections
  unfold ConnectionTracker.afterGetOrCreate
  rcases getOrCreateConnection_cases t key env with
    ⟨-, heq⟩ | ⟨-, ⟨fault, heq⟩ | ⟨conn, t', -, heq, hconns, hmax'⟩⟩
  · rw [heq]
    exact ht
  · rw [heq]
    exact ht.makeRoom env.order
  · have hlt := size_makeRoom_lt (hmax ▸ hn) (hmax ▸ ht.size_le) env.order
    have hle := length_insert_le (t.makeRoom env.order).connections key.canonical conn
    rw [heq]
    refine ⟨hmax'.trans hmax, ?_, getOrCreateConnection_keyed ht.keyed heq⟩
    rw [size, hconns]
    simp only [size] at hlt
    omega

/-- Every operation keeps the table within its limit and its entries under their keys. -/
theorem Bounded.step (hn : 1 ≤ n) {op : Operation} (ht : Bounded n t) (h : Step t op t') :
    Bounded n t' := by
  obtain ⟨hpointer, rfl⟩ := h
  cases op with
  | getOrCreate key env => exact ht.afterGetOrCreate hn key env
  | update p now packetSize isClientToServer =>
    cases p with
    | none => exact ht
    | some p =>
      have hp := hpointer p rfl
      exact ht.of_touches rfl (length_insert_of_mem hp _)
        (touches_updateConnection now packetSize isClientToServer) hp
  | classify p app sni httpHost dnsQuery =>
    cases p with
    | none => exact ht
    | some p =>
      have hp := hpointer p rfl
      exact ht.of_touches rfl (length_insert_of_mem hp _)
        (touches_classifyConnection app sni httpHost dnsQuery) hp
  | block p =>
    cases p with
    | none => exact ht
    | some p =>
      have hp := hpointer p rfl
      exact ht.of_touches rfl (length_insert_of_mem hp _) touches_blockConnection hp
  | close key =>
    by_cases hp : key.canonical ∈ t.connections
    · rw [perform, closeConnection, if_pos hp]
      exact ht.of_touches rfl (length_insert_of_mem hp _) (.modify fun _ => rfl) hp
    · rw [perform, closeConnection, if_neg hp]
      exact ht
  | cleanupStale now timeout =>
    exact ht.of_sub rfl List.filter_sublist.length_le (cleanupStale_lookup now timeout)
  | clear => exact ht.of_sub rfl (Nat.zero_le _) fun q => .inr (AList.lookup_empty q)

theorem Bounded.run (hn : 1 ≤ n) {ops : List Operation}
    (h : Run Step { maxConnections := n } ops t) : Bounded n t :=
  h.invariant (fun ht hstep => ht.step hn hstep) (bounded_empty n)

/-! ### What an insertion evicts -/

/-- An entry is evicted for a new key in a full table only: one that was seen least recently. The
other entries are unchanged. -/
structure EvictsLeastRecent (t : ConnectionTracker) (key : FlowKey) (t' : ConnectionTracker) :
    Prop where
  full : ∀ q ∈ t.connections, q ∉ t'.connections →
    key.canonical ∉ t.connections ∧ t.maxConnections ≤ t.size
  kept : key.canonical ∈ t.connections ∨ t.size < t.maxConnections →
    ∀ q ∈ t.connections, t'.connections.lookup q = t.connections.lookup q
  evicted : key.canonical ∉ t.connections → t.maxConnections ≤ t.size →
    ∃ p, t.LeastRecent p ∧ p ∉ t'.connections ∧
      ∀ q ∈ t.connections, q ≠ p → t'.connections.lookup q = t.connections.lookup q

theorem mem_of_lookup_eq (h : t'.connections.lookup q = t.connections.lookup q)
    (hq : q ∈ t.connections) : q ∈ t'.connections :=
  AList.lookup_isSome.mp (h ▸ AList.lookup_isSome.mpr hq)

theorem makeRoom_of_room (h : t.size < t.maxConnections) (order : BucketOrder) :
    t.makeRoom order = t := if_neg (Nat.not_le.mpr h)

theorem lookup_afterGetOrCreate {key : FlowKey} {env : PacketEnv}
    (hnew : key.canonical ∉ t.connections) (hq : q ≠ key.canonical) :
    (t.afterGetOrCreate key env).connections.lookup q =
      (t.makeRoom env.order).connections.lookup q := by
  unfold afterGetOrCreate
  rcases getOrCreateConnection_cases t key env with
    ⟨hmem, -⟩ | ⟨-, ⟨fault, heq⟩ | ⟨conn, t', -, heq, hconns, -⟩⟩
  · exact absurd hmem hnew
  · rw [heq]
  · simp only [heq, hconns]
    exact AList.lookup_insert_ne hq

theorem evictsLeastRecent_afterGetOrCreate (hmax : 1 ≤ t.maxConnections) (key : FlowKey)
    (env : PacketEnv) : EvictsLeastRecent t key (t.afterGetOrCreate key env) := by
  have hkept (hroom : key.canonical ∈ t.connections ∨ t.size < t.maxConnections) (q : FlowKey)
      (hq : q ∈ t.connections) :
      (t.afterGetOrCreate key env).connections.lookup q = t.connections.lookup q := by
    by_cases hmem : key.canonical ∈ t.connections
    · have hfound : t.getOrCreateConnection key env = .ok (t, key.canonical) := by
        rw [getOrCreateConnection, if_pos hmem]
        rfl
      rw [afterGetOrCreate, hfound]
    · have hne : q ≠ key.canonical := by
        rintro rfl
        exact hmem hq
      rw [lookup_afterGetOrCreate hmem hne,
        makeRoom_of_room (hroom.resolve_left hmem) env.order]
  constructor
  · intro q hq hgone
    by_contra hroom
    have hor : key.canonical ∈ t.connections ∨ t.size < t.maxConnections := by
      by_contra h
      rw [not_or, Nat.not_lt] at h
      exact hroom h
    exact hgone (mem_of_lookup_eq (hkept hor q hq) hq)
  · exact hkept
  · intro hnew hfull
    have hroom : t.makeRoom env.order = t.evictOldest env.order := if_pos hfull
    rcases evictOldest_cases t env.order with ⟨hnil, -⟩ | ⟨p, hp, heq⟩
    · rw [size, hnil, List.length_nil] at hfull
      omega
    · have hne (q : FlowKey) (hq : q ∈ t.connections) : q ≠ key.canonical := by
        rintro rfl
        exact hnew hq
      refine ⟨p, hp, ?_, fun q hq hqp => ?_⟩
      · rw [← AList.lookup_eq_none, lookup_afterGetOrCreate hnew (hne p hp.1), hroom, heq]
        exact AList.lookup_erase p _
      · rw [lookup_afterGetOrCreate hnew (hne q hq), hroom, heq]
        exact AList.lookup_erase_ne hqp

/-- In every run the table is within its limit, each entry is stored under its own flow key, which
is canonical, and an insertion evicts the least recent entry of a full table only. -/
theorem run_bounded (hn : 1 ≤ n) {ops : List Operation}
    (h : Run Step { maxConnections := n } ops t) :
    t.size ≤ n ∧ (∀ p ∈ t.connections, (t.conn p).flowKey = p ∧ p.canonical = p) ∧
      ∀ key env, EvictsLeastRecent t key (t.perform (.getOrCreate key env)) := by
  have ht := Bounded.run hn h
  refine ⟨ht.size_le, fun p hp => ?_, fun key env => ?_⟩
  · exact ⟨ht.keyed.flowKey p hp, ht.keyed.canonical p hp⟩
  · exact evictsLeastRecent_afterGetOrCreate (ht.maxConnections ▸ hn) key env

theorem run_bounded_one :
    let key : FlowKey := { srcPort := 1 }
    let t := ConnectionTracker.perform { maxConnections := 1 } (.getOrCreate key {})
    t.size ≤ 1 ∧ (∀ p ∈ t.connections, (t.conn p).flowKey = p ∧ p.canonical = p) ∧
      ∀ key env, EvictsLeastRecent t key (t.perform (.getOrCreate key env)) :=
  run_bounded le_rfl
    (.cons (a := .getOrCreate { srcPort := 1 } {}) ⟨fun _ h => (nomatch h), rfl⟩ (.nil _))

end ConnectionTracker

end DpiEngine
