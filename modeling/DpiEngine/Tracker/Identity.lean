import DpiEngine.Tracker.Bounded

/-! # One connection for each flow

Every insertion into the table makes a new connection object, and a call that looks
a key up returns the object of its entry. As long as nothing is removed, two keys
lead to one object exactly when they are the two directions of one flow.
-/

namespace DpiEngine

/-- A tracker with the number of the connection object of each entry. -/
structure Objects where
  tracker : ConnectionTracker
  object : FlowKey → ℕ := fun _ => 0
  next : ℕ := 0

namespace Objects

/-- The calls that reach a connection by its key. -/
inductive Call
  | getOrCreate (key : FlowKey) (env : PacketEnv)
  | get (key : FlowKey)
  | close (key : FlowKey)

def Call.key : Call → FlowKey
  | .getOrCreate key _ => key
  | .get key => key
  | .close key => key

/-- The calls that return a connection. -/
def Call.Returns : Call → Prop
  | .close _ => False
  | _ => True

/-- A call with the object it returns: none for a null pointer, and where it returns nothing or
throws. -/
structure Event where
  call : Call
  result : Option ℕ

def perform (s : Objects) : Call → Objects × Option ℕ
  | .getOrCreate key env =>
    match s.tracker.getOrCreateConnection key env with
    | .error _ => (s, none)
    | .ok (t, p) =>
      if p ∈ s.tracker.connections then ({ s with tracker := t }, some (s.object p))
      else
        ({ tracker := t, object := Function.update s.object p s.next, next := s.next + 1 },
          some s.next)
  | .get key => (s, (s.tracker.getConnection key).map s.object)
  | .close key => ({ s with tracker := s.tracker.closeConnection key }, none)

def Evicts (t : ConnectionTracker) : Call → Prop
  | .getOrCreate key _ =>
    key.canonical ∉ t.connections ∧ t.maxConnections ≤ t.size ∧ t.connections.entries ≠ []
  | _ => False

/-- A call that evicts nothing. -/
def Step (s : Objects) (e : Event) (s' : Objects) : Prop :=
  ¬ Evicts s.tracker e.call ∧ s.perform e.call = (s', e.result)

/-- The entries have objects of their own. -/
structure Numbered (s : Objects) : Prop where
  lt : ∀ p ∈ s.tracker.connections, s.object p < s.next
  inj : ∀ p ∈ s.tracker.connections, ∀ q ∈ s.tracker.connections, s.object p = s.object q → p = q

/-- The entry of the flow is that of the object which the call returned. -/
def Reached (e : Event) (s : Objects) : Prop :=
  ∀ o, e.result = some o → e.call.key.canonical ∈ s.tracker.connections ∧
    s.object e.call.key.canonical = o

/-- What a call answers behind other calls. Once its flow has an object it returns that one;
`getConnection` returns no other, and `getOrCreateConnection` fails only at a key whose addresses
are of two families. -/
structure Answered (front : List Event) (e : Event) : Prop where
  found : e.call.Returns → ∀ e' ∈ front, ∀ o, e'.result = some o →
    e'.call.key = e.call.key ∨ e'.call.key = e.call.key.reverse → e.result = some o
  known : ∀ key o, e.call = .get key → e.result = some o → ∃ e' ∈ front, e'.result = some o
  failed : ∀ key env, e.call = .getOrCreate key env → e.result = none →
    ∃ a b, key.srcAddr = .v4 a ∧ key.dstAddr = .v6 b

/-- A call of `closeConnection` closes the object that `e` returned if its key is of the same flow,
and otherwise leaves the object as it is. -/
structure Closed (s : Objects) (e : Event) : Prop where
  own : ∀ key, key = e.call.key ∨ key = e.call.key.reverse →
    (s.tracker.closeConnection key).connections.lookup e.call.key.canonical =
      some { s.tracker.conn e.call.key.canonical with state := .closed }
  other : ∀ key, ¬ (key = e.call.key ∨ key = e.call.key.reverse) →
    (s.tracker.closeConnection key).connections.lookup e.call.key.canonical =
      s.tracker.connections.lookup e.call.key.canonical

/-- The object of each entry has been returned. -/
def Returned (events : List Event) (s : Objects) : Prop :=
  ∀ p ∈ s.tracker.connections, ∃ e ∈ events, e.result = some (s.object p)

/-- A step leaves the entries and their objects, or makes an entry with a new object. -/
inductive Outcome (s : Objects) (e : Event) (s' : Objects) : Prop
  | same (hmem : ∀ p, p ∈ s'.tracker.connections ↔ p ∈ s.tracker.connections)
      (hobject : s'.object = s.object) (hnext : s'.next = s.next) (hreached : Reached e s)
  | made (hnew : e.call.key.canonical ∉ s.tracker.connections)
      (hmem : ∀ p, p ∈ s'.tracker.connections ↔
        p = e.call.key.canonical ∨ p ∈ s.tracker.connections)
      (hobject : s'.object = Function.update s.object e.call.key.canonical s.next)
      (hnext : s'.next = s.next + 1) (hresult : e.result = some s.next)

variable {s s' : Objects} {e : Event}

theorem makeRoom_of_not_evicts {t : ConnectionTracker} {key : FlowKey} {env : PacketEnv}
    (hnew : key.canonical ∉ t.connections) (h : ¬ Evicts t (.getOrCreate key env)) :
    (t.makeRoom env.order).connections = t.connections := by
  by_cases hnil : t.connections.entries = []
  · unfold ConnectionTracker.makeRoom
    split_ifs
    · rcases ConnectionTracker.evictOldest_cases t env.order with ⟨-, heq⟩ | ⟨p, hp, -⟩
      · rw [heq]
      · have := ConnectionTracker.exists_mem_entries hp.1
        rw [hnil] at this
        exact absurd this List.not_mem_nil
    · rfl
  · have hlt : t.size < t.maxConnections := by
      by_contra hfull
      exact h ⟨hnew, Nat.not_lt.mp hfull, hnil⟩
    rw [ConnectionTracker.makeRoom_of_room hlt]

theorem Step.outcome (h : Step s e s') : Outcome s e s' := by
  obtain ⟨call, result⟩ := e
  obtain ⟨hevicts, h⟩ := h
  cases call with
  | getOrCreate key env =>
    rcases ConnectionTracker.getOrCreateConnection_cases s.tracker key env with
      ⟨hmem, heq⟩ | ⟨hnew, ⟨fault, heq⟩ | ⟨conn, t', -, heq, hconns, -⟩⟩
    · simp only [perform, heq, hmem, if_true, Prod.mk.injEq] at h
      obtain ⟨rfl, rfl⟩ := h
      refine .same (fun p => .rfl) rfl rfl ?_
      rintro o ho
      exact ⟨hmem, Option.some_inj.mp ho⟩
    · simp only [perform, heq, Prod.mk.injEq] at h
      obtain ⟨rfl, rfl⟩ := h
      exact .same (fun p => .rfl) rfl rfl fun o ho => nomatch ho
    · simp only [perform, heq, hnew, if_false, Prod.mk.injEq] at h
      obtain ⟨rfl, rfl⟩ := h
      refine .made hnew (fun p => ?_) rfl rfl rfl
      simp only [hconns, makeRoom_of_not_evicts hnew hevicts]
      exact AList.mem_insert _
  | get key =>
    simp only [perform, ConnectionTracker.getConnection, Prod.mk.injEq] at h
    obtain ⟨rfl, rfl⟩ := h
    refine .same (fun p => .rfl) rfl rfl ?_
    rintro o ho
    split_ifs at ho with hmem
    · exact ⟨hmem, Option.some_inj.mp ho⟩
    · cases ho
  | close key =>
    simp only [perform, Prod.mk.injEq] at h
    obtain ⟨rfl, rfl⟩ := h
    refine .same (fun p => ?_) rfl rfl fun o ho => nomatch ho
    unfold ConnectionTracker.closeConnection
    split_ifs with hmem
    · rw [ConnectionTracker.mem_modify, or_iff_right_of_imp]
      rintro rfl
      exact hmem
    · rfl

theorem Numbered.step (hs : Numbered s) (h : Step s e s') : Numbered s' := by
  cases h.outcome with
  | same hmem hobject hnext _ =>
    constructor
    · intro p hp
      rw [hobject, hnext]
      exact hs.lt p ((hmem p).mp hp)
    · intro p hp q hq heq
      rw [hobject] at heq
      exact hs.inj p ((hmem p).mp hp) q ((hmem q).mp hq) heq
  | made hnew hmem hobject hnext _ =>
    have hother (p : FlowKey) (hp : p ∈ s'.tracker.connections) :
        p = e.call.key.canonical ∧ s'.object p = s.next ∨
          p ∈ s.tracker.connections ∧ s'.object p = s.object p := by
      rcases (hmem p).mp hp with rfl | hold
      · exact .inl ⟨rfl, by rw [hobject, Function.update_self]⟩
      · have hne : p ≠ e.call.key.canonical := by
          rintro rfl
          exact hnew hold
        exact .inr ⟨hold, by rw [hobject, Function.update_of_ne hne]⟩
    constructor
    · intro p hp
      rw [hnext]
      rcases hother p hp with ⟨-, heq⟩ | ⟨hold, heq⟩
      · exact heq ▸ Nat.lt_succ_self _
      · exact heq ▸ Nat.lt_succ_of_lt (hs.lt p hold)
    · intro p hp q hq heq
      -- the new object differs from those of the entries before
      rcases hother p hp with ⟨hp, hpo⟩ | ⟨hp, hpo⟩ <;>
        rcases hother q hq with ⟨hq, hqo⟩ | ⟨hq, hqo⟩ <;> rw [hpo, hqo] at heq
      · rw [hp, hq]
      · exact absurd heq.symm (hs.lt q hq).ne
      · exact absurd heq (hs.lt p hp).ne
      · exact hs.inj p hp q hq heq

theorem Step.reached (h : Step s e s') : Reached e s' := by
  cases h.outcome with
  | same hmem hobject _ hreached =>
    intro o ho
    rw [hmem, hobject]
    exact hreached o ho
  | made _ hmem hobject _ hresult =>
    intro o ho
    rw [hmem, hobject, Function.update_self]
    exact ⟨.inl rfl, Option.some_inj.mp (hresult.symm.trans ho)⟩

theorem Reached.step {e' : Event} (he : Reached e' s) (h : Step s e s') : Reached e' s' := by
  intro o ho
  obtain ⟨hold, heq⟩ := he o ho
  cases h.outcome with
  | same hmem hobject _ _ =>
    rw [hmem, hobject]
    exact ⟨hold, heq⟩
  | made hnew hmem hobject _ _ =>
    have hne : e'.call.key.canonical ≠ e.call.key.canonical := fun h => hnew (h ▸ hold)
    rw [hmem, hobject, Function.update_of_ne hne]
    exact ⟨.inr hold, heq⟩

theorem Returned.step {events : List Event} (hs : Returned events s) (h : Step s e s') :
    Returned (events ++ [e]) s' := by
  have hold (p : FlowKey) (hp : p ∈ s.tracker.connections) :
      ∃ e' ∈ events ++ [e], e'.result = some (s.object p) := by
    obtain ⟨e', he', heq⟩ := hs p hp
    exact ⟨e', List.mem_append_left _ he', heq⟩
  cases h.outcome with
  | same hmem hobject _ _ =>
    intro p hp
    rw [hobject]
    exact hold p ((hmem p).mp hp)
  | made hnew hmem hobject _ hresult =>
    intro p hp
    rw [hobject]
    rcases (hmem p).mp hp with rfl | hp
    · refine ⟨e, List.mem_append_right _ (List.mem_singleton_self e), ?_⟩
      rw [hresult, Function.update_self]
    · have hne : p ≠ e.call.key.canonical := by
        rintro rfl
        exact hnew hp
      rw [Function.update_of_ne hne]
      exact hold p hp

theorem perform_of_mem {call : Call} (hmem : call.key.canonical ∈ s.tracker.connections)
    (hreturns : call.Returns) :
    (s.perform call).2 = some (s.object call.key.canonical) := by
  cases call with
  | getOrCreate key env =>
    rw [Call.key] at hmem ⊢
    have hfound : s.tracker.getOrCreateConnection key env = .ok (s.tracker, key.canonical) := by
      rw [ConnectionTracker.getOrCreateConnection, if_pos hmem]
      rfl
    rw [perform, hfound]
    exact congrArg Prod.snd (if_pos hmem)
  | get key =>
    rw [Call.key] at hmem ⊢
    rw [perform, ConnectionTracker.getConnection, if_pos hmem]
    rfl
  | close key => exact hreturns.elim

theorem Step.answered {front : List Event} (h : Step s e s') (hreturned : Returned front s)
    (hreached : ∀ e' ∈ front, Reached e' s) : Answered front e := by
  have hresult : (s.perform e.call).2 = e.result := congrArg Prod.snd h.2
  constructor
  · rintro hreturns e' he' o ho hkey
    obtain ⟨hmem, rfl⟩ := hreached e' he' o ho
    have hcanonical := FlowKey.canonical_eq_iff.mpr hkey
    rw [hcanonical] at hmem ⊢
    rw [← hresult, perform_of_mem hmem hreturns]
  · rintro key o hcall ho
    rw [hcall, perform, ho, ConnectionTracker.getConnection] at hresult
    dsimp only at hresult
    split_ifs at hresult with hmem
    · rw [← hresult]
      exact hreturned _ hmem
    · cases hresult
  · rintro key env hcall hnone
    rw [hcall, perform, hnone] at hresult
    split at hresult
    · next fault herror => exact ConnectionTracker.getOrCreateConnection_error herror
    · split_ifs at hresult

theorem closed_of_mem (hmem : e.call.key.canonical ∈ s.tracker.connections) : Closed s e := by
  constructor
  · intro key hkey
    have hcanonical := FlowKey.canonical_eq_iff.mpr hkey
    rw [ConnectionTracker.closeConnection, hcanonical, if_pos hmem,
      ConnectionTracker.lookup_modify_self]
  · intro key hkey
    have hne : e.call.key.canonical ≠ key.canonical := by
      intro heq
      exact hkey (FlowKey.canonical_eq_iff.mp heq.symm)
    rw [ConnectionTracker.closeConnection]
    split_ifs
    · exact ConnectionTracker.lookup_modify_ne _ _ hne
    · rfl

theorem numbered_empty (n : ℕ) : Numbered { tracker := { maxConnections := n } } :=
  ⟨fun p h => absurd h (AList.notMem_empty p), fun p h => absurd h (AList.notMem_empty p)⟩

theorem run_reached {n : ℕ} {events : List Event}
    (h : Run Step { tracker := { maxConnections := n } } events s) : ∀ e ∈ events, Reached e s :=
  h.history (I := Numbered) (Q := Reached) (fun hs hstep => hs.step hstep)
    (fun _ hstep => hstep.reached) (fun _ he hstep => he.step hstep) (numbered_empty n)

/-- In a run without evictions two calls return one object exactly for the two directions of one
flow. -/
theorem run_same_object {n : ℕ} {events : List Event}
    (h : Run Step { tracker := { maxConnections := n } } events s) {e e' : Event}
    (he : e ∈ events) (he' : e' ∈ events) {o o' : ℕ} (ho : e.result = some o)
    (ho' : e'.result = some o') :
    o = o' ↔ e.call.key = e'.call.key ∨ e.call.key = e'.call.key.reverse := by
  have hnumbered := h.invariant (fun hs hstep => hs.step hstep) (numbered_empty n)
  obtain ⟨hmem, rfl⟩ := run_reached h e he o ho
  obtain ⟨hmem', rfl⟩ := run_reached h e' he' o' ho'
  rw [← FlowKey.canonical_eq_iff]
  constructor
  · exact hnumbered.inj _ hmem _ hmem'
  · intro heq
    rw [heq]

/-- In a run without evictions each call answers by the calls before it. -/
theorem run_answered {n : ℕ} {front back : List Event}
    (h : Run Step { tracker := { maxConnections := n } } (front ++ e :: back) s) :
    Answered front e := by
  obtain ⟨u, hfront, hrest⟩ := Run.append_iff.mp h
  obtain ⟨u', hstep, -⟩ := Run.cons_iff.mp hrest
  have hreturned : Returned front u := by
    refine hfront.recorded (fun hs hstep => hs.step hstep) ?_
    exact fun p hp => absurd hp (AList.notMem_empty p)
  exact hstep.answered hreturned (run_reached hfront)

/-- Canonical keys identify the flows: for the keys themselves, for the objects that a run reaches
by them, which every later call for the flow returns or closes, and for their hashes. -/
theorem canonical_identifies (H : StdHash) (n : ℕ) :
    (∀ k : FlowKey, k.canonical.canonical = k.canonical) ∧
      (∀ k k' : FlowKey, k.canonical = k'.canonical ↔ k = k' ∨ k = k'.reverse) ∧
      (∀ events s, Run Step { tracker := { maxConnections := n } } events s →
        (∀ e ∈ events, ∀ e' ∈ events, ∀ o o', e.result = some o → e'.result = some o' →
          (o = o' ↔ e.call.key = e'.call.key ∨ e.call.key = e'.call.key.reverse)) ∧
        (∀ front e back, events = front ++ e :: back → Answered front e) ∧
        ∀ e ∈ events, e.result ≠ none → Closed s e) ∧
      ∀ k k' : FlowKey, k = k' ∨ k = k'.reverse → k.hash H = k'.hash H := by
  refine ⟨FlowKey.canonical_canonical, fun _ _ => FlowKey.canonical_eq_iff, ?_, ?_⟩
  · intro events s h
    refine ⟨?_, ?_, ?_⟩
    · intro e he e' he' o o' ho ho'
      exact run_same_object h he he' ho ho'
    · rintro front e back rfl
      exact run_answered h
    · intro e he hresult
      obtain ⟨o, ho⟩ := Option.ne_none_iff_exists'.mp hresult
      exact closed_of_mem (run_reached h e he o ho).1
  · intro k k' h
    exact FlowKey.hash_eq H (FlowKey.canonical_eq_iff.mpr h)

end Objects

end DpiEngine
