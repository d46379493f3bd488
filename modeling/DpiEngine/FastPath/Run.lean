import DpiEngine.FastPath.Step
import DpiEngine.Library.Runs

/-! # Runs of the fast path

A processor runs over packets and over the cleanups of its loop. A packet
changes the entry of its own flow; other entries stay as they are or are removed.
-/

namespace DpiEngine.FastPathProcessor

open ConnectionTracker

inductive Input
  | packet (env : PacketEnv) (job : PacketJob)
  | cleanup (now : ℕ)

def defaultTimeout : ℕ := 300

def Step (rules : RuleManager) (fp : FastPathProcessor) : Input → FastPathProcessor → Prop
  | .packet env job, fp' => processPacket rules env job fp = .ok fp'
  | .cleanup now, fp' => fp' = { fp with tracker := fp.tracker.cleanupStale now defaultTimeout }

def JobOf (k : FlowKey) (job : PacketJob) : Prop :=
  ∃ key, lookupKey job = .ok key ∧ key.canonical = k

def Input.IsPacketOf (k : FlowKey) : Input → Prop
  | .packet _ job => JobOf k job
  | .cleanup _ => False

variable {rules : RuleManager} {env : PacketEnv} {job : PacketJob} {fp fp' : FastPathProcessor}
  {t t' : ConnectionTracker} {p k : FlowKey} {client : Bool} {action : PacketAction} {x : Input}

theorem verdict_touches (h : verdict rules t p job client = .ok (t', action)) : Touches p t t' := by
  rcases verdict_ok h with
    ⟨-, rfl, -⟩ | ⟨-, -, rfl, -⟩ | ⟨-, -, t₁, ht₁, ⟨-, -, rfl, -⟩ | ⟨-, rfl, -⟩⟩
  · exact .refl p t'
  · exact touches_blockConnection
  · exact ht₁.toTouches.trans touches_blockConnection
  · exact ht₁.toTouches

theorem processPacket_touches (hk : fp.tracker.Keyed)
    (h : processPacket rules env job fp = .ok fp') :
    ∃ key, lookupKey job = .ok key ∧ key.canonical ∈ fp'.tracker.connections ∧
      fp'.tracker.Keyed ∧ ∀ q, q ≠ key.canonical →
        fp'.tracker.connections.lookup q = fp.tracker.connections.lookup q ∨
          fp'.tracker.connections.lookup q = none := by
  obtain ⟨t, p, client, t', action, hlookup, hverdict, rfl⟩ := processPacket_ok.mp h
  obtain ⟨key, t₁, hkey, hcreate, -, hfollow⟩ := lookupConnection_ok hk hlookup
  have htouch : Touches p t₁ t' := hfollow.toTouches.trans (verdict_touches hverdict)
  have hmem := getOrCreateConnection_mem hcreate
  obtain ⟨rfl, -, hold⟩ := getOrCreateConnection_ok hcreate
  refine ⟨key, hkey, htouch.mem hmem, ?_, fun q hq => ?_⟩
  · exact htouch.keyed hmem (getOrCreateConnection_keyed hk hcreate)
  · change t'.connections.lookup q = _ ∨ t'.connections.lookup q = none
    rw [htouch.lookup_ne q hq]
    obtain ⟨-, rfl⟩ | ⟨-, -, hne⟩ := hold
    · exact .inl rfl
    · exact hne q hq

theorem step_keyed (hk : fp.tracker.Keyed) (h : Step rules fp x fp') : fp'.tracker.Keyed := by
  cases x with
  | packet env job =>
    obtain ⟨_, -, -, hkeyed, -⟩ := processPacket_touches hk h
    exact hkeyed
  | cleanup now =>
    cases h
    exact cleanupStale_keyed hk now _

/-- A step under whatever rules hold at its time. -/
def AnyStep (fp : FastPathProcessor) (x : Input) (fp' : FastPathProcessor) : Prop :=
  ∃ rules, Step rules fp x fp'

theorem anyRun_keyed {l : List Input} (h : Run AnyStep {} l fp) : fp.tracker.Keyed := by
  have hstep {s a t} (hs : s.tracker.Keyed) (h : AnyStep s a t) : t.tracker.Keyed := by
    obtain ⟨rules, h⟩ := h
    exact step_keyed hs h
  exact Run.invariant (I := fun fp => fp.tracker.Keyed) hstep h (keyed_empty 100000)

theorem run_keyed {l : List Input} (h : Run (Step rules) {} l fp) : fp.tracker.Keyed :=
  anyRun_keyed (h.mono fun hstep => ⟨rules, hstep⟩)

theorem step_of_other (hk : fp.tracker.Keyed) (h : Step rules fp x fp')
    (hx : ¬ x.IsPacketOf k) (hmem : k ∈ fp'.tracker.connections) :
    k ∈ fp.tracker.connections ∧ fp'.tracker.conn k = fp.tracker.conn k := by
  have hsame : fp'.tracker.connections.lookup k = fp.tracker.connections.lookup k := by
    have hnone : fp'.tracker.connections.lookup k ≠ none := fun h => AList.lookup_eq_none.mp h hmem
    cases x with
    | packet env job =>
      obtain ⟨key, hkey, -, -, hne⟩ := processPacket_touches hk h
      exact (hne k fun heq => hx ⟨key, hkey, heq.symm⟩).resolve_right hnone
    | cleanup now =>
      cases h
      exact (cleanupStale_lookup now _ k).resolve_right hnone
  refine ⟨AList.lookup_isSome.mp (hsame ▸ AList.lookup_isSome.mpr hmem), ?_⟩
  rw [ConnectionTracker.conn, ConnectionTracker.conn, hsame]

theorem step_entries {P : FlowKey → Connection → Prop} (hk : fp.tracker.Keyed)
    (h : Step rules fp x fp') (hP : ∀ k ∈ fp.tracker.connections, P k (fp.tracker.conn k))
    (hpacket : ∀ env job k, x = .packet env job → JobOf k job → P k (fp'.tracker.conn k)) :
    ∀ k ∈ fp'.tracker.connections, P k (fp'.tracker.conn k) := by
  rintro k hmem
  by_cases hx : x.IsPacketOf k
  · cases x with
    | packet env job => exact hpacket env job k rfl hx
    | cleanup now => exact hx.elim
  · obtain ⟨hold, hconn⟩ := step_of_other hk h hx hmem
    rw [hconn]
    exact hP k hold

theorem processPacket_known (hk : fp.tracker.Keyed) (hjob : JobOf k job)
    (hmem : k ∈ fp.tracker.connections) (h : processPacket rules env job fp = .ok fp') :
    ∃ t client t' action, Changes k (·.follow env job client) fp.tracker t ∧
      verdict rules t k job client = .ok (t', action) ∧
      fp' = { fp with totalProcessed := fp.totalProcessed + 1, tracker := t' }.handleAction
        job action := by
  obtain ⟨t, p, client, t', action, hlookup, hverdict, rfl⟩ := processPacket_ok.mp h
  obtain ⟨key, t₁, hkey, hcreate, -, hfollow⟩ := lookupConnection_ok hk hlookup
  obtain ⟨key', hkey', rfl⟩ := hjob
  cases hkey.symm.trans hkey'
  obtain ⟨rfl, -, ⟨-, rfl⟩ | ⟨hnew, -⟩⟩ := getOrCreateConnection_ok hcreate
  · exact ⟨t, client, t', action, hfollow, hverdict, rfl⟩
  · exact absurd hmem hnew

end DpiEngine.FastPathProcessor
