import DpiEngine.FastPath.Step

/-! # The end of a TCP connection

The tests have a state machine of their own. It closes on every RST bit and on
an acknowledgement once a FIN was seen. The fast path looks at one flag of a
packet only, SYN before FIN before RST, never closes on a FIN, and lets the
answer to a SYN establish a connection again that was reset.
-/

namespace DpiEngine

open ConnectionTracker FastPathProcessor

/-- `updateState` of the test of the TCP state machine. -/
def Connection.updateState (conn : Connection) (flags : UInt8) : Connection :=
  let conn := if hasFlag flags TCPFlags.SYN then
      if hasFlag flags TCPFlags.ACK then { conn with synAckSeen := true }
      else { conn with synSeen := true }
    else conn
  let conn := if conn.synSeen && conn.synAckSeen && hasFlag flags TCPFlags.ACK &&
      !hasFlag flags TCPFlags.SYN then
      if conn.state = .new then { conn with state := .established } else conn
    else conn
  let conn := if hasFlag flags TCPFlags.FIN then { conn with finSeen := true } else conn
  let conn := if hasFlag flags TCPFlags.RST then { conn with state := .closed } else conn
  if conn.finSeen && hasFlag flags TCPFlags.ACK && !hasFlag flags TCPFlags.SYN then
    { conn with state := .closed }
  else conn

structure Connection.Unstarted (conn : Connection) : Prop where
  state : conn.state = .new
  synSeen : conn.synSeen = false
  synAckSeen : conn.synAckSeen = false
  finSeen : conn.finSeen = false

/-! ## Kinds of flag bytes -/

def opens (flags : UInt8) : Bool := hasFlag flags TCPFlags.SYN && !hasFlag flags TCPFlags.ACK

def answers (flags : UInt8) : Bool := hasFlag flags TCPFlags.SYN && hasFlag flags TCPFlags.ACK

def acknowledges (flags : UInt8) : Bool :=
  hasFlag flags TCPFlags.ACK && !hasFlag flags TCPFlags.SYN

def resets (flags : UInt8) : Bool :=
  hasFlag flags TCPFlags.RST && !hasFlag flags TCPFlags.SYN && !hasFlag flags TCPFlags.FIN

/-- Some packet has the RST bit, or acknowledges with or after a packet with the FIN bit. -/
def TornDown (w : List UInt8) : Prop :=
  ∃ u b v, w = u ++ b :: v ∧ (hasFlag b TCPFlags.RST = true ∨
    acknowledges b = true ∧ ∃ f ∈ u ++ [b], hasFlag f TCPFlags.FIN = true)

/-- Some packet has RST without SYN and FIN, and behind it no SYN before it is answered. -/
def StaysReset (w : List UInt8) : Prop :=
  ∃ u b v, w = u ++ b :: v ∧ resets b = true ∧
    ∀ v₁ c v₂, v = v₁ ++ c :: v₂ → answers c = true → ∀ s ∈ u ++ b :: v₁, opens s = false

/-! ## One more packet -/

section Positions

variable {α : Type*} {w : List α} {x : α} {P : List α → α → List α → Prop}

theorem exists_position_concat : (∃ u b v, w ++ [x] = u ++ b :: v ∧ P u b v) ↔
    P w x [] ∨ ∃ u b v, w = u ++ b :: v ∧ P u b (v ++ [x]) := by
  constructor
  · rintro ⟨u, b, v, heq, hp⟩
    rcases v.eq_nil_or_concat with rfl | ⟨v, y, rfl⟩
    · obtain ⟨rfl, hx⟩ := List.append_inj' heq rfl
      obtain rfl : x = b := List.singleton_inj.mp hx
      exact .inl hp
    · rw [List.concat_eq_append] at heq hp
      rw [← List.cons_append, ← List.append_assoc] at heq
      obtain ⟨rfl, hx⟩ := List.append_inj' heq rfl
      obtain rfl : x = y := List.singleton_inj.mp hx
      exact .inr ⟨u, b, v, rfl, hp⟩
  · rintro (hp | ⟨u, b, v, rfl, hp⟩)
    · exact ⟨w, x, [], rfl, hp⟩
    · exact ⟨u, b, v ++ [x], by simp, hp⟩

theorem forall_position_concat : (∀ u b v, w ++ [x] = u ++ b :: v → P u b v) ↔
    P w x [] ∧ ∀ u b v, w = u ++ b :: v → P u b (v ++ [x]) := by
  have h := not_congr (exists_position_concat (w := w) (x := x) (P := fun u b v => ¬ P u b v))
  simpa only [not_exists, not_and, not_not, not_or] using h

end Positions

theorem tornDown_nil : ¬ TornDown [] := by
  rintro ⟨u, b, v, heq, -⟩
  simp at heq

theorem tornDown_concat (w : List UInt8) (b : UInt8) : TornDown (w ++ [b]) ↔
    TornDown w ∨ hasFlag b TCPFlags.RST = true ∨
      acknowledges b = true ∧ ∃ f ∈ w ++ [b], hasFlag f TCPFlags.FIN = true := by
  unfold TornDown
  rw [exists_position_concat, or_comm]

theorem staysReset_nil : ¬ StaysReset [] := by
  rintro ⟨u, b, v, heq, -⟩
  simp at heq

theorem staysReset_concat (w : List UInt8) (b : UInt8) : StaysReset (w ++ [b]) ↔
    resets b = true ∨ StaysReset w ∧ (answers b = true → ∀ s ∈ w, opens s = false) := by
  unfold StaysReset
  rw [exists_position_concat]
  refine or_congr ?_ ?_
  · simp
  · constructor
    · rintro ⟨u, r, v, rfl, hr, h⟩
      rw [forall_position_concat] at h
      exact ⟨⟨u, r, v, rfl, hr, h.2⟩, h.1⟩
    · rintro ⟨⟨u, r, v, rfl, hr, h⟩, hb⟩
      refine ⟨u, r, v, rfl, hr, ?_⟩
      rw [forall_position_concat]
      exact ⟨hb, h⟩

/-! ## The two machines -/

section Machines

variable {c : Connection} (h : c.Unstarted) (w : List UInt8)
include h

theorem finSeen_updateState : (w.foldl Connection.updateState c).finSeen = true ↔
    ∃ f ∈ w, hasFlag f TCPFlags.FIN = true := by
  induction w using List.reverseRecOn with
  | nil => simp [h.finSeen]
  | append_singleton w b ih =>
    have hstep (c : Connection) : (c.updateState b).finSeen =
        (c.finSeen || hasFlag b TCPFlags.FIN) := by
      unfold Connection.updateState
      cases hasFlag b TCPFlags.FIN <;> grind
    rw [List.foldl_concat, hstep, Bool.or_eq_true, ih]
    simp [or_and_right, exists_or]

/-- The machine of the test is closed exactly after the bytes that tear down. -/
theorem closed_updateState_iff :
    (w.foldl Connection.updateState c).state = .closed ↔ TornDown w := by
  induction w using List.reverseRecOn with
  | nil => simp [h.state, tornDown_nil]
  | append_singleton w b ih =>
    have hstep (c : Connection) : (c.updateState b).state = .closed ↔
        c.state = .closed ∨ hasFlag b TCPFlags.RST = true ∨
          acknowledges b = true ∧ (c.updateState b).finSeen = true := by
      unfold Connection.updateState acknowledges
      grind
    have hfin := finSeen_updateState h (w ++ [b])
    rw [List.foldl_concat] at hfin ⊢
    rw [hstep, hfin, ih, tornDown_concat]

theorem synSeen_followFlags : (w.foldl Connection.followFlags c).synSeen = true ↔
    ∃ s ∈ w, opens s = true := by
  induction w using List.reverseRecOn with
  | nil => simp [h.synSeen]
  | append_singleton w b ih =>
    have hstep (c : Connection) : (c.followFlags b).synSeen = (c.synSeen || opens b) := by
      unfold Connection.followFlags opens
      grind
    rw [List.foldl_concat, hstep, Bool.or_eq_true, ih]
    simp [or_and_right, exists_or]

/-- The fast path has closed the connection exactly if it stays reset. -/
theorem closed_followFlags_iff :
    (w.foldl Connection.followFlags c).state = .closed ↔ StaysReset w := by
  induction w using List.reverseRecOn with
  | nil => simp [h.state, staysReset_nil]
  | append_singleton w b ih =>
    have hstep (c : Connection) : (c.followFlags b).state = .closed ↔
        resets b = true ∨ c.state = .closed ∧ (answers b = true → c.synSeen = false) := by
      unfold Connection.followFlags resets answers
      grind
    have hsyn : (w.foldl Connection.followFlags c).synSeen = false ↔
        ∀ s ∈ w, opens s = false := by
      rw [← Bool.not_eq_true, synSeen_followFlags h w]
      simp
    rw [List.foldl_concat, hstep, hsyn, ih, staysReset_concat]

end Machines

/-! ## The connection in the table -/

theorem foldl_updateTCPState_changes {t : ConnectionTracker} {p : FlowKey} (ht : t.Keyed)
    (hp : p ∈ t.connections) (w : List UInt8) :
    (w.foldl (updateTCPState · p) t).conn p = w.foldl Connection.followFlags (t.conn p) := by
  induction w generalizing t with
  | nil => rfl
  | cons b w ih =>
    have hb := updateTCPState_changes ht hp b
    rw [List.foldl_cons, List.foldl_cons, ih (hb.keyed hp ht) (hb.mem hp), hb.conn]

/--
The fast path closes a connection that the machine of the test closes unless the flags tear it
down and it does not stay reset.
-/
theorem teardown_iff {t : ConnectionTracker} {p : FlowKey} (ht : t.Keyed)
    (hp : p ∈ t.connections) (hnew : (t.conn p).Unstarted) (flags : List UInt8) :
    ((flags.foldl Connection.updateState (t.conn p)).state = .closed →
      ((flags.foldl (updateTCPState · p) t).conn p).state = .closed) ↔
    (TornDown flags → StaysReset flags) := by
  rw [foldl_updateTCPState_changes ht hp, closed_updateState_iff hnew, closed_followFlags_iff hnew]

def oneConnection : ConnectionTracker :=
  { connections := (∅ : FlowTable).insert {} {}, totalSeen := 1 }

theorem oneConnection_created :
    ({} : ConnectionTracker).getOrCreateConnection {} {} = .ok (oneConnection, {}) := by
  rfl

theorem teardown_iff_reset :
    (([0x02, 0x04].foldl Connection.updateState (oneConnection.conn {})).state = .closed →
      (([0x02, 0x04].foldl (updateTCPState · {}) oneConnection).conn {}).state = .closed) ↔
    (TornDown [0x02, 0x04] → StaysReset [0x02, 0x04]) :=
  teardown_iff (getOrCreateConnection_keyed (keyed_empty _) oneConnection_created)
    (getOrCreateConnection_mem oneConnection_created) ⟨rfl, rfl, rfl, rfl⟩ [0x02, 0x04]

/-- A handshake, a FIN with an acknowledgement, and the acknowledgement of the FIN. -/
theorem not_closed_after_fin :
    ¬ (([0x02, 0x12, 0x10, 0x11, 0x10].foldl Connection.updateState
          (oneConnection.conn {})).state = .closed →
      (([0x02, 0x12, 0x10, 0x11, 0x10].foldl (updateTCPState · {}) oneConnection).conn {}).state =
        .closed) := by
  decide

end DpiEngine
