import DpiEngine.FastPath.Inspection

/-! # Packets without the clock

A packet writes the clock readings to the entry of its flow and nothing else
depends on them, so the entry apart from its times and the action of the packet
are the same whatever the clock shows.
-/

namespace DpiEngine

open Except FastPathProcessor

namespace Connection

def untimed (conn : Connection) : Connection := { conn with firstSeen := 0, lastSeen := 0 }

def timed (first last : ℕ) (conn : Connection) : Connection :=
  { conn with firstSeen := first, lastSeen := last }

variable {conn conn' : Connection} {first last : ℕ}

theorem exists_timed (h : conn.untimed = conn'.untimed) :
    ∃ first last, conn' = conn.timed first last := by
  refine ⟨conn'.firstSeen, conn'.lastSeen, ?_⟩
  calc
    conn' = conn'.untimed.timed conn'.firstSeen conn'.lastSeen := rfl
    _ = conn.untimed.timed conn'.firstSeen conn'.lastSeen := by rw [h]
    _ = conn.timed conn'.firstSeen conn'.lastSeen := rfl

/-- The connections differ in their clock readings at most, and the rest is equal. -/
def Untimed {α : Type} (r r' : Connection × α) : Prop :=
  r.1.untimed = r'.1.untimed ∧ r.2 = r'.2

theorem timed_inert (first last : ℕ) : Inert (timed first last) where
  flowKey _ := rfl
  state _ := rfl
  packets _ := rfl
  reassembler _ := rfl
  feed _ _ := rfl
  classify _ _ _ _ _ := rfl

theorem verdict_timed (rules : RuleManager) (job : PacketJob) (client : Bool) :
    Related Untimed (conn.verdict rules job client)
      ((conn.timed first last).verdict rules job client) := by
  apply Related.ite
  · intro _
    exact .ok ⟨rfl, rfl⟩
  · intro _
    apply Related.bind_same
    intro ip _
    apply Related.ite
    · intro _
      exact .ok ⟨rfl, rfl⟩
    · intro _
      apply ((timed_inert first last).inspectOpen conn job client).bind
      rintro c _ rfl
      apply Related.ite
      · intro _
        exact .ok ⟨rfl, rfl⟩
      · intro _
        exact .ok ⟨rfl, rfl⟩

theorem update_timed (now now' size : ℕ) (client : Bool) :
    (conn.timed first last).update now' size client =
      (conn.update now size client).timed first now' := by
  unfold update
  split_ifs <;> rfl

theorem followFlags_timed (flags : UInt8) :
    (conn.timed first last).followFlags flags = (conn.followFlags flags).timed first last := by
  unfold followFlags timed
  dsimp only
  split_ifs <;> rfl

theorem follow_timed (env env' : PacketEnv) (job : PacketJob) (client : Bool) :
    (conn.follow env job client).untimed =
      ((conn.timed first last).follow env' job client).untimed := by
  have hupdate : (conn.timed first last).update env'.seenAt job.data.length client =
      (conn.update env.seenAt job.data.length client).timed first env'.seenAt := update_timed ..
  unfold follow
  rw [hupdate]
  split_ifs
  · rw [followFlags_timed]
    rfl
  · rfl

end Connection

open Connection

variable {rules : RuleManager} {job : PacketJob} {entry entry' : Option Connection}

theorem newConnection_untimed (key : FlowKey) (now now' : ℕ) :
    Related (fun c c' : Connection => c.untimed = c'.untimed)
      (ConnectionTracker.newConnection key now) (ConnectionTracker.newConnection key now') := by
  apply Related.ite
  · intro _
    exact .ok rfl
  · intro _
    apply Related.bind_same
    intro srcIp _
    apply Related.bind_same
    intro dstIp _
    exact .ok rfl

theorem openEntry_untimed (key : FlowKey) (env env' : PacketEnv)
    (h : entry.map untimed = entry'.map untimed) :
    Related (fun c c' : Connection => c.untimed = c'.untimed) (openEntry key env entry)
      (openEntry key env' entry') := by
  cases entry with
  | none =>
    obtain rfl : entry' = none := Option.map_eq_none_iff.mp h.symm
    exact newConnection_untimed key env.createdAt env'.createdAt
  | some conn =>
    obtain ⟨conn', rfl, hconn⟩ := Option.map_eq_some_iff.mp h.symm
    exact .ok hconn.symm

theorem receive_untimed (env env' : PacketEnv) (h : entry.map untimed = entry'.map untimed) :
    Related Untimed (receive rules env job entry) (receive rules env' job entry') := by
  have hlookup : Related Untimed (lookupEntry env job entry) (lookupEntry env' job entry') := by
    apply Related.bind_same
    intro key _
    apply (openEntry_untimed key env env' h).bind
    intro c c' hc
    obtain ⟨first, last, rfl⟩ := exists_timed hc
    exact .ok ⟨follow_timed env env' job _, rfl⟩
  apply hlookup.bind
  rintro ⟨c, client⟩ ⟨c', client'⟩ ⟨hc, rfl⟩
  obtain ⟨first, last, rfl⟩ := exists_timed hc
  exact verdict_timed rules job client

end DpiEngine
