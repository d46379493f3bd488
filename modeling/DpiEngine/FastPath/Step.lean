import Mathlib.Logic.Relation
import DpiEngine.FastPath.Model
import DpiEngine.Tracker.Table

/-! # Steps of the fast path

What the lookup, the inspection and the rule checks of one packet can do to its
connection. The later results split on these cases and do not unfold the code.
-/

namespace DpiEngine

open ConnectionTracker

/-- What the TCP flags of a packet do to its connection. -/
def Connection.followFlags (conn : Connection) (flags : UInt8) : Connection :=
  if hasFlag flags TCPFlags.SYN then
    if hasFlag flags TCPFlags.ACK then
      { conn with
        synAckSeen := true
        state := if conn.synSeen then .established else conn.state }
    else { conn with synSeen := true }
  else if hasFlag flags TCPFlags.FIN then { conn with finSeen := true }
  else if hasFlag flags TCPFlags.RST then { conn with state := .closed }
  else conn

/-- What a packet does to its connection before the rules are checked. -/
def Connection.follow (conn : Connection) (env : PacketEnv) (job : PacketJob) (client : Bool) :
    Connection :=
  if job.tuple.protocol = 6 then
    (conn.update env.seenAt job.data.length client).followFlags job.tcpFlags
  else conn.update env.seenAt job.data.length client

def Connection.profile (conn : Connection) : AppType × Name × Name × Name :=
  (conn.appType, conn.sni, conn.httpHost, conn.dnsQuery)

theorem Connection.bestDomain_eq {c c' : Connection} (h : c.profile = c'.profile) :
    c.bestDomain = c'.bestDomain := by
  simp only [profile, Prod.mk.injEq] at h
  obtain ⟨-, hsni, hhost, hquery⟩ := h
  rw [bestDomain, bestDomain, hsni, hhost, hquery]

theorem Connection.appType_eq {c c' : Connection} (h : c.profile = c'.profile) :
    c.appType = c'.appType := (Prod.mk.inj h).1

@[simp] theorem Connection.flowKey_update (c : Connection) (now size : ℕ) (client : Bool) :
    (c.update now size client).flowKey = c.flowKey := by
  unfold update; split_ifs <;> rfl

@[simp] theorem Connection.state_update (c : Connection) (now size : ℕ) (client : Bool) :
    (c.update now size client).state = c.state := by
  unfold update; split_ifs <;> rfl

@[simp] theorem Connection.synSeen_update (c : Connection) (now size : ℕ) (client : Bool) :
    (c.update now size client).synSeen = c.synSeen := by
  unfold update; split_ifs <;> rfl

@[simp] theorem Connection.action_update (c : Connection) (now size : ℕ) (client : Bool) :
    (c.update now size client).action = c.action := by
  unfold update; split_ifs <;> rfl

@[simp] theorem Connection.profile_update (c : Connection) (now size : ℕ) (client : Bool) :
    (c.update now size client).profile = c.profile := by
  unfold update; split_ifs <;> rfl

@[simp] theorem Connection.flowKey_followFlags (c : Connection) (flags : UInt8) :
    (c.followFlags flags).flowKey = c.flowKey := by
  unfold followFlags; split_ifs <;> rfl

@[simp] theorem Connection.action_followFlags (c : Connection) (flags : UInt8) :
    (c.followFlags flags).action = c.action := by
  unfold followFlags; split_ifs <;> rfl

@[simp] theorem Connection.profile_followFlags (c : Connection) (flags : UInt8) :
    (c.followFlags flags).profile = c.profile := by
  unfold followFlags; split_ifs <;> rfl

@[simp] theorem Connection.flowKey_follow (c : Connection) (env : PacketEnv) (job : PacketJob)
    (client : Bool) : (c.follow env job client).flowKey = c.flowKey := by
  unfold follow; split_ifs <;> simp

@[simp] theorem Connection.action_follow (c : Connection) (env : PacketEnv) (job : PacketJob)
    (client : Bool) : (c.follow env job client).action = c.action := by
  unfold follow; split_ifs <;> simp

@[simp] theorem Connection.profile_follow (c : Connection) (env : PacketEnv) (job : PacketJob)
    (client : Bool) : (c.follow env job client).profile = c.profile := by
  unfold follow; split_ifs <;> simp

/-- `t'` is `t` with the connection behind the pointer changed by `f`. -/
structure Changes (p : FlowKey) (f : Connection → Connection) (t t' : ConnectionTracker) : Prop
    extends Touches p t t' where
  conn : t'.conn p = f (t.conn p)
  blockedCount : t'.blockedCount = t.blockedCount

theorem Changes.modify {t : ConnectionTracker} {p : FlowKey} {f : Connection → Connection}
    (hf : ∀ conn, (f conn).flowKey = conn.flowKey) : Changes p f t (t.modify p f) :=
  ⟨.modify hf, conn_modify t p f, rfl⟩

theorem Changes.trans {t t' t'' : ConnectionTracker} {p : FlowKey} {f g : Connection → Connection}
    (h : Changes p f t t') (h' : Changes p g t' t'') : Changes p (fun c => g (f c)) t t'' :=
  ⟨h.toTouches.trans h'.toTouches, by rw [h'.conn, h.conn],
    h'.blockedCount.trans h.blockedCount⟩

namespace FastPathProcessor

variable {t t' : ConnectionTracker} {p : FlowKey} {env : PacketEnv} {job : PacketJob}
  {client : Bool} {rules : RuleManager} {action : PacketAction} {fp fp' : FastPathProcessor}

theorem updateTCPState_changes (ht : t.Keyed) (hp : p ∈ t.connections) (flags : UInt8) :
    Changes p (·.followFlags flags) t (updateTCPState t p flags) := by
  unfold updateTCPState Connection.followFlags
  split_ifs with hsyn hack hfin hrst
  · exact .modify fun _ => rfl
  · exact .modify fun _ => rfl
  · exact .modify fun _ => rfl
  · rw [closeConnection_own ht hp]; exact .modify fun _ => rfl
  · exact ⟨.refl p t, rfl, rfl⟩

theorem lookupConnection_ok (ht : t.Keyed) (h : lookupConnection t env job = .ok (t', p, client)) :
    ∃ key t₁, lookupKey job = .ok key ∧ t.getOrCreateConnection key env = .ok (t₁, p) ∧
      client = isClient (t₁.conn p) key ∧ Changes p (·.follow env job client) t₁ t' := by
  simp only [lookupConnection, Except.do_eq_ok_iff] at h
  obtain ⟨key, hkey, ⟨t₁, p⟩, ht₁, h⟩ := h
  simp only [pure, Except.pure, Except.ok.injEq, Prod.mk.injEq] at h
  obtain ⟨rfl, rfl, rfl⟩ := h
  refine ⟨key, t₁, hkey, ht₁, rfl, ?_⟩
  have hmem := getOrCreateConnection_mem ht₁
  have hseen : Changes p (·.update env.seenAt job.data.length (isClient (t₁.conn p) key)) t₁
      (t₁.updateConnection p env.seenAt job.data.length (isClient (t₁.conn p) key)) :=
    .modify fun _ => Connection.flowKey_update _ _ _ _
  unfold Connection.follow
  split_ifs with h6
  · refine hseen.trans (updateTCPState_changes ?_ (hseen.mem hmem) job.tcpFlags)
    exact hseen.keyed hmem (getOrCreateConnection_keyed ht ht₁)
  · exact hseen

/-- An inspection classifies the connection or leaves what the rules are checked against. -/
structure Inspects (p : FlowKey) (t t' : ConnectionTracker) : Prop
    extends Touches p t t' where
  blockedCount : t'.blockedCount = t.blockedCount
  action : (t'.conn p).action = (t.conn p).action
  settled : (t'.conn p).state = .classified ∨
    (t'.conn p).state = (t.conn p).state ∧ (t'.conn p).profile = (t.conn p).profile

theorem Inspects.refl (p : FlowKey) (t : ConnectionTracker) : Inspects p t t :=
  ⟨.refl p t, rfl, rfl, .inr ⟨rfl, rfl⟩⟩

theorem Inspects.trans {t'' : ConnectionTracker} (h : Inspects p t t') (h' : Inspects p t' t'') :
    Inspects p t t'' := by
  refine ⟨h.toTouches.trans h'.toTouches, h'.blockedCount.trans h.blockedCount,
    h'.action.trans h.action, ?_⟩
  rcases h'.settled with hclass | ⟨hstate, hprofile⟩
  · exact .inl hclass
  · rw [hstate, hprofile]; exact h.settled

/-- One write of an inspection to the connection behind the pointer. -/
inductive InspectionWrite (p : FlowKey) : ConnectionTracker → ConnectionTracker → Prop
  | classify (t : ConnectionTracker) (app : AppType) (sni httpHost dnsQuery : Name) :
    InspectionWrite p t (t.classifyConnection p app sni httpHost dnsQuery)
  | reassemble (t : ConnectionTracker) (f : Connection → TCPReassembler) :
    InspectionWrite p t (t.modify p fun conn => { conn with tcpReassemblerClient := f conn })

abbrev InspectionWrites (p : FlowKey) := Relation.ReflTransGen (InspectionWrite p)

theorem Inspects.of_write (h : InspectionWrite p t t') : Inspects p t t' := by
  cases h with
  | classify app sni httpHost dnsQuery =>
    constructor
    · exact touches_classifyConnection app sni httpHost dnsQuery
    · rfl
    · rw [conn_classifyConnection]
      rfl
    · exact .inl (by rw [conn_classifyConnection]; rfl)
  | reassemble f =>
    constructor
    · exact .modify fun _ => rfl
    · rfl
    · rw [conn_modify]
    · exact .inr ⟨by rw [conn_modify], by rw [conn_modify]; rfl⟩

theorem Inspects.of_writes (h : InspectionWrites p t t') : Inspects p t t' := by
  induction h with
  | refl => exact .refl p t
  | tail _ hwrite ih => exact ih.trans (.of_write hwrite)

theorem inspectDNS_writes {updated : Bool}
    (h : inspectDNS t p job.payload = .ok (t', updated)) : InspectionWrites p t t' := by
  obtain ⟨_ | result, -, h⟩ := Except.do_eq_ok_iff.mp h <;> cases h
  · exact .refl
  · exact .single (.classify _ _ _ _ _)

theorem inspectQUIC_writes {updated : Bool}
    (h : inspectQUIC t p job.payload = .ok (t', updated)) : InspectionWrites p t t' := by
  obtain ⟨_ | _, -, h⟩ := Except.do_eq_ok_iff.mp h
  · cases h
    exact .refl
  · obtain ⟨_ | sni, -, h⟩ := Except.do_eq_ok_iff.mp h <;> cases h
    · exact .single (.classify _ _ _ _ _)
    · exact .single (.classify _ _ _ _ _)

theorem inspectHTTP_writes {updated : Bool}
    (h : inspectHTTP t p job.payload = .ok (t', updated)) : InspectionWrites p t t' := by
  obtain ⟨_ | host, -, h⟩ := Except.do_eq_ok_iff.mp h <;> cases h
  · exact .single (.classify _ _ _ _ _)
  · exact .single (.classify _ _ _ _ _)

theorem inspectTLS_writes {updated : Bool}
    (h : inspectTLS t p job.tcpSeqNumber job.payload = .ok (t', updated)) :
    InspectionWrites p t t' := by
  obtain ⟨_ | sni, -, h⟩ := Except.do_eq_ok_iff.mp h <;> cases h
  · exact .single (.reassemble _ _)
  · exact ((Relation.ReflTransGen.single (.reassemble _ _)).tail (.classify _ _ _ _ _)).tail
      (.reassemble _ _)

theorem inspectByProtocol_writes {updated : Bool}
    (h : inspectByProtocol t p job client = .ok (t', updated)) : InspectionWrites p t t' := by
  unfold inspectByProtocol at h
  dsimp only at h
  split_ifs at h with hudp hport htcp hport
  · exact inspectDNS_writes h
  · exact inspectQUIC_writes h
  · exact inspectHTTP_writes h
  · obtain ⟨_ | _, -, h⟩ := Except.do_eq_ok_iff.mp h
    · exact inspectTLS_writes h
    · exact inspectHTTP_writes h
  · cases h
    exact .refl

theorem inspectPayload_writes (h : inspectPayload t p job client = .ok t') :
    InspectionWrites p t t' := by
  unfold inspectPayload at h
  split_ifs at h with hpayload
  · cases h
    exact .refl
  · obtain ⟨⟨t₁, updated⟩, ht₁, h⟩ := Except.do_eq_ok_iff.mp h
    have hwrites := inspectByProtocol_writes ht₁
    dsimp only at h
    split_ifs at h with hunknown
    · cases h
      exact hwrites.tail (.classify _ _ _ _ _)
    · cases h
      exact hwrites

theorem inspectOpen_inspects (h : inspectOpen t p job client = .ok t') : Inspects p t t' := by
  unfold inspectOpen at h
  split_ifs at h
  · exact .of_writes (inspectPayload_writes h)
  · cases h
    exact .refl p t

theorem verdict_cases (h : verdict rules t p job client = .ok (t', action)) :
    ((t.conn p).state = .blocked ∧ t' = t ∧ action = .drop) ∨
    ((t.conn p).state ≠ .blocked ∧ ipBlocked rules (t.conn p) = .ok true ∧
      t' = t.blockConnection p ∧ action = .drop) ∨
    ((t.conn p).state ≠ .blocked ∧ ipBlocked rules (t.conn p) = .ok false ∧ ∃ t₁,
      inspectOpen t p job client = .ok t₁ ∧
      (((t₁.conn p).state = .classified ∧ contentBlocked rules (t₁.conn p) = true ∧
        t' = t₁.blockConnection p ∧ action = .drop) ∨
      (¬ ((t₁.conn p).state = .classified ∧ contentBlocked rules (t₁.conn p) = true) ∧
        t' = t₁ ∧ action = .forward))) := by
  unfold verdict at h
  split_ifs at h with hblocked
  · cases h; exact .inl ⟨hblocked, rfl, rfl⟩
  · obtain ⟨ip, hip, h⟩ := Except.do_eq_ok_iff.mp h
    cases ip with
    | true => cases h; exact .inr (.inl ⟨hblocked, hip, rfl, rfl⟩)
    | false =>
      refine .inr (.inr ⟨hblocked, hip, ?_⟩)
      simp only [Bool.false_eq_true, if_false] at h
      obtain ⟨t₁, ht₁, h⟩ := Except.do_eq_ok_iff.mp h
      refine ⟨t₁, ht₁, ?_⟩
      split_ifs at h with hcontent
      · cases h; exact .inl ⟨hcontent.1, hcontent.2, rfl, rfl⟩
      · cases h; exact .inr ⟨hcontent, rfl, rfl⟩

theorem verdict_ok (h : verdict rules t p job client = .ok (t', action)) :
    ((t.conn p).state = .blocked ∧ t' = t ∧ action = .drop) ∨
    ((t.conn p).state ≠ .blocked ∧ ipBlocked rules (t.conn p) = .ok true ∧
      t' = t.blockConnection p ∧ action = .drop) ∨
    ((t.conn p).state ≠ .blocked ∧ ipBlocked rules (t.conn p) = .ok false ∧ ∃ t₁,
      Inspects p t t₁ ∧
      (((t₁.conn p).state = .classified ∧ contentBlocked rules (t₁.conn p) = true ∧
        t' = t₁.blockConnection p ∧ action = .drop) ∨
      (¬ ((t₁.conn p).state = .classified ∧ contentBlocked rules (t₁.conn p) = true) ∧
        t' = t₁ ∧ action = .forward))) := by
  rcases verdict_cases h with h | h | ⟨hblocked, hip, t₁, ht₁, h⟩
  · exact .inl h
  · exact .inr (.inl h)
  · exact .inr (.inr ⟨hblocked, hip, t₁, inspectOpen_inspects ht₁, h⟩)

theorem processPacket_ok :
    processPacket rules env job fp = .ok fp' ↔ ∃ t p client t' action,
      lookupConnection fp.tracker env job = .ok (t, p, client) ∧
      verdict rules t p job client = .ok (t', action) ∧
      fp' = { fp with totalProcessed := fp.totalProcessed + 1, tracker := t' }.handleAction
        job action := by
  simp only [processPacket, Except.do_eq_ok_iff]
  constructor
  · rintro ⟨⟨t, p, client⟩, ht, ⟨t', action⟩, ht', h⟩
    cases h
    exact ⟨t, p, client, t', action, ht, ht', rfl⟩
  · rintro ⟨t, p, client, t', action, ht, ht', rfl⟩
    exact ⟨⟨t, p, client⟩, ht, ⟨t', action⟩, ht', rfl⟩

end FastPathProcessor

end DpiEngine
