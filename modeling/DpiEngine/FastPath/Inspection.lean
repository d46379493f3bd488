import DpiEngine.FastPath.Direction
import DpiEngine.FastPath.Flow

/-! # What the inspection sees and writes

A change of fields that the inspection neither reads nor writes commutes with it.
What it writes to an entry does not touch the counters and the action.
-/

namespace DpiEngine

open Except FastPathProcessor

namespace Connection

structure Inert (g : Connection → Connection) : Prop where
  flowKey : ∀ c, (g c).flowKey = c.flowKey
  state : ∀ c, (g c).state = c.state
  packets : ∀ c, (g c).packetsIn + (g c).packetsOut = c.packetsIn + c.packetsOut
  reassembler : ∀ c, (g c).tcpReassemblerClient = c.tcpReassemblerClient
  feed : ∀ c r, { g c with tcpReassemblerClient := r } = g { c with tcpReassemblerClient := r }
  classify : ∀ c app sni httpHost dnsQuery,
    (g c).classify app sni httpHost dnsQuery = g (c.classify app sni httpHost dnsQuery)

def Along {α : Type} (g : Connection → Connection) (r r' : Connection × α) : Prop :=
  r'.1 = g r.1 ∧ r.2 = r'.2

namespace Inert

variable {g : Connection → Connection} (hg : Inert g) (c : Connection)
include hg

theorem inspectDNS (payload : List UInt8) :
    Related (Along g) (c.inspectDNS payload) ((g c).inspectDNS payload) := by
  apply Related.bind_same
  rintro (_ | result) _
  · exact .ok ⟨rfl, rfl⟩
  · exact .ok ⟨hg.classify .., rfl⟩

theorem inspectQUIC (payload : List UInt8) :
    Related (Along g) (c.inspectQUIC payload) ((g c).inspectQUIC payload) := by
  apply Related.bind_same
  rintro (_ | _) _
  · exact .ok ⟨rfl, rfl⟩
  · apply Related.bind_same
    rintro (_ | sni) _
    · exact .ok ⟨hg.classify .., rfl⟩
    · exact .ok ⟨hg.classify .., rfl⟩

theorem inspectHTTP (payload : List UInt8) :
    Related (Along g) (c.inspectHTTP payload) ((g c).inspectHTTP payload) := by
  apply Related.bind_same
  rintro (_ | host) _
  · exact .ok ⟨hg.classify .., rfl⟩
  · exact .ok ⟨hg.classify .., rfl⟩

theorem inspectTLS (seq : UInt32) (payload : List UInt8) :
    Related (Along g) (c.inspectTLS seq payload) ((g c).inspectTLS seq payload) := by
  unfold Connection.inspectTLS
  rw [hg.reassembler]
  obtain ⟨reassembler, name⟩ := c.tcpReassemblerClient.tryExtractSNI seq payload
  apply Related.bind_same
  rintro (_ | sni) _
  · exact .ok ⟨hg.feed .., rfl⟩
  · refine .ok ⟨?_, rfl⟩
    dsimp only
    rw [hg.feed, hg.classify, hg.reassembler, hg.feed]

theorem inspectByProtocol (job : PacketJob) (client : Bool) :
    Related (Along g) (c.inspectByProtocol job client) ((g c).inspectByProtocol job client) := by
  unfold Connection.inspectByProtocol
  rw [hg.flowKey]
  apply Related.ite
  · intro _
    exact Related.ite (fun _ => hg.inspectDNS c _) (fun _ => hg.inspectQUIC c _)
  · intro _
    apply Related.ite
    · intro _
      apply Related.ite
      · intro _
        exact hg.inspectHTTP c _
      · intro _
        apply Related.bind_same
        intro isRequest _
        exact Related.ite (fun _ => hg.inspectHTTP c _) (fun _ => hg.inspectTLS c _ _)
    · intro _
      exact .ok ⟨rfl, rfl⟩

theorem inspectPayload (job : PacketJob) (client : Bool) :
    Related (fun d d' => d' = g d) (c.inspectPayload job client)
      ((g c).inspectPayload job client) := by
  apply Related.ite
  · intro _
    exact .ok rfl
  · intro _
    apply (hg.inspectByProtocol c job client).bind
    rintro ⟨d, updated⟩ ⟨d', updated'⟩ ⟨rfl, rfl⟩
    dsimp only
    rw [hg.packets]
    apply Related.ite
    · intro _
      exact .ok (hg.classify ..)
    · intro _
      exact .ok rfl

theorem inspectOpen (job : PacketJob) (client : Bool) :
    Related (fun d d' => d' = g d) (c.inspectOpen job client) ((g c).inspectOpen job client) := by
  unfold Connection.inspectOpen
  rw [hg.state]
  exact Related.ite (fun _ => hg.inspectPayload c job client) (fun _ => .ok rfl)

end Inert

variable {c d e : Connection} {rules : RuleManager} {job : PacketJob} {client : Bool}
  {action : PacketAction}

theorem inspectOpen_ok (h : c.inspectOpen job client = .ok e) :
    e.tally = c.tally ∧ e.action = c.action ∧ (e.state = .classified ∨ e.state = c.state) := by
  -- a table with this one entry
  obtain ⟨t, p, hc⟩ : ∃ (t : ConnectionTracker) (p : FlowKey), t.conn p = c := by
    refine ⟨{ connections := (∅ : FlowTable).insert c.flowKey c }, c.flowKey, ?_⟩
    rw [ConnectionTracker.conn, AList.lookup_insert]
    rfl
  have halike := inspectOpen_alike (t := t) (p := p) job client
  rw [hc] at halike
  obtain ⟨t', ht', hholds⟩ := halike.ok_of h
  have hinspects := inspectOpen_inspects ht'
  refine ⟨?_, ?_, ?_⟩
  · rw [← hholds.conn, inspectOpen_tally ht', hc]
  · rw [← hholds.conn, hinspects.action, hc]
  · rw [← hholds.conn, ← hc]
    exact hinspects.settled.imp_right And.left

theorem verdict_ok (h : c.verdict rules job client = .ok (d, action)) :
    (c.state = .blocked ∧ d = c ∧ action = .drop) ∨
    c.state ≠ .blocked ∧ ipBlocked rules c = .ok true ∧ d = c.block ∧ action = .drop ∨
    c.state ≠ .blocked ∧ ipBlocked rules c = .ok false ∧
      ∃ e, c.inspectOpen job client = .ok e ∧
        if e.state = .classified ∧ contentBlocked rules e then d = e.block ∧ action = .drop
        else d = e ∧ action = .forward := by
  unfold verdict at h
  split_ifs at h with hstate
  · cases h
    exact .inl ⟨hstate, rfl, rfl⟩
  · obtain ⟨ip, hip, h⟩ := Except.do_eq_ok_iff.mp h
    cases ip with
    | true =>
      cases h
      exact .inr (.inl ⟨hstate, hip, rfl, rfl⟩)
    | false =>
      obtain ⟨e, he, h⟩ := Except.do_eq_ok_iff.mp h
      refine .inr (.inr ⟨hstate, hip, e, he, ?_⟩)
      split_ifs at h ⊢ <;> cases h <;> exact ⟨rfl, rfl⟩

end Connection

end DpiEngine
