import DpiEngine.FastPath.Run

/-! # Directions of packets

A connection counts a packet as incoming if its key is the key of the packet
that created the entry, whichever of the two directions is the canonical one. All
later writes to the entry leave the counters alone.
-/

namespace DpiEngine

open ConnectionTracker

/-- What the direction of a packet is decided by, and the counters it decides. -/
def Connection.tally (conn : Connection) : Bool × ℕ × ℕ × ℕ × ℕ :=
  (conn.originalIsCanonical, conn.packetsIn, conn.packetsOut, conn.bytesIn, conn.bytesOut)

theorem Connection.tally_follow (c : Connection) (env : PacketEnv) (job : PacketJob)
    (client : Bool) : (c.follow env job client).tally =
      if client then (c.originalIsCanonical, c.packetsIn + 1, c.packetsOut,
        c.bytesIn + job.data.length, c.bytesOut)
      else (c.originalIsCanonical, c.packetsIn, c.packetsOut + 1, c.bytesIn,
        c.bytesOut + job.data.length) := by
  have hflags (c : Connection) : (c.followFlags job.tcpFlags).tally = c.tally := by
    unfold followFlags
    split_ifs <;> rfl
  have hupdate : (c.follow env job client).tally =
      (c.update env.seenAt job.data.length client).tally := by
    unfold follow
    split_ifs
    · exact hflags _
    · rfl
  rw [hupdate, update]
  split_ifs <;> rfl

namespace FastPathProcessor

variable {rules : RuleManager} {env : PacketEnv} {job : PacketJob} {fp fp' : FastPathProcessor}
  {t t' : ConnectionTracker} {p k key key' : FlowKey} {client : Bool} {action : PacketAction}
  {x : Input} {c : Connection}

theorem InspectionWrites.tally (h : InspectionWrites p t t') :
    (t'.conn p).tally = (t.conn p).tally := by
  induction h with
  | refl => rfl
  | tail _ hwrite ih =>
    refine Eq.trans ?_ ih
    cases hwrite with
    | classify app sni httpHost dnsQuery =>
      rw [conn_classifyConnection]
      rfl
    | reassemble f =>
      rw [conn_modify]
      rfl

theorem tally_blockConnection : ((t.blockConnection p).conn p).tally = (t.conn p).tally := by
  rw [conn_blockConnection]
  rfl

theorem inspectOpen_tally (h : inspectOpen t p job client = .ok t') :
    (t'.conn p).tally = (t.conn p).tally := by
  unfold inspectOpen at h
  split_ifs at h
  · exact (inspectPayload_writes h).tally
  · cases h
    rfl

theorem verdict_tally (h : verdict rules t p job client = .ok (t', action)) :
    (t'.conn p).tally = (t.conn p).tally := by
  rcases verdict_cases h with ⟨-, rfl, -⟩ | ⟨-, -, rfl, -⟩ | ⟨-, -, t₁, ht₁, hcase⟩
  · rfl
  · exact tally_blockConnection
  · rcases hcase with ⟨-, -, rfl, -⟩ | ⟨-, rfl, -⟩
    · exact tally_blockConnection.trans (inspectOpen_tally ht₁)
    · exact inspectOpen_tally ht₁

/-! ### One packet -/

theorem isClient_eq (hc : c.originalIsCanonical = decide (key = key.canonical))
    (hkey : key'.canonical = key.canonical) : isClient c key' = decide (key' = key) := by
  rw [isClient, hc, hkey]
  by_cases hcan : key = key.canonical
  · rw [if_pos (decide_eq_true hcan), ← hcan]
    exact decide_eq_decide.mpr eq_comm
  · rw [if_neg (by simpa using hcan)]
    have hrev : key.canonical = key.reverse :=
      (FlowKey.canonical_cases key).resolve_left fun h => hcan h.symm
    rw [hrev] at hcan ⊢
    refine decide_eq_decide.mpr ?_
    rcases FlowKey.canonical_eq_iff.mp hkey with rfl | rfl
    · exact iff_of_true (fun h => hcan h.symm) rfl
    · exact iff_of_false (fun h => h rfl) fun h => hcan h.symm

/-- The packet is counted in the entry of its flow, which is there or made for its key. -/
theorem processPacket_tally (hk : fp.tracker.Keyed) (hkey : lookupKey job = .ok key)
    (h : processPacket rules env job fp = .ok fp') : ∃ c : Connection,
      (key.canonical ∈ fp.tracker.connections → c = fp.tracker.conn key.canonical) ∧
      (key.canonical ∉ fp.tracker.connections →
        c.tally = (decide (key = key.canonical), 0, 0, 0, 0)) ∧
      (fp'.tracker.conn key.canonical).tally = (c.follow env job (isClient c key)).tally := by
  obtain ⟨t, p, client, t', action, hlookup, hverdict, rfl⟩ := processPacket_ok.mp h
  obtain ⟨key', t₁, hkey', hcreate, rfl, hfollow⟩ := lookupConnection_ok hk hlookup
  cases hkey.symm.trans hkey'
  obtain ⟨rfl, -, hold⟩ := getOrCreateConnection_ok hcreate
  refine ⟨t₁.conn key.canonical, ?_, ?_, ?_⟩
  · intro hmem
    rcases hold with ⟨-, rfl⟩ | ⟨hnew, -⟩
    · rfl
    · exact absurd hmem hnew
  · intro hnew
    rcases hold with ⟨hmem, -⟩ | ⟨-, ⟨conn, hconn, hlookup⟩, -⟩
    · exact absurd hmem hnew
    · obtain ⟨tuple, rfl⟩ := newConnection_ok hconn
      rw [ConnectionTracker.conn, hlookup]
      rfl
  · refine (verdict_tally hverdict).trans ?_
    rw [hfollow.conn]

/-! ### The packets of an entry -/

/-- The size of a packet with the key of the packet that created the entry. -/
def Input.inward (key : FlowKey) : Input → Option ℕ
  | .packet _ job => if lookupKey job = .ok key then some job.data.length else none
  | .cleanup _ => none

/-- The size of a packet with the other key of the flow. -/
def Input.outward (key : FlowKey) : Input → Option ℕ
  | .packet _ job =>
    if lookupKey job = .ok key.reverse ∧ key.reverse ≠ key then some job.data.length else none
  | .cleanup _ => none

/-- The connection has counted these inputs by their directions. -/
structure Attributed (key : FlowKey) (l : List Input) (c : Connection) : Prop where
  original : c.originalIsCanonical = decide (key = key.canonical)
  packetsIn : c.packetsIn = (l.filterMap (Input.inward key)).length
  bytesIn : c.bytesIn = (l.filterMap (Input.inward key)).sum
  packetsOut : c.packetsOut = (l.filterMap (Input.outward key)).length
  bytesOut : c.bytesOut = (l.filterMap (Input.outward key)).sum

theorem attributed_iff {l : List Input} : Attributed key l c ↔
    c.tally = (decide (key = key.canonical), (l.filterMap (Input.inward key)).length,
      (l.filterMap (Input.outward key)).length, (l.filterMap (Input.inward key)).sum,
      (l.filterMap (Input.outward key)).sum) := by
  simp only [Connection.tally, Prod.mk.injEq]
  constructor
  · rintro ⟨ho, hpi, hbi, hpo, hbo⟩
    exact ⟨ho, hpi, hpo, hbi, hbo⟩
  · rintro ⟨ho, hpi, hpo, hbi, hbo⟩
    exact ⟨ho, hpi, hbi, hpo, hbo⟩

theorem Attributed.packet {l : List Input} (h : Attributed key l c) (env : PacketEnv)
    (hkey : lookupKey job = .ok key') (hflow : key'.canonical = key.canonical) {c' : Connection}
    (hc' : c'.tally = (c.follow env job (isClient c key')).tally) :
    Attributed key (l ++ [.packet env job]) c' := by
  rw [attributed_iff, hc', Connection.tally_follow, isClient_eq h.original hflow]
  by_cases hin : key' = key
  · subst hin
    have hin : Input.inward key' (.packet env job) = some job.data.length := if_pos hkey
    have hout : Input.outward key' (.packet env job) = none := by
      refine if_neg fun ⟨hrev, hne⟩ => hne ?_
      exact Except.ok.inj (hrev.symm.trans hkey)
    rw [if_pos (by simp)]
    simp [List.filterMap_append, hin, hout, h.original, h.packetsIn, h.bytesIn, h.packetsOut,
      h.bytesOut]
  · have hrev : key' = key.reverse := (FlowKey.canonical_eq_iff.mp hflow).resolve_left hin
    subst hrev
    have hnone : Input.inward key (.packet env job) = none :=
      if_neg fun h => hin (Except.ok.inj (hkey.symm.trans h))
    have hout : Input.outward key (.packet env job) = some job.data.length := if_pos ⟨hkey, hin⟩
    rw [if_neg (by simpa using hin)]
    simp [List.filterMap_append, hnone, hout, h.original, h.packetsIn, h.bytesIn, h.packetsOut,
      h.bytesOut]

theorem Attributed.other {l : List Input} (h : Attributed key l c)
    (hx : ¬ x.IsPacketOf key.canonical) : Attributed key (l ++ [x]) c := by
  have hin : x.inward key = none := by
    cases x with
    | packet env job => exact if_neg fun hkey => hx ⟨key, hkey, rfl⟩
    | cleanup now => rfl
  have hout : x.outward key = none := by
    cases x with
    | packet env job =>
      exact if_neg fun hkey => hx ⟨key.reverse, hkey.1, FlowKey.canonical_reverse key⟩
    | cleanup now => rfl
  rw [attributed_iff] at h ⊢
  simpa [List.filterMap_append, hin, hout] using h

theorem step_attributed {l : List Input} (hk : fp.tracker.Keyed)
    (hmem : key.canonical ∈ fp.tracker.connections)
    (h : Attributed key l (fp.tracker.conn key.canonical)) (hstep : AnyStep fp x fp')
    (hmem' : key.canonical ∈ fp'.tracker.connections) :
    Attributed key (l ++ [x]) (fp'.tracker.conn key.canonical) := by
  obtain ⟨rules, hstep⟩ := hstep
  by_cases hx : x.IsPacketOf key.canonical
  · cases x with
    | cleanup now => exact hx.elim
    | packet env job =>
      obtain ⟨key', hkey', hflow⟩ := hx
      obtain ⟨c, hold, -, htally⟩ := processPacket_tally hk hkey' hstep
      rw [hflow] at hold htally
      obtain rfl := hold hmem
      exact h.packet env hkey' hflow htally
  · obtain ⟨-, hconn⟩ := step_of_other hk hstep hx hmem'
    rw [hconn]
    exact h.other hx

/-- While the entry lives it counts what arrives. -/
theorem run_attributed {l l' : List Input} (hk : fp.tracker.Keyed)
    (hmem : key.canonical ∈ fp.tracker.connections)
    (h : Attributed key l (fp.tracker.conn key.canonical))
    (hrun : Run (fun s a t => AnyStep s a t ∧ key.canonical ∈ t.tracker.connections) fp l' fp') :
    Attributed key (l ++ l') (fp'.tracker.conn key.canonical) := by
  induction hrun generalizing l with
  | nil => rwa [List.append_nil]
  | @cons fp fp₁ fp' x l' hstep _ ih =>
    obtain ⟨⟨rules, hstep⟩, hmem₁⟩ := hstep
    have h₁ := step_attributed hk hmem h ⟨rules, hstep⟩ hmem₁
    have hrest := ih (step_keyed hk hstep) hmem₁ h₁
    rwa [List.append_assoc] at hrest

theorem step_creates (hk : fp.tracker.Keyed) (hnew : k ∉ fp.tracker.connections)
    (h : AnyStep fp x fp') (hmem : k ∈ fp'.tracker.connections) :
    ∃ env job key, x = .packet env job ∧ lookupKey job = .ok key ∧ key.canonical = k ∧
      Attributed key [x] (fp'.tracker.conn k) := by
  obtain ⟨rules, h⟩ := h
  have hx : x.IsPacketOf k := by
    by_contra hx
    exact hnew (step_of_other hk h hx hmem).1
  cases x with
  | cleanup now => exact hx.elim
  | packet env job =>
    obtain ⟨key, hkey, rfl⟩ := hx
    obtain ⟨c, -, hzero, htally⟩ := processPacket_tally hk hkey h
    refine ⟨env, job, key, rfl, hkey, rfl, ?_⟩
    have hempty : Attributed key [] c := attributed_iff.mpr (hzero hnew)
    exact hempty.packet env hkey rfl htally

/-- The entry of the key was made by the packet behind `l₁` and has lived through `l₂`. -/
structure Lifetime (key : FlowKey) (l₁ : List Input) (env : PacketEnv) (job : PacketJob)
    (l₂ : List Input) (fp : FastPathProcessor) : Prop where
  created : lookupKey job = .ok key
  lives : ∃ fp₁, Run AnyStep {} l₁ fp₁ ∧ key.canonical ∉ fp₁.tracker.connections ∧
    Run (fun s a t => AnyStep s a t ∧ key.canonical ∈ t.tracker.connections) fp₁
      (.packet env job :: l₂) fp

theorem exists_lifetime {l : List Input} (h : Run AnyStep {} l fp)
    (hmem : k ∈ fp.tracker.connections) : ∃ key l₁ env job l₂, key.canonical = k ∧
      l = l₁ ++ .packet env job :: l₂ ∧ Lifetime key l₁ env job l₂ fp := by
  have hempty : k ∉ ({} : FastPathProcessor).tracker.connections := AList.notMem_empty k
  obtain ⟨l₁, x, l₂, fp₁, hl, hbefore, hnew, hsince⟩ :=
    h.exists_since (P := fun fp => k ∈ fp.tracker.connections) hempty hmem
  obtain ⟨fp₂, ⟨hstep, hmem₂⟩, -⟩ := Run.cons_iff.mp hsince
  obtain ⟨env, job, key, rfl, hkey, rfl, -⟩ := step_creates (anyRun_keyed hbefore) hnew hstep hmem₂
  exact ⟨key, l₁, env, job, l₂, rfl, hl, hkey, fp₁, hbefore, hnew, hsince⟩

theorem Lifetime.attributed {l₁ l₂ : List Input} (h : Lifetime key l₁ env job l₂ fp) :
    Attributed key (.packet env job :: l₂) (fp.tracker.conn key.canonical) := by
  obtain ⟨fp₁, hbefore, hnew, hsince⟩ := h.lives
  obtain ⟨fp₂, ⟨hstep, hmem₂⟩, hrest⟩ := Run.cons_iff.mp hsince
  have hk := anyRun_keyed hbefore
  obtain ⟨env', job', key', heq, hkey', -, hfirst⟩ := step_creates hk hnew hstep hmem₂
  cases heq
  cases h.created.symm.trans hkey'
  obtain ⟨rules, hstep⟩ := hstep
  exact run_attributed (step_keyed hk hstep) hmem₂ hfirst hrest

/--
In every run, whatever rules hold at its steps, every live entry was made by some packet of its
flow, and since then has counted the packets with the key of that packet as incoming and those with
the reverse key as outgoing.
-/
theorem direction_attribution {l : List Input} (h : Run AnyStep {} l fp)
    (hmem : k ∈ fp.tracker.connections) :
    (∃ key l₁ env job l₂, key.canonical = k ∧ l = l₁ ++ .packet env job :: l₂ ∧
      Lifetime key l₁ env job l₂ fp) ∧
    ∀ key l₁ env job l₂, key.canonical = k → Lifetime key l₁ env job l₂ fp →
      Attributed key (.packet env job :: l₂) (fp.tracker.conn k) := by
  refine ⟨exists_lifetime h hmem, ?_⟩
  rintro key l₁ env job l₂ rfl hlife
  exact hlife.attributed

def toLower : PacketJob :=
  { hasFlowKey := true, flowKey := { srcPort := 2, dstPort := 1 }, data := [7, 7] }

def toHigher : PacketJob :=
  { hasFlowKey := true, flowKey := { srcPort := 1, dstPort := 2 }, data := [9] }

def answered : List Input := [.packet {} toLower, .packet {} toHigher]

/-- The answer to a packet whose direction is not the canonical one goes out. -/
theorem direction_attribution_answered : ∃ fp, Run AnyStep {} answered fp ∧
    Attributed toLower.flowKey answered (fp.tracker.conn toHigher.flowKey) := by
  obtain ⟨fp₁, h₁, hmem₁⟩ : ∃ fp₁, Step {} {} (.packet {} toLower) fp₁ ∧
      toHigher.flowKey ∈ fp₁.tracker.connections := ⟨_, rfl, by decide⟩
  obtain ⟨fp₂, h₂, hmem₂⟩ : ∃ fp₂, Step {} fp₁ (.packet {} toHigher) fp₂ ∧
      toHigher.flowKey ∈ fp₂.tracker.connections := by
    cases h₁
    exact ⟨_, rfl, by decide⟩
  have hrun : Run AnyStep {} answered fp₂ := .cons ⟨{}, h₁⟩ (.cons ⟨{}, h₂⟩ (.nil _))
  refine ⟨fp₂, hrun, (direction_attribution hrun hmem₂).2 _ [] _ _ _ rfl ⟨rfl, {}, .nil _, ?_, ?_⟩⟩
  · exact AList.notMem_empty _
  · exact .cons ⟨⟨{}, h₁⟩, hmem₁⟩ (.cons ⟨⟨{}, h₂⟩, hmem₂⟩ (.nil _))

end FastPathProcessor

end DpiEngine
