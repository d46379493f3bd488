import DpiEngine.FastPath.Conservation
import DpiEngine.FastPath.FlowHistory
import DpiEngine.Library.Grouping

/-! # What an entry tells about its flow

In the history of a flow its entry counts the packets and the bytes, and its
action is to drop exactly if a packet of the flow has been dropped, also when
the connection has been reopened since.
-/

namespace DpiEngine

open FastPathProcessor

variable {rules : RuleManager} {env : PacketEnv} {job : PacketJob} {jobs : List PacketJob}
  {r : FlowState} {c d e : Connection} {action : PacketAction} {client : Bool} {k : FlowKey}
  {actions : List (PacketJob × PacketAction)}

def Connection.bytes (conn : Connection) : ℕ := conn.bytesIn + conn.bytesOut

namespace Connection

theorem packets_congr (h : d.tally = c.tally) : d.packets = c.packets ∧ d.bytes = c.bytes := by
  simp only [tally, Prod.mk.injEq] at h
  obtain ⟨-, hpin, hpout, hbin, hbout⟩ := h
  rw [packets, packets, bytes, bytes, hpin, hpout, hbin, hbout]
  exact ⟨rfl, rfl⟩

theorem counts_follow (env : PacketEnv) (job : PacketJob) (client : Bool) :
    (c.follow env job client).packets = c.packets + 1 ∧
      (c.follow env job client).bytes = c.bytes + job.data.length := by
  have h := tally_follow c env job client
  unfold packets bytes
  split_ifs at h
  · simp only [tally, Prod.mk.injEq] at h
    omega
  · simp only [tally, Prod.mk.injEq] at h
    omega

theorem state_followFlags (flags : UInt8) (h : (c.followFlags flags).state = .blocked) :
    c.state = .blocked := by
  unfold followFlags at h
  split_ifs at h <;> exact h

theorem state_of_follow (h : (c.follow env job client).state = .blocked) : c.state = .blocked := by
  unfold follow at h
  split_ifs at h
  · rw [← state_update c env.seenAt job.data.length client]
    exact state_followFlags _ h
  · rwa [state_update] at h

/-- The entry tells what has happened to the packets of the flow. -/
structure Accounts (c : Connection) (actions : List (PacketJob × PacketAction)) : Prop where
  packets : c.packets = actions.length
  bytes : c.bytes = (actions.map fun x => x.1.data.length).sum
  dropped : c.action = .drop ↔ ∃ x ∈ actions, x.2 = .drop
  blocked : c.state = .blocked → c.action = .drop

structure Counted (c : Connection) (job : PacketJob) (actions : List (PacketJob × PacketAction)) :
    Prop where
  packets : c.packets = actions.length + 1
  bytes : c.bytes = (actions.map fun x => x.1.data.length).sum + job.data.length
  dropped : c.action = .drop ↔ ∃ x ∈ actions, x.2 = .drop
  blocked : c.state = .blocked → c.action = .drop

theorem Accounts.follow (h : Accounts c actions) (env : PacketEnv) (job : PacketJob)
    (client : Bool) : Counted (c.follow env job client) job actions where
  packets := (counts_follow env job client).1.trans (congrArg (· + 1) h.packets)
  bytes := (counts_follow env job client).2.trans (congrArg (· + job.data.length) h.bytes)
  dropped := by
    rw [action_follow]
    exact h.dropped
  blocked hstate := by
    rw [action_follow]
    exact h.blocked (state_of_follow hstate)

theorem Counted.drop (h : Counted c job actions) (htally : d.tally = c.tally)
    (haction : d.action = .drop) : Accounts d (actions ++ [(job, .drop)]) where
  packets := by simp [(packets_congr htally).1, h.packets]
  bytes := by simp [(packets_congr htally).2, h.bytes]
  dropped := iff_of_true haction ⟨(job, .drop), by simp, rfl⟩
  blocked _ := haction

theorem Counted.verdict (h : Counted c job actions)
    (hverdict : c.verdict rules job client = .ok (d, action)) :
    Accounts d (actions ++ [(job, action)]) := by
  rcases verdict_ok hverdict with ⟨hstate, rfl, rfl⟩ | ⟨-, -, rfl, rfl⟩ | ⟨hstate, -, e, he, hd⟩
  · exact h.drop rfl (h.blocked hstate)
  · exact h.drop rfl rfl
  · obtain ⟨htally, haction, hsettled⟩ := inspectOpen_ok he
    split_ifs at hd with hcontent
    · obtain ⟨rfl, rfl⟩ := hd
      exact h.drop htally rfl
    · obtain ⟨rfl, rfl⟩ := hd
      constructor
      · simp [(packets_congr htally).1, h.packets]
      · simp [(packets_congr htally).2, h.bytes]
      · rw [haction, h.dropped]
        simp
      · intro hblocked
        rcases hsettled with hclass | hsame
        · cases hclass.symm.trans hblocked
        · exact absurd (hsame.symm.trans hblocked) hstate

end Connection

open Connection

/-- The history has an entry as soon as it has a packet, and the entry tells what has happened. -/
structure FlowState.Accounted (r : FlowState) : Prop where
  entry : r.1 = none ↔ r.2 = []
  accounts : ∀ c ∈ r.1, Accounts c r.2

theorem accounts_openEntry (h : r.Accounted) {key : FlowKey}
    (hopen : openEntry key env r.1 = .ok c) : Accounts c r.2 := by
  obtain ⟨entry, actions⟩ := r
  cases entry with
  | some c' =>
    cases hopen
    exact h.accounts _ rfl
  | none =>
    have hnil : actions = [] := h.entry.mp rfl
    obtain ⟨tuple, rfl⟩ := ConnectionTracker.newConnection_ok hopen
    rw [hnil]
    exact ⟨rfl, rfl, iff_of_false (by simp) (by simp), fun hstate => by cases hstate⟩

theorem flowStep_accounted (h : r.Accounted) {r' : FlowState}
    (hstep : flowStep rules r job = .ok r') : r'.Accounted := by
  obtain ⟨d, action, hreceive, rfl⟩ := flowStep_ok.mp hstep
  obtain ⟨⟨c, client⟩, hlookup, hverdict⟩ := Except.do_eq_ok_iff.mp hreceive
  obtain ⟨key, -, hlookup⟩ := Except.do_eq_ok_iff.mp hlookup
  obtain ⟨c₀, hopen, hlookup⟩ := Except.do_eq_ok_iff.mp hlookup
  cases hlookup
  refine ⟨by simp, fun c hc => ?_⟩
  cases hc
  exact ((accounts_openEntry h hopen).follow _ job _).verdict hverdict

theorem flowHistory_accounted (h : flowHistory rules jobs = .ok r) : r.Accounted := by
  induction jobs using List.reverseRecOn generalizing r with
  | nil =>
    cases h
    exact ⟨by simp, fun c hc => by cases hc⟩
  | append_singleton jobs job ih =>
    rw [flowHistory_concat, Except.do_eq_ok_iff] at h
    obtain ⟨s, hs, hstep⟩ := h
    exact flowStep_accounted (ih hs) hstep

namespace FastPathProcessor.Follows

variable {fp : FastPathProcessor} {conn : Connection}

theorem accounts (h : Follows rules jobs fp) (hconn : fp.tracker.connections.lookup k = some conn) :
    Accounts conn (fp.verdicts k) ∧ (fp.verdicts k).map Prod.fst = jobs.filter (·.flow = k) := by
  obtain ⟨r, hr, hlookup, hverdicts⟩ := h k
  rw [hconn] at hlookup
  obtain ⟨c, hc, huntimed⟩ := Option.map_eq_some_iff.mp hlookup.symm
  have haccounts : Accounts conn.untimed r.2 := by
    have hc := (flowHistory_accounted hr).accounts c hc
    rw [← huntimed]
    exact ⟨hc.packets, hc.bytes, hc.dropped, hc.blocked⟩
  rw [hverdicts]
  refine ⟨⟨haccounts.packets, haccounts.bytes, haccounts.dropped, haccounts.blocked⟩, ?_⟩
  exact map_flowHistory hr

theorem mem_iff (h : Follows rules jobs fp) :
    k ∈ fp.tracker.connections ↔ ∃ job ∈ jobs, job.flow = k := by
  obtain ⟨r, hr, hlookup, -⟩ := h k
  have hentry := (flowHistory_accounted hr).entry
  have hmap := map_flowHistory hr
  rw [← AList.lookup_isSome, ← Option.isSome_map (f := Connection.untimed), hlookup,
    Option.isSome_map, Option.isSome_iff_ne_none, Ne, hentry, ← List.map_eq_nil_iff (f := Prod.fst),
    hmap, List.filter_eq_nil_iff]
  simp

theorem weight_eq (h : Follows rules jobs fp) {w : Connection → ℕ} {v : PacketJob → ℕ}
    (hw : ∀ conn actions, Accounts conn actions → w conn = (actions.map fun x => v x.1).sum) :
    fp.tracker.connections.weight w = (jobs.map v).sum := by
  let key (job : PacketJob) : Option FlowKey := some job.flow
  let sums := Grouping.table key 0 (fun n job => n + v job) jobs
  have hall : jobs.filter (fun job => (key job).isSome) = jobs :=
    List.filter_eq_self.mpr fun _ _ => rfl
  have hsums : sums.weight id = (jobs.map v).sum := by
    have hweight := Grouping.weight_table key 0 (fun n job => n + v job) (w := id) (v := v) rfl
      (fun _ _ => rfl) jobs
    rwa [hall] at hweight
  have hfold (l : List PacketJob) (n : ℕ) :
      l.foldl (fun n job => n + v job) n = n + (l.map v).sum := by
    induction l generalizing n with
    | nil => rfl
    | cons job l ih => rw [List.foldl_cons, ih, List.map_cons, List.sum_cons, Nat.add_assoc]
  have hgroup (q : FlowKey) : Grouping.group key q jobs = jobs.filter (·.flow = q) :=
    List.filter_congr fun job _ => by simp [key]
  have hshown (q : FlowKey) :
      (fp.tracker.connections.lookup q).map w = (sums.lookup q).map id := by
    rw [Option.map_id, id, Grouping.lookup_table, hgroup, hfold, Nat.zero_add]
    cases hconn : fp.tracker.connections.lookup q with
    | none =>
      have hnone : jobs.filter (·.flow = q) = [] := by
        rw [List.filter_eq_nil_iff]
        intro job hjob hflow
        have hmem := h.mem_iff.mpr ⟨job, hjob, of_decide_eq_true hflow⟩
        exact absurd hmem (AList.lookup_eq_none.mp hconn)
      rw [if_pos hnone]
      rfl
    | some conn =>
      obtain ⟨haccounts, hjobs⟩ := h.accounts hconn
      have hmem : q ∈ fp.tracker.connections := AList.lookup_isSome.mp (hconn ▸ rfl)
      obtain ⟨job, hjob, hflow⟩ := h.mem_iff.mp hmem
      rw [if_neg (List.ne_nil_of_mem (List.mem_filter.mpr ⟨hjob, decide_eq_true hflow⟩)), ← hjobs,
        List.map_map]
      exact congrArg some (hw conn _ haccounts)
  rw [← hsums]
  exact AList.weight_eq_of_shown hshown

/-- There are as many entries as flows. -/
theorem length_entries (h : Follows rules jobs fp) :
    fp.tracker.connections.entries.length = (jobs.map PacketJob.flow).dedup.length := by
  have hperm : fp.tracker.connections.keys.Perm (jobs.map PacketJob.flow).dedup := by
    refine (List.perm_ext_iff_of_nodup fp.tracker.connections.keys_nodup
      (List.nodup_dedup _)).mpr fun q => ?_
    rw [← AList.mem_keys, h.mem_iff, List.mem_dedup, List.mem_map]
  rw [← hperm.length_eq, AList.keys, List.keys, List.length_map]

end FastPathProcessor.Follows

end DpiEngine
