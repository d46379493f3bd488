import DpiEngine.Pipeline.Sequential
import DpiEngine.Report.Summaries

/-! # The report of a run

The report that is made of the tables of all processors shows the flows, the
applications and the domains of one processor for all packets, and accounts for
every accepted packet.
-/

namespace DpiEngine.DPIEngine

open Network FastPathProcessor ReportSource

variable {cfg : Config} {H : StdHash} {rules : RuleManager} {isOpen : Bool}
  {frames : List RawPacketJob} {ls : List (Label (Thread cfg) PacketEnv)} {s : State cfg}
  {order : Fin cfg.numLoadBalancers → Fin cfg.fpsPerLb → BucketOrder}

def allEntries (s : State cfg)
    (order : Fin cfg.numLoadBalancers → Fin cfg.fpsPerLb → BucketOrder) :
    List (Sigma fun _ : FlowKey => Connection) :=
  (List.finRange cfg.numLoadBalancers).flatMap fun i => (List.finRange cfg.fpsPerLb).flatMap
    fun j => (order i j).arrange (fastPath s i j).tracker.connections.entries

/-- `all_conns` of the report. -/
def allConns (s : State cfg)
    (order : Fin cfg.numLoadBalancers → Fin cfg.fpsPerLb → BucketOrder) : List Connection :=
  (List.finRange cfg.numLoadBalancers).flatMap fun i => (List.finRange cfg.fpsPerLb).flatMap
    fun j => (fastPath s i j).tracker.getAllConnections (order i j)

theorem allConns_eq (s : State cfg)
    (order : Fin cfg.numLoadBalancers → Fin cfg.fpsPerLb → BucketOrder) :
    allConns s order = (allEntries s order).map Sigma.snd := by
  simp only [allConns, allEntries, List.map_flatMap]
  rfl

theorem mem_allEntries {k : FlowKey} {conn : Connection} : ⟨k, conn⟩ ∈ allEntries s order ↔
    ∃ i j, (fastPath s i j).tracker.connections.lookup k = some conn := by
  simp only [allEntries, List.mem_flatMap, List.mem_finRange, true_and]
  refine exists_congr fun i => exists_congr fun j => ?_
  rw [((order i j).perm _).mem_iff]
  exact AList.mem_lookup_iff.symm

section Exited

variable (h : Run (OrderlyStep (network cfg H rules isOpen))
  (start (network cfg H rules isOpen) frames) ls s)
  (hexit : ∀ i j, s.position (.fp i j) = .exited)
  (hcomplete : ∀ i j, (fastPath s i j).tracker.Complete)
include h hexit hcomplete

theorem nodup_allEntries (order : Fin cfg.numLoadBalancers → Fin cfg.fpsPerLb → BucketOrder) :
    ((allEntries s order).map Sigma.fst).Nodup := by
  obtain ⟨fp, -, -, hfp⟩ := exists_sequential h hexit hcomplete
  choose toLb toFp hplace using fun k => (hfp k).imp fun i => Exists.imp fun j hj => hj.2.2
  have hkey (i : Fin cfg.numLoadBalancers) (j : Fin cfg.fpsPerLb) (k : FlowKey)
      (hk : k ∈ ((order i j).arrange (fastPath s i j).tracker.connections.entries).map Sigma.fst) :
      toLb k = i ∧ toFp k = j := by
    have hmem : k ∈ (fastPath s i j).tracker.connections :=
      AList.mem_keys.mpr ((((order i j).perm _).map _).mem_iff.mp hk)
    obtain ⟨conn, hconn⟩ := Option.isSome_iff_exists.mp (AList.lookup_isSome.mpr hmem)
    have hlookup := hplace k i j
    rw [hconn] at hlookup
    split_ifs at hlookup with hij
    · exact ⟨hij.1.symm, hij.2.symm⟩
    · cases hlookup
  simp only [allEntries, List.map_flatMap]
  refine List.nodup_flatMap_of_place toLb (List.nodup_finRange _) (fun i _ => ?_) ?_
  · refine List.nodup_flatMap_of_place toFp (List.nodup_finRange _) (fun j _ => ?_) ?_
    · exact (((order i j).perm _).map _).nodup_iff.mpr
        (fastPath s i j).tracker.connections.nodupKeys
    · exact fun j _ k hk => (hkey i j k hk).2
  · intro i _ k hk
    obtain ⟨j, -, hk⟩ := List.mem_flatMap.mp hk
    exact (hkey i j k hk).1

/-- The flows of all processors are those of one processor. -/
theorem allConns_perm : ∃ fp, sequential rules frames.length (acceptedJobs frames) = .ok fp ∧
    Follows rules (acceptedJobs frames) fp ∧ ∀ order order',
      ((allConns s order).map Connection.untimed).Perm
        ((fp.tracker.getAllConnections order').map Connection.untimed) := by
  obtain ⟨fp, hsequential, hfollows, hfp⟩ := exists_sequential h hexit hcomplete
  refine ⟨fp, hsequential, hfollows, fun order order' => ?_⟩
  have hperm := List.perm_of_shown (nodup_allEntries h hexit hcomplete order)
    ((((order'.perm _).map _).nodup_iff).mpr fp.tracker.connections.nodupKeys)
    (f := Connection.untimed) (g := Connection.untimed) fun k d => ?_
  · have hsnd := hperm.map Prod.snd
    rw [List.map_map, List.map_map] at hsnd
    rw [allConns_eq, ConnectionTracker.getAllConnections, List.map_map, List.map_map]
    exact hsnd
  · obtain ⟨i, j, -, -, hentry⟩ := hfp k
    have hsome (i' : Fin cfg.numLoadBalancers) (j' : Fin cfg.fpsPerLb) :
        ((fastPath s i' j').tracker.connections.lookup k).map Connection.untimed = some d ↔
          (i' = i ∧ j' = j) ∧
            (fp.tracker.connections.lookup k).map Connection.untimed = some d := by
      rw [hentry]
      split_ifs with hij <;> simp [hij]
    have hsequential : (∃ c, ⟨k, c⟩ ∈ order'.arrange fp.tracker.connections.entries ∧
        c.untimed = d) ↔ (fp.tracker.connections.lookup k).map Connection.untimed = some d := by
      rw [← AList.exists_entry_iff]
      exact exists_congr fun c => and_congr_left' (order'.perm _).mem_iff
    rw [hsequential]
    constructor
    · rintro ⟨b, hb, hd⟩
      obtain ⟨i', j', hlookup⟩ := mem_allEntries.mp hb
      exact ((hsome i' j').mp (Option.map_eq_some_iff.mpr ⟨b, hlookup, hd⟩)).2
    · intro hd
      obtain ⟨b, hlookup, hb⟩ := Option.map_eq_some_iff.mp ((hsome i j).mpr ⟨⟨rfl, rfl⟩, hd⟩)
      exact ⟨b, mem_allEntries.mpr ⟨i, j, hlookup⟩, hb⟩

/--
Whatever the interleaving, the report shows the flows, applications and domains that it shows for
one processor, up to their order; beside a domain the application of any of its flows may stand.
-/
theorem report_sequential :
    ∃ fp, sequential rules frames.length (acceptedJobs frames) = .ok fp ∧
      ∀ (r r' : ReportSource) (order') (order : Fin cfg.numLoadBalancers → Fin cfg.fpsPerLb → _),
        r.conns = allConns s order → r'.conns = fp.tracker.getAllConnections order' →
        (r.conns.map flowValue).Perm (r'.conns.map flowValue) ∧
        (r.apps.map appValue).Perm (r'.apps.map appValue) ∧
        (r.domains.map fun e => (e.1, e.2.shown)).Perm
          (r'.domains.map fun e => (e.1, e.2.shown)) ∧
        ∀ stats, protocolPackets stats r.conns = protocolPackets stats r'.conns := by
  obtain ⟨fp, hsequential, -, hperm⟩ := allConns_perm h hexit hcomplete
  refine ⟨fp, hsequential, fun r r' order' order hr hr' => ?_⟩
  have hsame : r.SameFlows r' := by
    rw [SameFlows, hr, hr']
    exact hperm order order'
  exact ⟨flows_perm hsame, apps_perm hsame, domains_perm hsame, protocolPackets_perm hsame⟩

theorem isBlocked_iff {conn : Connection} (hconn : conn ∈ allConns s order) :
    conn.isBlocked = true ↔ ∃ job, job.flow = conn.flowKey ∧ (job, .drop) ∈ allActions s := by
  rw [allConns_eq] at hconn
  obtain ⟨⟨k, conn⟩, hentry, rfl⟩ := List.mem_map.mp hconn
  obtain ⟨i, j, hlookup⟩ := mem_allEntries.mp hentry
  have htracks := run_tracks (run_of_orderly h) i j
  obtain ⟨haccounts, -⟩ := (htracks.follows (hcomplete i j)).accounts hlookup
  have hkey : conn.flowKey = k := by
    have hmem : k ∈ (fastPath s i j).tracker.connections := AList.lookup_isSome.mp (hlookup ▸ rfl)
    have hconn := htracks.keyed.flowKey k hmem
    rwa [ConnectionTracker.conn, hlookup] at hconn
  -- the packets of the flow have all been at this processor
  have hactions (x : PacketJob × PacketAction) (hx : x.1.flow = k) :
      x ∈ allActions s ↔ x ∈ (fastPath s i j).verdicts k := by
    obtain ⟨fp, -, -, hfp⟩ := exists_sequential h hexit hcomplete
    obtain ⟨i', j', -, hverdicts, hplace⟩ := hfp k
    have hplace := hplace i j
    rw [hlookup] at hplace
    simp only [allActions, List.mem_flatMap, List.mem_finRange, true_and]
    have hmem (a : Fin cfg.numLoadBalancers) (b : Fin cfg.fpsPerLb) :
        x ∈ (fastPath s a b).actions ↔ x ∈ (fastPath s a b).verdicts k := by
      rw [verdicts, List.mem_filter, decide_eq_true hx, and_iff_left rfl]
    split_ifs at hplace with hij
    · obtain ⟨rfl, rfl⟩ := hij
      constructor
      · rintro ⟨a, b, hab⟩
        rw [hmem, hverdicts] at hab
        split_ifs at hab with heq
        · obtain ⟨rfl, rfl⟩ := heq
          rwa [hverdicts, if_pos ⟨rfl, rfl⟩]
        · cases hab
      · exact fun hx => ⟨i, j, (hmem i j).mpr hx⟩
    · cases hplace
  have hblocked : conn.isBlocked = true ↔ conn.action = .drop := by
    rw [Connection.isBlocked, Bool.or_eq_true, decide_eq_true_iff, decide_eq_true_iff]
    exact or_iff_left_of_imp haccounts.blocked
  dsimp only
  rw [hblocked, haccounts.dropped, hkey]
  constructor
  · rintro ⟨⟨job, action⟩, hx, rfl⟩
    have hflow : job.flow = k := of_decide_eq_true (List.mem_filter.mp hx).2
    exact ⟨job, hflow, (hactions _ hflow).mpr hx⟩
  · rintro ⟨job, hflow, hx⟩
    exact ⟨_, (hactions _ hflow).mp hx, rfl⟩

/--
The applications of the report account for all accepted packets, their bytes and their flows, and
an application is blocked if a packet of one of its flows has been dropped.
-/
theorem report_accounts (r : ReportSource) (hr : r.conns = allConns s order) :
    (r.apps.map fun e => e.2.flows).sum =
        ((acceptedJobs frames).map PacketJob.flow).dedup.length ∧
      (r.apps.map fun e => e.2.packets).sum = (acceptedJobs frames).length ∧
      (r.apps.map fun e => e.2.bytes).sum = ((acceptedJobs frames).map (·.data.length)).sum ∧
      ∀ name entry, ⟨name, entry⟩ ∈ r.apps → (entry.blocked = true ↔
        ∃ conn ∈ r.conns, conn.appKey = some name ∧
          ∃ job, job.flow = conn.flowKey ∧ (job, .drop) ∈ allActions s) := by
  obtain ⟨fp, -, hfollows, hperm⟩ := allConns_perm h hexit hcomplete
  have hsum (v : Connection → ℕ) (hv : ∀ conn, v conn.untimed = v conn) :
      (r.conns.map v).sum = fp.tracker.connections.weight v := by
    have huntimed (l : List Connection) : l.map v = (l.map Connection.untimed).map v := by
      rw [List.map_map]
      exact List.map_congr_left fun conn _ => (hv conn).symm
    rw [hr, huntimed, ((hperm order .asStored).map v).sum_eq, ← huntimed,
      ConnectionTracker.getAllConnections, List.map_map]
    rfl
  refine ⟨?_, ?_, ?_, fun name entry hentry => ?_⟩
  · rw [apps_sum (v := fun _ => 1) rfl (fun _ _ => rfl), hsum _ fun _ => rfl,
      ← hfollows.length_entries]
    simp [AList.weight]
  · rw [apps_sum (v := Connection.packets) rfl (fun _ _ => rfl), hsum _ fun _ => rfl,
      hfollows.weight_eq (v := fun _ => 1) fun conn actions haccounts => ?_]
    · simp
    · simp [haccounts.packets]
  · rw [apps_sum (v := Connection.bytes) rfl (fun _ _ => rfl), hsum _ fun _ => rfl]
    exact hfollows.weight_eq fun conn actions haccounts => haccounts.bytes
  · rw [app_blocked_iff hentry]
    refine exists_congr fun conn => and_congr_right fun hconn => and_congr_right fun _ => ?_
    exact isBlocked_iff h hexit hcomplete (hr ▸ hconn)

end Exited

theorem report_sequential_two : ∃ (s : State twoParsers) (fp : FastPathProcessor),
    (allActions s).length = 2 ∧ sequential {} 2 (acceptedJobs oneFlow) = .ok fp ∧
      let r := ReportSource.ofConns (allConns s fun _ _ => .asStored)
      let r' := ReportSource.ofConns (fp.tracker.getAllConnections .asStored)
      (r.conns.map flowValue).Perm (r'.conns.map flowValue) ∧
        (r.apps.map appValue).Perm (r'.apps.map appValue) := by
  obtain ⟨ls, s, hrun, hexit, hcomplete, hlength⟩ := exists_exited_two
  obtain ⟨fp, hfp, hreport⟩ := report_sequential hrun hexit hcomplete
  obtain ⟨hflows, happs, -⟩ := hreport (.ofConns (allConns s fun _ _ => .asStored))
    (.ofConns (fp.tracker.getAllConnections .asStored)) .asStored (fun _ _ => .asStored) rfl rfl
  exact ⟨s, fp, hlength, hfp, hflows, happs⟩

/-- Two packets of one flow. -/
theorem report_accounts_two : ∃ s : State twoParsers, (allActions s).length = 2 ∧
    let r := ReportSource.ofConns (allConns s fun _ _ => .asStored)
    (r.apps.map fun e => e.2.flows).sum = 1 ∧ (r.apps.map fun e => e.2.packets).sum = 2 := by
  obtain ⟨ls, s, hrun, hexit, hcomplete, hlength⟩ := exists_exited_two
  refine ⟨s, hlength, ?_⟩
  have hconns : (ReportSource.ofConns (allConns s fun _ _ => .asStored)).conns =
      allConns s fun _ _ => .asStored := rfl
  obtain ⟨hflows, hpackets, -⟩ := report_accounts hrun hexit hcomplete _ hconns
  have hone : ((acceptedJobs oneFlow).map PacketJob.flow).dedup.length = 1 := by decide +kernel
  have htwo : (acceptedJobs oneFlow).length = 2 := by decide +kernel
  exact ⟨hflows.trans hone, hpackets.trans htwo⟩

end DpiEngine.DPIEngine
