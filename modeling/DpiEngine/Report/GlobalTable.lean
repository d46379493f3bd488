import DpiEngine.Library.Grouping
import DpiEngine.Library.Search
import DpiEngine.Report.Counts
import DpiEngine.Report.Summaries
import DpiEngine.Tracker.Stats

/-! # The table of all trackers

The global statistics add up those of the registered trackers. The domains are
sorted by their numbers of connections, in an order that may depend on the hash
table where the numbers are equal, and only the first twenty are kept.
-/

namespace DpiEngine

open Grouping

/-- What `std::sort` makes of the domains with their counts: the largest counts first. -/
structure CountSort where
  arrange : List (Name × ℕ) → List (Name × ℕ)
  perm : ∀ l, (arrange l).Perm l
  sorted : ∀ l, (arrange l).Pairwise fun x y => y.2 ≤ x.2

/-- A stable sort is one. -/
def CountSort.stable : CountSort where
  arrange l := l.mergeSort fun x y => y.2 ≤ x.2
  perm l := List.mergeSort_perm l _
  sorted l := by
    have htrans (x y z : Name × ℕ) (hxy : decide (y.2 ≤ x.2) = true)
        (hyz : decide (z.2 ≤ y.2) = true) : decide (z.2 ≤ x.2) = true :=
      decide_eq_true ((of_decide_eq_true hyz).trans (of_decide_eq_true hxy))
    have htotal (x y : Name × ℕ) : (decide (y.2 ≤ x.2) || decide (x.2 ≤ y.2)) = true := by
      simp [Nat.le_total]
    exact (List.pairwise_mergeSort htrans htotal l).imp of_decide_eq_true

structure GlobalStats where
  totalActiveConnections : ℕ := 0
  totalConnectionsSeen : ℕ := 0
  appDistribution : AList fun _ : AppType => ℕ := ∅
  topDomains : List (Name × ℕ) := []

/-- The trackers of the processors by their numbers; none is registered at first. -/
structure GlobalConnectionTable where
  trackers : List (Option ConnectionTracker)

namespace GlobalConnectionTable

def ofSize (numFps : ℕ) : GlobalConnectionTable := ⟨List.replicate numFps none⟩

def registerTracker (g : GlobalConnectionTable) (fpId : ℕ) (tracker : ConnectionTracker) :
    GlobalConnectionTable :=
  if fpId < g.trackers.length then ⟨g.trackers.set fpId (some tracker)⟩ else g

def ofTrackers (trackers : List ConnectionTracker) : GlobalConnectionTable :=
  trackers.zipIdx.foldl (fun g x => g.registerTracker x.2 x.1) (ofSize trackers.length)

def registered (g : GlobalConnectionTable) : List ConnectionTracker := g.trackers.filterMap id

def visited (g : GlobalConnectionTable) (order : BucketOrder) : List Connection :=
  g.registered.flatMap (·.getAllConnections order)

def domainCounts (conns : List Connection) : AList fun _ : Name => ℕ :=
  table Connection.domainKey 0 (fun n _ => n + 1) conns

/-- The pairs of the hash table of domains. -/
def domainVec (domainOrder : SummaryOrder ℕ) (conns : List Connection) : List (Name × ℕ) :=
  (domainOrder.arrange (domainCounts conns).entries).map fun e => (e.1, e.2)

def getGlobalStats (g : GlobalConnectionTable) (order : BucketOrder) (domainOrder : SummaryOrder ℕ)
    (sort : CountSort) : GlobalStats :=
  let domainVec := sort.arrange (domainVec domainOrder (g.visited order))
  { totalActiveConnections := (g.registered.map fun t => t.getStats.activeConnections).sum
    totalConnectionsSeen := (g.registered.map fun t => t.getStats.totalConnectionsSeen).sum
    appDistribution := table (fun conn => some conn.appType) 0 (fun n _ => n + 1) (g.visited order)
    topDomains := domainVec.take (min domainVec.length 20) }

variable {g : GlobalConnectionTable} {order : BucketOrder} {domainOrder : SummaryOrder ℕ}
  {sort : CountSort} {conns : List Connection}

theorem registered_ofTrackers (trackers : List ConnectionTracker) :
    (ofTrackers trackers).registered = trackers := by
  have hloop (front back : List ConnectionTracker) :
      (back.zipIdx front.length).foldl (fun g x => g.registerTracker x.2 x.1)
        ⟨front.map some ++ List.replicate back.length none⟩ =
          (⟨(front ++ back).map some⟩ : GlobalConnectionTable) := by
    induction back generalizing front with
    | nil => simp
    | cons t back ih =>
      have hstep : registerTracker ⟨front.map some ++ List.replicate (t :: back).length none⟩
          front.length t = ⟨(front ++ [t]).map some ++ List.replicate back.length none⟩ := by
        rw [registerTracker, if_pos (by simp)]
        simp [List.replicate_succ]
      have hrest := ih (front ++ [t])
      rw [List.length_append, List.length_singleton, List.append_assoc,
        List.singleton_append] at hrest
      rw [List.zipIdx_cons, List.foldl_cons, hstep, hrest]
  have hall := hloop [] trackers
  rw [List.nil_append, List.map_nil, List.nil_append, List.length_nil] at hall
  rw [ofTrackers, ofSize, hall, registered, List.filterMap_map]
  exact List.filterMap_some

def connsOf (domain : Name) (conns : List Connection) : ℕ :=
  conns.countP fun conn => conn.domainKey = some domain

theorem foldl_count {α : Type} (l : List α) (n : ℕ) :
    l.foldl (fun n _ => n + 1) n = n + l.length := by
  induction l generalizing n with
  | nil => rfl
  | cons a l ih => rw [List.foldl_cons, ih, List.length_cons, Nat.add_assoc, Nat.add_comm 1]

theorem mem_domainVec {domain : Name} {n : ℕ} :
    (domain, n) ∈ domainVec domainOrder conns ↔ n = connsOf domain conns ∧ 0 < n := by
  have hentry : (domain, n) ∈ domainVec domainOrder conns ↔
      (domainCounts conns).lookup domain = some n := by
    rw [← Option.mem_def, AList.mem_lookup_iff, ← (domainOrder.perm _).mem_iff, domainVec,
      List.mem_map]
    constructor
    · rintro ⟨⟨d, m⟩, he, heq⟩
      cases heq
      exact he
    · exact fun he => ⟨_, he, rfl⟩
  have hcount : (group Connection.domainKey domain conns).length = connsOf domain conns :=
    List.countP_eq_length_filter.symm
  rw [hentry, domainCounts, lookup_table, foldl_count, Nat.zero_add, hcount]
  split_ifs with hnil
  · rw [hnil, List.length_nil] at hcount
    refine iff_of_false (by simp) ?_
    omega
  · have hpos := List.length_pos_iff.mpr hnil
    simp only [Option.some.injEq]
    omega

theorem nodup_domainVec : ((domainVec domainOrder conns).map Prod.fst).Nodup := by
  rw [domainVec, List.map_map]
  exact (((domainOrder.perm _).map _).nodup_iff).mpr (domainCounts conns).nodupKeys

theorem length_visited (g : GlobalConnectionTable) (order : BucketOrder) :
    (g.visited order).length = (g.registered.map fun t => t.getStats.activeConnections).sum := by
  rw [visited, List.length_flatMap]
  congr 1
  refine List.map_congr_left fun t _ => ?_
  rw [ConnectionTracker.getAllConnections, List.length_map, (order.perm _).length_eq]
  rfl

theorem appDistribution_sum (g : GlobalConnectionTable) (order : BucketOrder)
    (domainOrder : SummaryOrder ℕ) (sort : CountSort) :
    (g.getGlobalStats order domainOrder sort).appDistribution.weight id =
      (g.getGlobalStats order domainOrder sort).totalActiveConnections := by
  have hweight := weight_table (fun conn : Connection => some conn.appType) 0 (fun n _ => n + 1)
    (w := id) (v := fun _ => 1) rfl (fun _ _ => rfl) (g.visited order)
  have hall : (g.visited order).filter (fun conn => (some conn.appType).isSome) = g.visited order :=
    List.filter_eq_self.mpr fun _ _ => rfl
  rw [hall, List.map_const', List.sum_replicate_nat, Nat.mul_one] at hweight
  exact hweight.trans (length_visited g order)

theorem getD_appDistribution (g : GlobalConnectionTable) (order : BucketOrder)
    (domainOrder : SummaryOrder ℕ) (sort : CountSort) (app : AppType) :
    ((g.getGlobalStats order domainOrder sort).appDistribution.lookup app).getD 0 =
      (g.visited order).countP fun conn => conn.appType = app := by
  have hcount : (group (fun conn : Connection => some conn.appType) app (g.visited order)).length =
      (g.visited order).countP fun conn => conn.appType = app := by
    simp only [group, Option.some_inj, List.countP_eq_length_filter]
  change ((table _ 0 _ (g.visited order)).lookup app).getD 0 = _
  rw [lookup_table, foldl_count, Nat.zero_add, hcount]
  split_ifs with hnil
  · rw [← hcount, hnil]
    rfl
  · rfl

theorem topDomains_eq (g : GlobalConnectionTable) (order : BucketOrder)
    (domainOrder : SummaryOrder ℕ) (sort : CountSort) :
    (g.getGlobalStats order domainOrder sort).topDomains =
      (sort.arrange (domainVec domainOrder (g.visited order))).take 20 := by
  change List.take (min (sort.arrange _).length 20) _ = _
  rw [Nat.min_comm, ← List.take_take, List.take_length]

/--
For the trackers of all processors each application has its connections, and together they have all
active ones; the connections seen are those of all trackers. The top domains, at most twenty, have
the numbers of their connections in descending order, and a domain that is not among them has no
more connections than each of the twenty that are.
-/
theorem getGlobalStats_spec (trackers : List ConnectionTracker) (order : BucketOrder)
    (domainOrder : SummaryOrder ℕ) (sort : CountSort) :
    let stats := (ofTrackers trackers).getGlobalStats order domainOrder sort
    let conns := trackers.flatMap (·.getAllConnections order)
    stats.appDistribution.weight id = stats.totalActiveConnections ∧
      stats.totalActiveConnections = conns.length ∧
      stats.totalConnectionsSeen = (trackers.map (·.totalSeen)).sum ∧
      (∀ app, (stats.appDistribution.lookup app).getD 0 =
        conns.countP fun conn => conn.appType = app) ∧
      stats.topDomains.length ≤ 20 ∧
      stats.topDomains.Pairwise (fun x y => y.2 ≤ x.2) ∧ (stats.topDomains.map Prod.fst).Nodup ∧
      (∀ x ∈ stats.topDomains, x.2 = connsOf x.1 conns ∧ 0 < x.2) ∧
      ∀ domain, domain ∉ stats.topDomains.map Prod.fst → 0 < connsOf domain conns →
        stats.topDomains.length = 20 ∧ ∀ x ∈ stats.topDomains, connsOf domain conns ≤ x.2 := by
  intro stats conns
  let sortedVec := sort.arrange (domainVec domainOrder conns)
  have hperm : sortedVec.Perm (domainVec domainOrder conns) := sort.perm _
  have hvisited : (ofTrackers trackers).visited order = conns := by
    rw [visited, registered_ofTrackers]
  have htop : stats.topDomains = sortedVec.take 20 := by
    rw [topDomains_eq, hvisited]
  have hsub : stats.topDomains.Sublist sortedVec := htop ▸ List.take_sublist 20 sortedVec
  refine ⟨appDistribution_sum _ _ _ _, ?_, ?_, fun app => ?_, ?_, (sort.sorted _).sublist hsub, ?_,
    fun x hx => ?_, fun domain hout hpos => ?_⟩
  · rw [← hvisited]
    exact (length_visited _ _).symm
  · change ((ofTrackers trackers).registered.map _).sum = _
    rw [registered_ofTrackers]
    rfl
  · rw [← hvisited]
    exact getD_appDistribution _ _ _ _ app
  · rw [htop]
    exact List.length_take_le 20 sortedVec
  · exact ((hperm.map _).nodup_iff.mpr nodup_domainVec).sublist (hsub.map _)
  · exact mem_domainVec.mp (hperm.mem_iff.mp (hsub.subset hx))
  · have hmem : (domain, connsOf domain conns) ∈ sortedVec :=
      hperm.mem_iff.mpr (mem_domainVec.mpr ⟨rfl, hpos⟩)
    rw [htop] at hout ⊢
    exact Search.behind_of_notMem_take (sort.sorted _) hmem fun hin =>
      hout (List.mem_map.mpr ⟨_, hin, rfl⟩)

def visit (port : UInt16) (app : AppType) (domain : Name) : ConnectionTracker where
  maxConnections := 1
  connections := AList.singleton { srcPort := port } { appType := app, sni := domain }

/-- Three trackers, two of them with a connection to one domain. -/
theorem getGlobalStats_spec_three :
    let trackers :=
      [visit 1 .youtube [97, 46, 98], visit 2 .https [99], visit 3 .youtube [97, 46, 98]]
    let stats := (ofTrackers trackers).getGlobalStats .asStored (.asStored ℕ) .stable
    let conns := trackers.flatMap (·.getAllConnections .asStored)
    connsOf [97, 46, 98] conns = 2 ∧ connsOf [99] conns = 1 ∧
      stats.appDistribution.weight id = stats.totalActiveConnections ∧
      stats.totalActiveConnections = conns.length ∧
      stats.totalConnectionsSeen = (trackers.map (·.totalSeen)).sum ∧
      (∀ app, (stats.appDistribution.lookup app).getD 0 =
        conns.countP fun conn => conn.appType = app) ∧
      stats.topDomains.length ≤ 20 ∧
      stats.topDomains.Pairwise (fun x y => y.2 ≤ x.2) ∧ (stats.topDomains.map Prod.fst).Nodup ∧
      (∀ x ∈ stats.topDomains, x.2 = connsOf x.1 conns ∧ 0 < x.2) ∧
      ∀ domain, domain ∉ stats.topDomains.map Prod.fst → 0 < connsOf domain conns →
        stats.topDomains.length = 20 ∧ ∀ x ∈ stats.topDomains, connsOf domain conns ≤ x.2 :=
  ⟨by decide, by decide, getGlobalStats_spec _ .asStored (.asStored ℕ) .stable⟩

end GlobalConnectionTable

end DpiEngine
