import DpiEngine.FastPath.Isolation
import Mathlib.Data.Finset.Card
import Mathlib.Logic.Function.Basic

/-! # Connections are classified once

The tracker counts a classification when the state of the connection is not yet
classified. SYN with ACK after a SYN overwrites this state, and the connection is
classified again. In the runs without such packets every entry keeps its first
application, and the counter is the number of the entries that were classified.
-/

namespace DpiEngine.FastPathProcessor

open ConnectionTracker

variable {rules : RuleManager} {env : PacketEnv} {job : PacketJob} {fp fp' : FastPathProcessor}
  {t t' : ConnectionTracker} {k p : FlowKey} {client : Bool} {action : PacketAction} {x : Input}
  {app : AppType}

/-! ### The counters -/

structure Counts (p : FlowKey) (t t' : ConnectionTracker) : Prop where
  totalSeen : t'.totalSeen = t.totalSeen
  stays : (t.conn p).state = .classified → (t'.conn p).state = .classified
  classifiedCount : t'.classifiedCount = t.classifiedCount +
    if (t.conn p).state ≠ .classified ∧ (t'.conn p).state = .classified then 1 else 0

theorem Counts.refl (p : FlowKey) (t : ConnectionTracker) : Counts p t t where
  totalSeen := rfl
  stays := id
  classifiedCount := by simp

theorem Counts.trans {t'' : ConnectionTracker} (h : Counts p t t') (h' : Counts p t' t'') :
    Counts p t t'' := by
  constructor
  · exact h'.totalSeen.trans h.totalSeen
  · exact fun hclass => h'.stays (h.stays hclass)
  · rw [h'.classifiedCount, h.classifiedCount]
    by_cases hclass : (t.conn p).state = .classified
    · simp [hclass, h.stays hclass]
    · by_cases hclass' : (t'.conn p).state = .classified
      · simp [hclass, hclass', h'.stays hclass']
      · simp [hclass, hclass']

theorem Counts.of_write (h : InspectionWrite p t t') : Counts p t t' := by
  cases h with
  | classify app sni httpHost dnsQuery =>
    have hclass :
        ((t.classifyConnection p app sni httpHost dnsQuery).conn p).state = .classified := by
      rw [conn_classifyConnection]
      rfl
    refine ⟨rfl, fun _ => hclass, ?_⟩
    rw [hclass, classifyConnection]
    by_cases h : (t.conn p).state = .classified
    · simp [h]
    · simp [h]
  | reassemble f =>
    have hsame :
        ((t.modify p fun conn => { conn with tcpReassemblerClient := f conn }).conn p).state =
          (t.conn p).state := by rw [conn_modify]
    refine ⟨rfl, fun h => hsame.trans h, ?_⟩
    rw [hsame, if_neg fun h => h.1 h.2]
    rfl

theorem Counts.of_writes (h : InspectionWrites p t t') : Counts p t t' := by
  induction h with
  | refl => exact .refl p t
  | tail _ hwrite ih => exact ih.trans (.of_write hwrite)

theorem lookupConnection_counts (hv4 : job.IsIPv4)
    (h : lookupConnection t env job = .ok (t', p, client)) :
    t'.classifiedCount = t.classifiedCount ∧
      t'.totalSeen = t.totalSeen + if job.flow ∈ t.connections then 0 else 1 := by
  simp only [lookupConnection, Except.do_eq_ok_iff] at h
  obtain ⟨key, hkey, ⟨t₁, p⟩, ht₁, h⟩ := h
  simp only [pure, Except.pure, Except.ok.injEq, Prod.mk.injEq] at h
  obtain ⟨rfl, -, -⟩ := h
  obtain ⟨hjob, hflow⟩ := lookupKey_of_isIPv4 hv4
  cases hkey.symm.trans hjob
  obtain ⟨hcount, hseen⟩ := getOrCreateConnection_counts ht₁
  rw [← hflow, ← hcount, ← hseen]
  -- the rest writes to the connection only
  unfold updateTCPState closeConnection
  split_ifs <;> exact ⟨rfl, rfl⟩

/-! ### The history of classifications -/

/-- The application that the inspection of the packet gives its connection, if it classifies it. -/
def classification (rules : RuleManager) (env : PacketEnv) (job : PacketJob)
    (fp : FastPathProcessor) : Option AppType :=
  match lookupConnection fp.tracker env job with
  | .ok (t, p, client) =>
    match ipBlocked rules (t.conn p), inspectPayload t p job client with
    | .ok false, .ok t' =>
      if ((t.conn p).state = .new ∨ (t.conn p).state = .established) ∧
          (t'.conn p).state = .classified then some (t'.conn p).appType
      else none
    | _, _ => none
  | .error _ => none

/-- What has been classified so far: the present entries with their first applications, and the
number of all entries that were ever classified. -/
structure History where
  first : FlowKey → Option AppType := fun _ => none
  entries : ℕ := 0

/-- The history without the entries that were removed. -/
def History.among (h : History) (t : ConnectionTracker) : History :=
  { h with first := fun k => if k ∈ t.connections then h.first k else none }

/-- The history after a classification. -/
def History.classify (h : History) (k : FlowKey) (app : AppType) : History :=
  if h.first k = none then
    { first := Function.update h.first k (some app), entries := h.entries + 1 }
  else h

theorem History.first_classify_self {h : History} (hnone : h.first k = none) :
    (h.classify k app).first k = some app := by
  rw [classify, if_pos hnone]
  exact Function.update_self k _ _

theorem History.first_classify_ne (h : History) {q : FlowKey} (hq : q ≠ k) :
    (h.classify k app).first q = h.first q := by
  unfold classify
  split_ifs
  · exact Function.update_of_ne hq _ _
  · rfl

theorem History.entries_classify {h : History} (hnone : h.first k = none) :
    (h.classify k app).entries = h.entries + 1 := by
  rw [classify, if_pos hnone]

def History.next (h : History) (rules : RuleManager) (fp : FastPathProcessor) (x : Input)
    (fp' : FastPathProcessor) : History :=
  match x with
  | .cleanup _ => h.among fp'.tracker
  | .packet env job =>
    match classification rules env job fp with
    | some app => (h.among fp'.tracker).classify job.flow app
    | none => h.among fp'.tracker

/-- The packet takes its connection back to the established state. -/
def Reestablishes (conn : Connection) (job : PacketJob) : Prop :=
  job.tuple.protocol = 6 ∧ hasFlag job.tcpFlags TCPFlags.SYN = true ∧
    hasFlag job.tcpFlags TCPFlags.ACK = true ∧ conn.synSeen = true

/-- A step over IPv4 packets, with its history. -/
structure HistoryStep (rules : RuleManager) (s : FastPathProcessor × History) (x : Input)
    (s' : FastPathProcessor × History) : Prop where
  step : Step rules s.1 x s'.1
  history : s'.2 = s.2.next rules s.1 x s'.1
  isIPv4 : x.IsIPv4

theorem HistoryStep.of_step {h : History} (hstep : Step rules fp x fp') (hv4 : x.IsIPv4) :
    HistoryStep rules (fp, h) x (fp', h.next rules fp x fp') := ⟨hstep, rfl, hv4⟩

/-- No packet reestablishes a connection that has been classified. -/
structure SettledStep (rules : RuleManager) (s : FastPathProcessor × History) (x : Input)
    (s' : FastPathProcessor × History) : Prop extends HistoryStep rules s x s' where
  settled : ∀ env job, x = .packet env job → s.2.first job.flow ≠ none →
    ¬ Reestablishes (s.1.tracker.conn job.flow) job

/-! ### One packet -/

abbrev IsOpen (c : Connection) : Prop := c.state = .new ∨ c.state = .established

theorem isOpen_follow {c : Connection} (hopen : ¬ IsOpen c) (h : ¬ Reestablishes c job) :
    ¬ IsOpen (c.follow env job client) := by
  unfold Connection.follow
  split_ifs with htcp
  · unfold Connection.followFlags
    split_ifs with hsyn hack hseen hfin hrst
    · rw [Connection.synSeen_update] at hseen
      exact absurd ⟨htcp, hsyn, hack, hseen⟩ h
    · simpa [IsOpen] using hopen
    · simpa [IsOpen] using hopen
    · simpa [IsOpen] using hopen
    · simp [IsOpen]
    · simpa [IsOpen] using hopen
  · rwa [IsOpen, Connection.state_update]

theorem classification_of_open (hlookup : lookupConnection fp.tracker env job = .ok (t, p, client))
    (hopen : IsOpen (t.conn p)) (hip : ipBlocked rules (t.conn p) = .ok false)
    (hinspect : inspectPayload t p job client = .ok t') :
    classification rules env job fp =
      if (t'.conn p).state = .classified then some (t'.conn p).appType else none := by
  simp only [classification, hlookup, hip, hinspect, hopen, true_and]

theorem classification_of_not_open
    (hlookup : lookupConnection fp.tracker env job = .ok (t, p, client))
    (hopen : ¬ IsOpen (t.conn p)) : classification rules env job fp = none := by
  simp only [classification, hlookup]
  split
  · exact if_neg fun h => hopen h.1
  · rfl

theorem classification_of_ipBlocked
    (hlookup : lookupConnection fp.tracker env job = .ok (t, p, client))
    (hip : ipBlocked rules (t.conn p) = .ok true) : classification rules env job fp = none := by
  simp only [classification, hlookup, hip]

/-- What the packet did to its connection and to the counter, seen from the lookup. -/
inductive Handled (rules : RuleManager) (env : PacketEnv) (job : PacketJob)
    (fp : FastPathProcessor) (p : FlowKey) (t t' : ConnectionTracker) : Prop
  | none : classification rules env job fp = none → t'.classifiedCount = t.classifiedCount →
    (t'.conn p).appType = (t.conn p).appType → (¬ IsOpen (t.conn p) → ¬ IsOpen (t'.conn p)) →
    Handled rules env job fp p t t'
  | some (app : AppType) : classification rules env job fp = some app → IsOpen (t.conn p) →
    t'.classifiedCount = t.classifiedCount + 1 → (t'.conn p).appType = app →
    ¬ IsOpen (t'.conn p) → Handled rules env job fp p t t'

theorem not_isOpen_blockConnection (t : ConnectionTracker) (p : FlowKey) :
    ((t.blockConnection p).conn p).appType = (t.conn p).appType ∧
      ¬ IsOpen ((t.blockConnection p).conn p) := by
  rw [conn_blockConnection]
  exact ⟨rfl, by simp [IsOpen]⟩

theorem Handled.block (h : Handled rules env job fp p t t') :
    Handled rules env job fp p t (t'.blockConnection p) := by
  obtain ⟨happ, hopen⟩ := not_isOpen_blockConnection t' p
  cases h with
  | none hnone hcount hsame _ => exact .none hnone hcount (happ.trans hsame) fun _ => hopen
  | some app hsome ht hcount hsame _ => exact .some app hsome ht hcount (happ.trans hsame) hopen

theorem inspectOpen_handled (hlookup : lookupConnection fp.tracker env job = .ok (t, p, client))
    (hip : ipBlocked rules (t.conn p) = .ok false) (h : inspectOpen t p job client = .ok t') :
    Handled rules env job fp p t t' ∧ t'.totalSeen = t.totalSeen := by
  unfold inspectOpen at h
  split_ifs at h with hopen
  · have hwrites := inspectPayload_writes h
    have hcounts := Counts.of_writes hwrites
    have hclassification := classification_of_open hlookup hopen hip h
    have hcount := hcounts.classifiedCount
    refine ⟨?_, hcounts.totalSeen⟩
    have hbefore : (t.conn p).state ≠ .classified := by
      rintro hclass
      rw [hclass] at hopen
      exact absurd hopen (by decide)
    rcases (Inspects.of_writes hwrites).settled with hclass | ⟨hstate, hprofile⟩
    · rw [if_pos hclass] at hclassification
      rw [if_pos ⟨hbefore, hclass⟩] at hcount
      exact .some _ hclassification hopen hcount rfl (by rw [IsOpen, hclass]; decide)
    · rw [hstate, if_neg hbefore] at hclassification
      rw [hstate, if_neg fun h => hbefore h.2] at hcount
      exact .none hclassification hcount (Connection.appType_eq hprofile)
        fun hnot => absurd hopen hnot
  · cases h
    exact ⟨.none (classification_of_not_open hlookup hopen) rfl rfl id, rfl⟩

theorem verdict_handled (hlookup : lookupConnection fp.tracker env job = .ok (t, p, client))
    (h : verdict rules t p job client = .ok (t', action)) :
    Handled rules env job fp p t t' ∧ t'.totalSeen = t.totalSeen := by
  rcases verdict_cases h with ⟨hblocked, rfl, -⟩ | ⟨-, hip, rfl, -⟩ |
    ⟨-, hip, t₁, ht₁, ⟨-, -, rfl, -⟩ | ⟨-, rfl, -⟩⟩
  · have hopen : ¬ IsOpen (t'.conn p) := by
      rw [IsOpen, hblocked]
      decide
    exact ⟨.none (classification_of_not_open hlookup hopen) rfl rfl id, rfl⟩
  · have hnone : Handled rules env job fp p t t :=
      .none (classification_of_ipBlocked hlookup hip) rfl rfl id
    exact ⟨hnone.block, rfl⟩
  · obtain ⟨hhandled, hseen⟩ := inspectOpen_handled hlookup hip ht₁
    exact ⟨hhandled.block, hseen⟩
  · exact inspectOpen_handled hlookup hip ht₁

theorem lookupConnection_known (hk : fp.tracker.Keyed) (hv4 : job.IsIPv4)
    (h : lookupConnection fp.tracker env job = .ok (t, p, client)) :
    p = job.flow ∧ (job.flow ∈ fp.tracker.connections →
      t.conn p = (fp.tracker.conn p).follow env job client) := by
  obtain ⟨hjob, hflow⟩ := lookupKey_of_isIPv4 hv4
  obtain ⟨key, t₁, hkey, hcreate, -, hfollow⟩ := lookupConnection_ok hk h
  cases hkey.symm.trans hjob
  obtain ⟨rfl, -, hold⟩ := getOrCreateConnection_ok hcreate
  refine ⟨hflow, fun hmem => ?_⟩
  rw [← hflow] at hmem
  rcases hold with ⟨-, rfl⟩ | ⟨hnew, -⟩
  · exact hfollow.conn
  · exact absurd hmem hnew

/-! ### Runs -/

def unclassified (fp : FastPathProcessor) (h : History) : Finset FlowKey :=
  fp.tracker.connections.keys.toFinset.filter fun k => h.first k = none

theorem mem_unclassified {h : History} : k ∈ fp.unclassified h ↔
    k ∈ fp.tracker.connections ∧ h.first k = none := by
  rw [unclassified, Finset.mem_filter, List.mem_toFinset, AList.mem_keys]

/-- The history tells what was classified, and no connection of it is inspected again. -/
structure Recorded (fp : FastPathProcessor) (h : History) : Prop where
  keyed : fp.tracker.Keyed
  settled : ∀ k app, h.first k = some app → k ∈ fp.tracker.connections ∧
    (fp.tracker.conn k).appType = app ∧ ¬ IsOpen (fp.tracker.conn k)
  count : fp.tracker.classifiedCount = h.entries
  le : h.entries + (fp.unclassified h).card ≤ fp.tracker.totalSeen

theorem recorded_empty : Recorded {} {} where
  keyed := keyed_empty 100000
  settled := nofun
  count := rfl
  le := le_rfl

namespace Recorded

variable {h : History}

theorem among (hrec : Recorded fp h)
    (hlookup : fp'.tracker.connections.lookup k = fp.tracker.connections.lookup k ∨
      fp'.tracker.connections.lookup k = none)
    (hfirst : (h.among fp'.tracker).first k = some app) : k ∈ fp'.tracker.connections ∧
      (fp'.tracker.conn k).appType = app ∧ ¬ IsOpen (fp'.tracker.conn k) := by
  simp only [History.among] at hfirst
  split_ifs at hfirst with hmem
  have hsame := hlookup.resolve_right fun hnone => AList.lookup_eq_none.mp hnone hmem
  obtain ⟨-, hsettled⟩ := hrec.settled k app hfirst
  rw [ConnectionTracker.conn, hsame]
  exact ⟨hmem, hsettled⟩

theorem mem_unclassified_among
    (hlookup : fp'.tracker.connections.lookup k = fp.tracker.connections.lookup k ∨
      fp'.tracker.connections.lookup k = none)
    (hmem : k ∈ fp'.unclassified (h.among fp'.tracker)) : k ∈ fp.unclassified h := by
  obtain ⟨hmem, hfirst⟩ := mem_unclassified.mp hmem
  simp only [History.among, if_pos hmem] at hfirst
  have hsame := hlookup.resolve_right fun hnone => AList.lookup_eq_none.mp hnone hmem
  rw [← AList.lookup_isSome, hsame, AList.lookup_isSome] at hmem
  exact mem_unclassified.mpr ⟨hmem, hfirst⟩

theorem cleanup (hrec : Recorded fp h) {now : ℕ}
    (hstep : Step rules fp (.cleanup now) fp') : Recorded fp' (h.among fp'.tracker) := by
  have hlookup (k : FlowKey) :
      fp'.tracker.connections.lookup k = fp.tracker.connections.lookup k ∨
        fp'.tracker.connections.lookup k = none := by
    cases hstep
    exact cleanupStale_lookup now defaultTimeout k
  have hcounts : fp'.tracker.classifiedCount = fp.tracker.classifiedCount ∧
      fp'.tracker.totalSeen = fp.tracker.totalSeen := by
    cases hstep
    exact ⟨rfl, rfl⟩
  constructor
  · exact step_keyed hrec.keyed hstep
  · exact fun k app hfirst => hrec.among (hlookup k) hfirst
  · exact hcounts.1.trans hrec.count
  · have hcard : (fp'.unclassified (h.among fp'.tracker)).card ≤ (fp.unclassified h).card :=
      Finset.card_le_card fun k hk => mem_unclassified_among (hlookup k) hk
    rw [hcounts.2]
    exact (Nat.add_le_add_left hcard h.entries).trans hrec.le

theorem card_unclassified
    (hlookup : ∀ q, q ≠ k → fp'.tracker.connections.lookup q = fp.tracker.connections.lookup q ∨
      fp'.tracker.connections.lookup q = none) (hmem : k ∈ fp'.tracker.connections) :
    (fp'.unclassified (h.among fp'.tracker)).card ≤
      (fp.unclassified h).card + if k ∈ fp.tracker.connections then 0 else 1 := by
  have hsub : fp'.unclassified (h.among fp'.tracker) ⊆ insert k (fp.unclassified h) := by
    rintro q hq
    by_cases hqk : q = k
    · exact hqk ▸ Finset.mem_insert_self _ _
    · exact Finset.mem_insert_of_mem (mem_unclassified_among (hlookup q hqk) hq)
  split_ifs with hold
  · rw [Nat.add_zero]
    refine Finset.card_le_card fun q hq => ?_
    rcases Finset.mem_insert.mp (hsub hq) with rfl | hq'
    · have hfirst := (mem_unclassified.mp hq).2
      simp only [History.among, if_pos hmem] at hfirst
      exact mem_unclassified.mpr ⟨hold, hfirst⟩
    · exact hq'
  · exact (Finset.card_le_card hsub).trans (Finset.card_insert_le _ _)

theorem first_among (h : History) (hmem : k ∈ t.connections) : (h.among t).first k = h.first k :=
  if_pos hmem

theorem packet_none (hrec : Recorded fp h) (hkeyed : fp'.tracker.Keyed)
    (hlookup : ∀ q, q ≠ k → fp'.tracker.connections.lookup q = fp.tracker.connections.lookup q ∨
      fp'.tracker.connections.lookup q = none) (hmem : k ∈ fp'.tracker.connections)
    (hown : ∀ app, h.first k = some app →
      (fp'.tracker.conn k).appType = app ∧ ¬ IsOpen (fp'.tracker.conn k))
    (hcount : fp'.tracker.classifiedCount = fp.tracker.classifiedCount)
    (hseen : fp'.tracker.totalSeen =
      fp.tracker.totalSeen + if k ∈ fp.tracker.connections then 0 else 1) :
    Recorded fp' (h.among fp'.tracker) := by
  constructor
  · exact hkeyed
  · rintro q app hfirst
    by_cases hq : q = k
    · subst hq
      rw [first_among h hmem] at hfirst
      exact ⟨hmem, hown app hfirst⟩
    · exact hrec.among (hlookup q hq) hfirst
  · exact hcount.trans hrec.count
  · have hcard := card_unclassified (h := h) hlookup hmem
    have hle := hrec.le
    change h.entries + _ ≤ _
    omega

theorem packet_some (hrec : Recorded fp h) (hkeyed : fp'.tracker.Keyed)
    (hlookup : ∀ q, q ≠ k → fp'.tracker.connections.lookup q = fp.tracker.connections.lookup q ∨
      fp'.tracker.connections.lookup q = none) (hmem : k ∈ fp'.tracker.connections)
    (hnone : h.first k = none) (happ : (fp'.tracker.conn k).appType = app)
    (hopen : ¬ IsOpen (fp'.tracker.conn k))
    (hcount : fp'.tracker.classifiedCount = fp.tracker.classifiedCount + 1)
    (hseen : fp'.tracker.totalSeen =
      fp.tracker.totalSeen + if k ∈ fp.tracker.connections then 0 else 1) :
    Recorded fp' ((h.among fp'.tracker).classify k app) := by
  have hnone' : (h.among fp'.tracker).first k = none := (first_among h hmem).trans hnone
  constructor
  · exact hkeyed
  · rintro q app' hfirst
    by_cases hq : q = k
    · subst hq
      rw [History.first_classify_self hnone', Option.some.injEq] at hfirst
      exact ⟨hmem, happ.trans hfirst, hopen⟩
    · rw [History.first_classify_ne _ hq] at hfirst
      exact hrec.among (hlookup q hq) hfirst
  · rw [History.entries_classify hnone', hcount, hrec.count]
    rfl
  · have hcard := card_unclassified (h := h) hlookup hmem
    have hle := hrec.le
    -- the entry of the flow is no longer among them
    have herase : fp'.unclassified ((h.among fp'.tracker).classify k app) ⊆
        (fp'.unclassified (h.among fp'.tracker)).erase k := by
      rintro q hq
      obtain ⟨hq, hfirst⟩ := mem_unclassified.mp hq
      have hqk : q ≠ k := by
        rintro rfl
        rw [History.first_classify_self hnone'] at hfirst
        cases hfirst
      rw [History.first_classify_ne _ hqk] at hfirst
      exact Finset.mem_erase.mpr ⟨hqk, mem_unclassified.mpr ⟨hq, hfirst⟩⟩
    have hlt := Finset.card_erase_lt_of_mem (mem_unclassified.mpr ⟨hmem, hnone'⟩)
    have hcard' := Finset.card_le_card herase
    have hentries : (h.among fp'.tracker).entries = h.entries := rfl
    rw [History.entries_classify hnone', hentries]
    omega

theorem step (hrec : Recorded fp h) {h' : History} (hs : SettledStep rules (fp, h) x (fp', h')) :
    Recorded fp' h' := by
  obtain ⟨⟨hstep, hhistory, hv4⟩, hsettled⟩ := hs
  dsimp only at hstep hhistory hsettled
  subst hhistory
  cases x with
  | cleanup now => exact hrec.cleanup hstep
  | packet env job =>
    have hv4 : job.IsIPv4 := hv4
    have hquiet := hsettled env job rfl
    obtain ⟨hjob, hflow⟩ := lookupKey_of_isIPv4 hv4
    obtain ⟨key, hkey, hmem, hkeyed, hlookup⟩ := processPacket_touches hrec.keyed hstep
    cases hkey.symm.trans hjob
    rw [hflow] at hmem hlookup
    obtain ⟨t, p, client, t', action, hfind, hverdict, rfl⟩ := processPacket_ok.mp hstep
    obtain ⟨rfl, hconn⟩ := lookupConnection_known hrec.keyed hv4 hfind
    obtain ⟨hcount, hseen⟩ := lookupConnection_counts hv4 hfind
    obtain ⟨hhandled, hsame⟩ := verdict_handled hfind hverdict
    -- a connection of the history is not inspected
    have hclosed {app : AppType} (hfirst : h.first job.flow = some app) :
        (t.conn job.flow).appType = app ∧ ¬ IsOpen (t.conn job.flow) := by
      obtain ⟨hold, happ, hopen⟩ := hrec.settled _ app hfirst
      rw [hconn hold]
      have hprofile := Connection.profile_follow (fp.tracker.conn job.flow) env job client
      exact ⟨(Connection.appType_eq hprofile).trans happ,
        isOpen_follow hopen (hquiet (by rw [hfirst]; exact Option.some_ne_none app))⟩
    cases hhandled with
    | none hnone hcount' happ hopen =>
      simp only [History.next, hnone]
      refine hrec.packet_none hkeyed hlookup hmem ?_ (hcount'.trans hcount) (hsame.trans hseen)
      rintro app hfirst
      exact ⟨happ.trans (hclosed hfirst).1, hopen (hclosed hfirst).2⟩
    | some app hsome hopen hcount' happ hnot =>
      simp only [History.next, hsome]
      have hnone : h.first job.flow = none := by
        cases hfirst : h.first job.flow with
        | none => rfl
        | some app' => exact absurd hopen (hclosed hfirst).2
      exact hrec.packet_some hkeyed hlookup hmem hnone happ hnot (hcount'.trans (by rw [hcount]))
        (hsame.trans hseen)

end Recorded

/-- Every entry has the application of its first classification, and the counter is the number of
the entries that were classified. -/
structure ClassifiedOnce (fp : FastPathProcessor) (h : History) : Prop where
  appType : ∀ k app, h.first k = some app → (fp.tracker.conn k).appType = app
  classifiedCount : fp.tracker.classifiedCount = h.entries
  le_totalSeen : fp.tracker.classifiedCount ≤ fp.tracker.totalSeen

/-- In a run that reestablishes no classified connection, connections are classified once. -/
theorem run_classifiedOnce (rules : RuleManager) (l : List Input) (fp : FastPathProcessor)
    (h : History) (hrun : Run (SettledStep rules) ({}, {}) l (fp, h)) : ClassifiedOnce fp h := by
  have hstep {s : FastPathProcessor × History} {a : Input} {t : FastPathProcessor × History}
      (hs : Recorded s.1 s.2) (h : SettledStep rules s a t) : Recorded t.1 t.2 := hs.step h
  have hrec : Recorded fp h :=
    Run.invariant (I := fun s : FastPathProcessor × History => Recorded s.1 s.2) hstep hrun
      recorded_empty
  constructor
  · exact fun k app hfirst => (hrec.settled k app hfirst).2.1
  · exact hrec.count
  · have hle := hrec.le
    have hcount := hrec.count
    omega

def firstRequest : List Input :=
  [.packet {} (segmentJob 80 0 TCPFlags.SYN []),
    .packet {} (segmentJob 80 1 TCPFlags.ACK (ascii "GET /"))]

/-- An HTTP request after a SYN classifies its connection. -/
theorem run_classifiedOnce_request : ∃ fp h,
    Run (SettledStep {}) ({}, {}) firstRequest (fp, h) ∧
      fp.tracker.classifiedCount = 1 ∧ ClassifiedOnce fp h := by
  have hquiet {s s' : FastPathProcessor × History} {tcpFlags : UInt8} {seq : UInt32}
      {payload : List UInt8}
      (hstep : HistoryStep {} s (.packet {} (segmentJob 80 seq tcpFlags payload)) s')
      (hflags : hasFlag tcpFlags TCPFlags.SYN = false ∨ hasFlag tcpFlags TCPFlags.ACK = false) :
      SettledStep {} s (.packet {} (segmentJob 80 seq tcpFlags payload)) s' := by
    refine ⟨hstep, ?_⟩
    rintro env job ⟨rfl, rfl⟩ - ⟨-, hsyn, hack, -⟩
    rcases hflags with h | h
    · exact Bool.false_ne_true (h.symm.trans hsyn)
    · exact Bool.false_ne_true (h.symm.trans hack)
  obtain ⟨fp, h, hrun, hcount⟩ : ∃ fp h, Run (SettledStep {}) ({}, {}) firstRequest (fp, h) ∧
      fp.tracker.classifiedCount = 1 :=
    ⟨_, _, .cons (hquiet (.of_step rfl ⟨rfl, rfl⟩) (.inr (by decide)))
      (.cons (hquiet (.of_step rfl ⟨rfl, rfl⟩) (.inl (by decide))) (.nil _)), rfl⟩
  exact ⟨fp, h, hrun, hcount, run_classifiedOnce {} _ fp h hrun⟩

/-- A SYN with ACK after it lets the next request classify the connection again. -/
theorem not_run_classifiedOnce :
    ¬ ∀ (rules : RuleManager) (l : List Input) (fp : FastPathProcessor) (h : History),
      Run (HistoryStep rules) ({}, {}) l (fp, h) → ClassifiedOnce fp h := by
  intro h
  have honce := h {} (firstRequest ++
    [.packet {} (segmentJob 80 0 (TCPFlags.SYN ||| TCPFlags.ACK) []),
      .packet {} (segmentJob 80 6 TCPFlags.ACK (ascii "GET /"))]) _ _
    (.cons (.of_step rfl ⟨rfl, rfl⟩) (.cons (.of_step rfl ⟨rfl, rfl⟩)
      (.cons (.of_step rfl ⟨rfl, rfl⟩) (.cons (.of_step rfl ⟨rfl, rfl⟩) (.nil _)))))
  exact absurd honce.le_totalSeen (by decide)

end DpiEngine.FastPathProcessor
