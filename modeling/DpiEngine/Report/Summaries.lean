import DpiEngine.FastPath.Accounts
import DpiEngine.Library.Grouping
import DpiEngine.Report.Model

/-! # What the report says about the flows

The summaries of applications and domains are sums over the flows. They depend
on neither the order of the flows nor their times, except for the application
that is named beside a domain, which is that of its last flow.
-/

namespace DpiEngine

open Grouping

variable {conns conns' : List Connection} {r r' : ReportSource}

def Connection.appKey (conn : Connection) : Option Name :=
  some (ascii (appTypeToString conn.appType))

def Connection.domainKey (conn : Connection) : Option Name :=
  if conn.bestDomain.isEmpty then none else some conn.bestDomain

/-- The loop groups the flows by application and by domain. -/
theorem summarize_eq (conns : List Connection) : summarize conns =
    { appMap := table Connection.appKey {} AppSummary.add conns
      domainMap := table Connection.domainKey {} DomainSummary.add conns } := by
  induction conns using List.reverseRecOn with
  | nil => rfl
  | append_singleton conns conn ih =>
    have hdomain (t : AList fun _ : Name => DomainSummary) :
        fill Connection.domainKey {} DomainSummary.add t conn =
          if conn.bestDomain.isEmpty then t
          else t.insert conn.bestDomain (((t.lookup conn.bestDomain).getD {}).add conn) := by
      unfold fill Connection.domainKey
      split_ifs <;> rfl
    rw [summarize, List.foldl_append, ← summarize, ih, table_concat, table_concat, hdomain]
    rfl

theorem summarize_untimed (conns : List Connection) :
    summarize (conns.map Connection.untimed) = summarize conns := by
  rw [summarize, List.foldl_map]
  rfl

def DomainSummary.shown (entry : DomainSummary) : ℕ × Bool := (entry.packets, entry.blocked)

theorem AppSummary.add_comm (entry : AppSummary) (c c' : Connection) :
    (entry.add c).add c' = (entry.add c').add c := by
  unfold AppSummary.add
  dsimp only
  congr 1
  · omega
  · omega
  · cases c.isBlocked <;> cases c'.isBlocked <;> rfl

section Perm

variable (h : (conns.map Connection.untimed).Perm (conns'.map Connection.untimed))
include h

theorem lookup_appMap_perm (name : Name) :
    (summarize conns).appMap.lookup name = (summarize conns').appMap.lookup name := by
  have hlookup := lookup_table_perm Connection.appKey ({} : AppSummary) AppSummary.add id
    AppSummary.add (fun _ _ => rfl) AppSummary.add_comm h name
  rw [Option.map_id, id, id] at hlookup
  rw [← summarize_untimed, ← summarize_untimed conns', summarize_eq, summarize_eq]
  exact hlookup

theorem lookup_domainMap_perm (domain : Name) :
    ((summarize conns).domainMap.lookup domain).map DomainSummary.shown =
      ((summarize conns').domainMap.lookup domain).map DomainSummary.shown := by
  rw [← summarize_untimed, ← summarize_untimed conns', summarize_eq, summarize_eq]
  refine lookup_table_perm Connection.domainKey {} DomainSummary.add DomainSummary.shown
    (fun entry conn => (entry.1 + (conn.packetsIn + conn.packetsOut),
      if conn.isBlocked then true else entry.2))
    (fun _ _ => rfl) (fun c a a' => ?_) h domain
  refine Prod.ext ?_ ?_
  · dsimp only
    omega
  · cases a.isBlocked <;> cases a'.isBlocked <;> rfl

end Perm

namespace ReportSource

/-- The flows of two reports are the same up to their order and times. -/
def SameFlows (r r' : ReportSource) : Prop :=
  (r.conns.map Connection.untimed).Perm (r'.conns.map Connection.untimed)

/-- Entries in the order of a hash table that show the same at each key. -/
theorem arrange_perm {β γ : Type} {t t' : AList fun _ : Name => β} {obs : β → γ}
    (order order' : SummaryOrder β) (h : ∀ k, (t.lookup k).map obs = (t'.lookup k).map obs) :
    ((order.arrange t.entries).map fun e => (e.1, obs e.2)).Perm
      ((order'.arrange t'.entries).map fun e => (e.1, obs e.2)) :=
  ((order.perm _).map _).trans
    ((AList.entries_perm_of_shown h).trans ((order'.perm _).map _).symm)

theorem apps_perm (h : r.SameFlows r') : (r.apps.map appValue).Perm (r'.apps.map appValue) := by
  have hpairs : (r.apps.map fun e => (e.1, id e.2)).Perm (r'.apps.map fun e => (e.1, id e.2)) :=
    arrange_perm r.appOrder r'.appOrder fun k => congrArg _ (lookup_appMap_perm h k)
  have hvalue (l : List (Sigma fun _ : Name => AppSummary)) :
      l.map appValue = (l.map fun e => (e.1, id e.2)).map fun e => appValue ⟨e.1, e.2⟩ := by
    rw [List.map_map]
    rfl
  rw [hvalue r.apps, hvalue r'.apps]
  exact hpairs.map _

theorem domains_perm (h : r.SameFlows r') :
    (r.domains.map fun e => (e.1, e.2.shown)).Perm (r'.domains.map fun e => (e.1, e.2.shown)) :=
  arrange_perm r.domainOrder r'.domainOrder (lookup_domainMap_perm h)

theorem flows_perm (h : r.SameFlows r') :
    (r.conns.map flowValue).Perm (r'.conns.map flowValue) := by
  have hvalue (l : List Connection) :
      l.map flowValue = (l.map Connection.untimed).map flowValue := by
    rw [List.map_map]
    rfl
  rw [hvalue r.conns, hvalue r'.conns]
  exact h.map _

theorem protocolPackets_perm (h : r.SameFlows r') (stats : DPIStats) :
    protocolPackets stats r.conns = protocolPackets stats r'.conns := by
  have hsum (protocol : UInt8) : FastPathProcessor.packetsAmong protocol r.conns =
      FastPathProcessor.packetsAmong protocol r'.conns := by
    have hvalue (l : List Connection) : FastPathProcessor.packetsAmong protocol l =
        FastPathProcessor.packetsAmong protocol (l.map Connection.untimed) := by
      rw [FastPathProcessor.packetsAmong, FastPathProcessor.packetsAmong, List.map_map]
      rfl
    rw [hvalue r.conns, hvalue r'.conns]
    exact (h.map _).sum_eq
  rw [protocolPackets, protocolPackets, foldl_addPackets, foldl_addPackets, hsum, hsum]

theorem apps_sum {w : AppSummary → ℕ} {v : Connection → ℕ} (hstart : w {} = 0)
    (hadd : ∀ entry conn, w (AppSummary.add entry conn) = w entry + v conn) (r : ReportSource) :
    (r.apps.map fun e => w e.2).sum = (r.conns.map v).sum := by
  have hweight := weight_table Connection.appKey {} AppSummary.add hstart hadd r.conns
  have hall : r.conns.filter (fun conn => conn.appKey.isSome) = r.conns :=
    List.filter_eq_self.mpr fun _ _ => rfl
  rw [hall] at hweight
  rw [← hweight, apps, summarize_eq]
  exact ((r.appOrder.perm _).map _).sum_eq

theorem foldl_blocked (l : List Connection) (entry : AppSummary) :
    (l.foldl AppSummary.add entry).blocked = true ↔
      entry.blocked = true ∨ ∃ conn ∈ l, conn.isBlocked = true := by
  induction l generalizing entry with
  | nil => simp
  | cons conn l ih =>
    rw [List.foldl_cons, ih, List.exists_mem_cons_iff, ← or_assoc]
    refine or_congr_left ?_
    unfold AppSummary.add
    cases conn.isBlocked <;> simp

theorem app_blocked_iff {name : Name} {entry : AppSummary} (h : ⟨name, entry⟩ ∈ r.apps) :
    entry.blocked = true ↔
      ∃ conn ∈ r.conns, conn.appKey = some name ∧ conn.isBlocked = true := by
  have hmem := AList.mem_lookup_iff.mpr ((r.appOrder.perm _).mem_iff.mp h)
  rw [summarize_eq, Option.mem_def, lookup_table] at hmem
  split_ifs at hmem
  cases hmem
  rw [foldl_blocked]
  simp [group, and_assoc]

end ReportSource

end DpiEngine
