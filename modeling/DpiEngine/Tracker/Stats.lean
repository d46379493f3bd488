import DpiEngine.Tracker.Bounded

/-! # The statistics of a tracker

The tracker counts the connections that it makes. An entry that is evicted or
found stale stays counted, so the two numbers of the statistics agree exactly as
long as nothing has been removed.
-/

namespace DpiEngine

structure TrackerStats where
  activeConnections : ℕ
  totalConnectionsSeen : ℕ
  classifiedConnections : ℕ
  blockedConnections : ℕ
  deriving DecidableEq, Repr

namespace ConnectionTracker

def getStats (t : ConnectionTracker) : TrackerStats :=
  ⟨t.connections.entries.length, t.totalSeen, t.classifiedCount, t.blockedCount⟩

/-- Every connection that was seen is still in the table. -/
def Complete (t : ConnectionTracker) : Prop :=
  t.getStats.activeConnections = t.getStats.totalConnectionsSeen

instance (t : ConnectionTracker) : Decidable t.Complete := inferInstanceAs (Decidable (_ = _))

variable {t t' t'' : ConnectionTracker} {p q : FlowKey} {key : FlowKey} {env : PacketEnv}

/-- From `t` to `t'` the table has lost `n` entries. -/
def Loses (n : ℕ) (t t' : ConnectionTracker) : Prop :=
  t'.size + n + t.totalSeen = t.size + t'.totalSeen

theorem Loses.refl (t : ConnectionTracker) : Loses 0 t t := rfl

theorem Loses.trans {m n : ℕ} (h : Loses m t t') (h' : Loses n t' t'') : Loses (m + n) t t'' := by
  unfold Loses at *
  omega

theorem Loses.of_touches (h : Touches p t t') (hp : p ∈ t.connections)
    (hseen : t'.totalSeen = t.totalSeen) : Loses 0 t t' := by
  have hkeys : t'.connections.keys.Perm t.connections.keys := by
    rw [List.perm_ext_iff_of_nodup t'.connections.keys_nodup t.connections.keys_nodup]
    intro q
    rw [← AList.mem_keys, ← AList.mem_keys]
    by_cases hq : q = p
    · subst hq
      exact iff_of_true (h.mem hp) hp
    · rw [← AList.lookup_isSome, ← AList.lookup_isSome, h.lookup_ne q hq]
  have hlength := hkeys.length_eq
  rw [length_keys, length_keys] at hlength
  unfold Loses
  simp only [size]
  omega

theorem length_insert_of_notMem {s : FlowTable} (h : p ∉ s) (conn : Connection) :
    (s.insert p conn).entries.length = s.entries.length + 1 := by
  rw [← length_keys, ← length_keys, AList.keys_insert, List.length_cons,
    List.erase_of_not_mem fun hp => h (AList.mem_keys.mpr hp)]

/-- A lookup loses the entry that it evicts; without one the other entries are as before. -/
theorem loses_getOrCreateConnection (h : t.getOrCreateConnection key env = .ok (t', p)) :
    ∃ n, Loses n t t' ∧
      (n = 0 → ∀ q, q ≠ p → t'.connections.lookup q = t.connections.lookup q) := by
  have hseen := (getOrCreateConnection_counts h).2
  rcases getOrCreateConnection_cases t key env with ⟨hmem, heq⟩ | ⟨hnew, ⟨fault, heq⟩ | hcase⟩
  · cases heq.symm.trans h
    exact ⟨0, .refl t, fun _ _ _ => rfl⟩
  · cases heq.symm.trans h
  obtain ⟨conn, t₁, -, heq, hinsert, -⟩ := hcase
  cases heq.symm.trans h
  rw [if_neg hnew] at hseen
  have hsub : key.canonical ∉ (t.makeRoom env.order).connections := by
    rw [← AList.lookup_eq_none]
    rcases lookup_makeRoom env.order key.canonical with hsame | hnone
    · rw [hsame]
      exact AList.lookup_eq_none.mpr hnew
    · exact hnone
  have hsize : t'.size = (t.makeRoom env.order).size + 1 := by
    rw [size, hinsert, length_insert_of_notMem hsub]
  have hkeeps (hroom : t.makeRoom env.order = t) : ∃ n, Loses n t t' ∧
      (n = 0 → ∀ q, q ≠ key.canonical →
        t'.connections.lookup q = t.connections.lookup q) := by
    rw [hroom] at hsize hinsert
    refine ⟨0, ?_, fun _ q hq => by rw [hinsert, AList.lookup_insert_ne hq]⟩
    unfold Loses
    omega
  by_cases hfull : t.connections.entries.length ≥ t.maxConnections
  · have hroom : t.makeRoom env.order = t.evictOldest env.order := if_pos hfull
    rcases evictOldest_cases t env.order with ⟨-, hevict⟩ | ⟨e, he, hevict⟩
    · exact hkeeps (hroom.trans hevict)
    · have herase := length_erase he.1
      rw [hroom, hevict] at hsize
      refine ⟨1, ?_, fun h => absurd h one_ne_zero⟩
      unfold Loses
      simp only [size] at *
      omega
  · exact hkeeps (if_neg hfull)

theorem loses_cleanupStale (t : ConnectionTracker) (now timeout : ℕ) :
    ∃ n, Loses n t (t.cleanupStale now timeout) ∧ (n = 0 → t.cleanupStale now timeout = t) := by
  have hle : (t.connections.entries.filter fun e => !isStale now timeout e.2).length ≤
      t.connections.entries.length := List.length_filter_le _ _
  refine ⟨t.size - (t.cleanupStale now timeout).size, ?_, fun h => ?_⟩
  · unfold Loses
    simp only [size, cleanupStale] at *
    omega
  · have hall : t.connections.entries.filter (fun e => !isStale now timeout e.2) =
        t.connections.entries := by
      rw [List.filter_eq_self, ← List.length_filter_eq_length_iff]
      simp only [size, cleanupStale] at h
      omega
    have hsame : (t.cleanupStale now timeout).connections = t.connections := AList.ext hall
    calc
      t.cleanupStale now timeout =
          { t with connections := (t.cleanupStale now timeout).connections } := rfl
      _ = t := by rw [hsame]

theorem Loses.complete {n : ℕ} (h : Loses n t t') (hle : t.size ≤ t.totalSeen)
    (hcomplete : t'.Complete) : n = 0 ∧ t.Complete := by
  unfold Loses at h
  simp only [Complete, getStats, size] at *
  omega

theorem Loses.size_le {n : ℕ} (h : Loses n t t') (hle : t.size ≤ t.totalSeen) :
    t'.size ≤ t'.totalSeen := by
  unfold Loses at h
  omega

end ConnectionTracker

end DpiEngine
