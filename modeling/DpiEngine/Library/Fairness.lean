import DpiEngine.Library.Runs

/-! # Fair executions

An execution never ends, but it may stand still. It is fair if no agent waits
forever although it can always move. Then an agent that comes closer to a goal
with each of its steps reaches it, whatever the others do.
-/

variable {σ α γ : Type*}

/-- The agent has a step in the state. -/
def Enabled (agent : α → Option γ) (Step : σ → α → σ → Prop) (g : γ) (s : σ) : Prop :=
  ∃ a t, agent a = some g ∧ Step s a t

structure FairExecution (agent : α → Option γ) (Step : σ → α → σ → Prop) (x : ℕ → σ)
    (act : ℕ → Option α) : Prop where
  step : ∀ n, act n = none ∧ x (n + 1) = x n ∨ ∃ a, act n = some a ∧ Step (x n) a (x (n + 1))
  fair : ∀ g m, (∀ n, m ≤ n → Enabled agent Step g (x n)) →
    ∃ n, m ≤ n ∧ ∃ a, act n = some a ∧ agent a = some g

namespace FairExecution

variable {agent : α → Option γ} {Step : σ → α → σ → Prop} {x : ℕ → σ} {act : ℕ → Option α}
  {I K J T : σ → Prop} {G : α → Prop} {ρ U : σ → ℕ} {g : γ} {m n : ℕ}

theorem invariant (h : FairExecution agent Step x act) (hJ : ∀ {s a t}, J s → Step s a t → J t)
    (hm : J (x m)) (hn : m ≤ n) : J (x n) := by
  induction n, hn using Nat.le_induction with
  | base => exact hm
  | succ n _ ih =>
    rcases h.step n with ⟨-, heq⟩ | ⟨a, -, hstep⟩
    · rw [heq]
      exact ih
    · exact hJ ih hstep

/-- The states of an execution are those of runs. -/
theorem exists_run (h : FairExecution agent Step x act) (n : ℕ) : ∃ l, Run Step (x 0) l (x n) := by
  refine h.invariant (J := fun s => ∃ l, Run Step (x 0) l s) ?_ ⟨[], .nil _⟩ (Nat.zero_le n)
  rintro s a t ⟨l, hl⟩ hst
  exact ⟨l ++ [a], Run.append_iff.mpr ⟨s, hl, .cons hst (.nil t)⟩⟩

/-- An agent that can always move, and whose own steps lower a rank that the others never raise,
brings about a step to the goal or leads to a state of another kind. -/
theorem leads (h : FairExecution agent Step x act) (henabled : ∀ s, I s → Enabled agent Step g s)
    (hstep : ∀ s a t, I s → Step s a t →
      G a ∨ K t ∨ I t ∧ ρ t ≤ ρ s ∧ (agent a = some g → ρ t < ρ s)) (hm : I (x m)) :
    ∃ n, m ≤ n ∧ ((∃ a, act n = some a ∧ G a) ∨ K (x n)) := by
  induction hρ : ρ (x m) using Nat.strongRecOn generalizing m with
  | ind r ih =>
    subst hρ
    by_contra hnever
    simp only [not_exists, not_and, not_or] at hnever
    have hstays (n : ℕ) (hn : m ≤ n) : I (x n) ∧ ρ (x n) ≤ ρ (x m) := by
      induction n, hn using Nat.le_induction with
      | base => exact ⟨hm, le_rfl⟩
      | succ n hn hstays =>
        rcases h.step n with ⟨-, heq⟩ | ⟨a, hact, hst⟩
        · rw [heq]
          exact hstays
        · rcases hstep _ a _ hstays.1 hst with hgoal | hK | ⟨hI, hle, -⟩
          · exact absurd hgoal ((hnever n hn).1 a hact)
          · exact absurd hK (hnever (n + 1) (Nat.le_succ_of_le hn)).2
          · exact ⟨hI, hle.trans hstays.2⟩
    obtain ⟨n, hn, a, hact, hagent⟩ := h.fair g m fun n hn => henabled _ (hstays n hn).1
    rcases h.step n with ⟨hnone, -⟩ | ⟨a', hact', hst⟩
    · cases hnone.symm.trans hact
    cases hact'.symm.trans hact
    rcases hstep _ _ _ (hstays n hn).1 hst with hgoal | hK | ⟨hI, -, hlt⟩
    · exact (hnever n hn).1 _ hact hgoal
    · exact (hnever (n + 1) (Nat.le_succ_of_le hn)).2 hK
    · obtain ⟨n', hn', hreach⟩ := ih _ ((hlt hagent).trans_le (hstays n hn).2) hI rfl
      have hle : m ≤ n' := hn.trans ((Nat.le_succ n).trans hn')
      rcases hreach with ⟨b, hb, hgoal⟩ | hK
      · exact (hnever n' hle).1 b hb hgoal
      · exact (hnever n' hle).2 hK

/-- If steps to the goal use up a potential and come again and again until the target is reached,
then the target is reached. -/
theorem reaches (h : FairExecution agent Step x act) (hJ : ∀ {s a t}, J s → Step s a t → J t)
    (hle : ∀ s a t, J s → Step s a t → U t ≤ U s)
    (hlt : ∀ s a t, J s → Step s a t → G a → U t < U s)
    (hleads : ∀ m, J (x m) → ¬ T (x m) →
      ∃ n, m ≤ n ∧ ((∃ a, act n = some a ∧ G a) ∨ T (x n)))
    (hm : J (x m)) : ∃ n, m ≤ n ∧ T (x n) := by
  induction hU : U (x m) using Nat.strongRecOn generalizing m with
  | ind r ih =>
    subst hU
    by_cases htarget : T (x m)
    · exact ⟨m, le_rfl, htarget⟩
    obtain ⟨n, hn, ⟨a, hact, hgoal⟩ | hreached⟩ := hleads m hm htarget
    · have hmono : J (x n) ∧ U (x n) ≤ U (x m) := by
        refine h.invariant (J := fun s => J s ∧ U s ≤ U (x m)) ?_ ⟨hm, le_rfl⟩ hn
        intro s a t hs hst
        exact ⟨hJ hs.1 hst, (hle s a t hs.1 hst).trans hs.2⟩
      rcases h.step n with ⟨hnone, -⟩ | ⟨a', hact', hst⟩
      · cases hnone.symm.trans hact
      cases hact'.symm.trans hact
      have hless := (hlt _ _ _ hmono.1 hst hgoal).trans_le hmono.2
      obtain ⟨n', hn', hreached⟩ := ih _ hless (hJ hmono.1 hst) rfl
      exact ⟨n', hn.trans ((Nat.le_succ n).trans hn'), hreached⟩
    · exact ⟨n, hn, hreached⟩

theorem exists_of_run {s t : σ} {l : List α} (h : Run Step s l t)
    (hend : ∀ g, ¬ Enabled agent Step g t) :
    ∃ x act, FairExecution agent Step x act ∧ x 0 = s := by
  induction h with
  | nil t =>
    refine ⟨fun _ => t, fun _ => none, ⟨fun n => .inl ⟨rfl, rfl⟩, fun g m hg => ?_⟩, rfl⟩
    exact absurd (hg m le_rfl) (hend g)
  | @cons s u v a l hst _ ih =>
    obtain ⟨x, act, h, rfl⟩ := ih hend
    refine ⟨fun n => n.casesOn s x, fun n => n.casesOn (some a) act,
      ⟨fun n => ?_, fun g m hg => ?_⟩, rfl⟩
    · cases n with
      | zero => exact .inr ⟨a, rfl, hst⟩
      | succ n => exact h.step n
    · obtain ⟨n, hn, hact⟩ := h.fair g m fun n hn => hg (n + 1) (Nat.le_succ_of_le hn)
      exact ⟨n + 1, Nat.le_succ_of_le hn, hact⟩

end FairExecution
