import Mathlib.Logic.Relation
import Mathlib.Tactic.Ring

/-! # Loops that end

A loop goes from state to state until it stops with a result. It ends from every
state if a measure decreases in every round. A walk that ends in every direction
from a point meets no cycle.
-/

namespace Loops

variable {σ ρ : Type*} {step : σ → σ ⊕ ρ} {s t : σ} {n : ℕ} {r : ρ}

/-- From `s` the loop goes on for `n` rounds and stops in the next one with `r`. -/
inductive Ends (step : σ → σ ⊕ ρ) : σ → ℕ → ρ → Prop
  | stop {s : σ} {r : ρ} : step s = .inr r → Ends step s 0 r
  | next {s t : σ} {n : ℕ} {r : ρ} : step s = .inl t → Ends step t n r → Ends step s (n + 1) r

theorem exists_ends (μ : σ → ℕ) (hμ : ∀ s t, step s = .inl t → μ t < μ s) (s : σ) :
    ∃ n ≤ μ s, ∃ r, Ends step s n r := by
  induction hs : μ s using Nat.strong_induction_on generalizing s with
  | h k ih =>
    cases hstep : step s with
    | inr r => exact ⟨0, Nat.zero_le _, r, .stop hstep⟩
    | inl t =>
      have hlt := hμ s t hstep
      obtain ⟨n, hn, r, hends⟩ := ih (μ t) (by omega) t rfl
      exact ⟨n + 1, by omega, r, .next hstep hends⟩

end Loops

namespace Relation

variable {α : Type*} {r : α → α → Prop} {a b : α}

theorem not_transGen_self_of_acc (h : Acc (fun b a => r a b) a) : ¬ TransGen r a a := by
  induction h with
  | intro a _ ih =>
    intro hcycle
    -- the walk around the cycle can be started one step later
    obtain ⟨b, hab, hba⟩ := TransGen.head'_iff.mp hcycle
    refine ih b hab ?_
    exact TransGen.tail' hba hab

theorem acc_of_reflTransGen (h : Acc (fun b a => r a b) a) (hab : ReflTransGen r a b) :
    Acc (fun b a => r a b) b := by
  induction hab with
  | refl => exact h
  | tail _ hstep ih => exact ih.inv hstep

end Relation
