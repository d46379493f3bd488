import Mathlib.Data.List.Basic

/-! # Computations that can fail

A sequence of fallible computations returns exactly if each of them does.
-/

variable {ε α β : Type*}

theorem Except.bind_eq_ok_iff {x : Except ε α} {f : α → Except ε β} {b : β} :
    x.bind f = .ok b ↔ ∃ a, x = .ok a ∧ f a = .ok b := by
  cases x with
  | error e => simp [Except.bind]
  | ok a => simp [Except.bind]

theorem Except.do_eq_ok_iff {ε α β : Type} {x : Except ε α} {f : α → Except ε β} {b : β} :
    (x >>= f) = .ok b ↔ ∃ a, x = .ok a ∧ f a = .ok b := Except.bind_eq_ok_iff

def Except.Returns (x : Except ε α) : Prop := ∃ a, x = .ok a

theorem Except.returns_ok (a : α) : (.ok a : Except ε α).Returns := ⟨a, rfl⟩

theorem Except.not_returns_error (e : ε) : ¬ (.error e : Except ε α).Returns := nofun

theorem Except.returns_bind_iff {ε α β : Type} {x : Except ε α} {f : α → Except ε β} :
    (x >>= f).Returns ↔ ∃ a, x = .ok a ∧ (f a).Returns := by
  simp only [Except.Returns, Except.do_eq_ok_iff]
  constructor
  · rintro ⟨b, a, ha, hb⟩; exact ⟨a, ha, b, hb⟩
  · rintro ⟨a, ha, b, hb⟩; exact ⟨b, a, ha, hb⟩

/-- Two computations fail alike, or return related results. -/
inductive Except.Related {ε α β : Type} (R : α → β → Prop) : Except ε α → Except ε β → Prop
  | ok {a : α} {b : β} : R a b → Related R (.ok a) (.ok b)
  | error (e : ε) : Related R (.error e) (.error e)

namespace Except.Related

variable {ε α β γ δ : Type} {R : α → β → Prop} {S : γ → δ → Prop} {x : Except ε α} {y : Except ε β}

theorem bind {f : α → Except ε γ} {g : β → Except ε δ} (h : Related R x y)
    (hfg : ∀ a b, R a b → Related S (f a) (g b)) : Related S (x >>= f) (y >>= g) := by
  cases h with
  | ok h => exact hfg _ _ h
  | error e => exact .error e

theorem bind_left {f : α → Except ε γ} {S : γ → β → Prop} (h : Related R x y)
    (hf : ∀ a b, R a b → Related S (f a) (.ok b)) : Related S (x >>= f) y := by
  cases h with
  | ok h => exact hf _ _ h
  | error e => exact .error e

theorem bind_same {f : α → Except ε γ} {g : α → Except ε δ}
    (hfg : ∀ a, x = .ok a → Related S (f a) (g a)) : Related S (x >>= f) (x >>= g) := by
  cases x with
  | ok a => exact hfg a rfl
  | error e => exact .error e

theorem ite {c : Prop} [Decidable c] {x' : Except ε α} {y' : Except ε β} (h : c → Related R x y)
    (h' : ¬ c → Related R x' y') : Related R (if c then x else x') (if c then y else y') := by
  split_ifs with hc
  · exact h hc
  · exact h' hc

theorem of_ok {a : α} (h : Related R x y) (hx : x = .ok a) : ∃ b, y = .ok b ∧ R a b := by
  subst hx
  cases h with
  | ok h => exact ⟨_, rfl, h⟩

theorem ok_of {b : β} (h : Related R x y) (hy : y = .ok b) : ∃ a, x = .ok a ∧ R a b := by
  subst hy
  cases h with
  | ok h => exact ⟨_, rfl, h⟩

end Except.Related
