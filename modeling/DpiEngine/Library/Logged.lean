import Mathlib.Data.List.Basic

/-! # Logged computations

A computation together with the operations it performs, in their order. A
condition holds of all operations of a composed computation if it holds of
those of its parts.
-/

/-- A value and the operations that led to it. -/
structure Logged (ω α : Type*) where
  log : List ω
  value : α

namespace Logged

universe u v

variable {ω : Type v} {α β : Type u} {P Q : ω → Prop}

instance : Monad (Logged ω) where
  pure a := ⟨[], a⟩
  bind x f := ⟨x.log ++ (f x.value).log, (f x.value).value⟩

@[simp] theorem value_pure (a : α) : (pure a : Logged ω α).value = a := rfl

@[simp] theorem value_bind (x : Logged ω α) (f : α → Logged ω β) :
    (x >>= f).value = (f x.value).value := rfl

theorem value_ite {c : Prop} [Decidable c] (x y : Logged ω α) :
    (if c then x else y).value = if c then x.value else y.value := by
  split_ifs <;> rfl

def perform (op : ω) (a : α) : Logged ω α := ⟨[op], a⟩

@[simp] theorem value_perform (op : ω) (a : α) : (perform op a).value = a := rfl

/-- The condition holds of every operation of the computation. -/
def Always (P : ω → Prop) (x : Logged ω α) : Prop := ∀ op ∈ x.log, P op

@[simp] theorem always_pure (a : α) : Always P (pure a : Logged ω α) :=
  fun _ h => absurd h List.not_mem_nil

@[simp] theorem always_perform {op : ω} {a : α} : Always P (perform op a) ↔ P op := by
  simp [Always, perform]

theorem always_bind {x : Logged ω α} {f : α → Logged ω β} :
    Always P (x >>= f) ↔ Always P x ∧ Always P (f x.value) := by
  change (∀ op ∈ x.log ++ (f x.value).log, P op) ↔ _
  simp only [List.mem_append, or_imp, forall_and, Always]

theorem Always.andThen {x : Logged ω α} {f : α → Logged ω β} (hx : Always P x)
    (hf : Always P (f x.value)) : Always P (x >>= f) := always_bind.mpr ⟨hx, hf⟩

theorem always_perform_bind {op : ω} {a : α} {f : α → Logged ω β} :
    Always P (perform op a >>= f) ↔ P op ∧ Always P (f a) := by
  rw [always_bind, always_perform, value_perform]

theorem always_ite {c : Prop} [Decidable c] {x y : Logged ω α} (hx : c → Always P x)
    (hy : ¬ c → Always P y) : Always P (if c then x else y) := by
  split_ifs with h
  · exact hx h
  · exact hy h

end Logged
