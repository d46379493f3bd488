import Mathlib.Algebra.BigOperators.Group.List.Basic
import Mathlib.Algebra.Order.BigOperators.Group.List
import Mathlib.Algebra.Order.Ring.Nat
import Mathlib.Data.List.AList

/-! # Weights of tables

Every entry of a table has a weight. The weight of the table changes with one
entry by the difference of the weights of the entry, and an entry that is
removed takes its weight with it.
-/

namespace AList

variable {α β : Type*} [DecidableEq α] {s s' : AList fun _ : α => β} {a : α}

def weight (w : β → ℕ) (s : AList fun _ : α => β) : ℕ := (s.entries.map fun e => w e.2).sum

def weightAt (w : β → ℕ) (s : AList fun _ : α => β) (a : α) : ℕ := ((s.lookup a).map w).getD 0

variable {w : β → ℕ}

theorem weightAt_of_notMem (h : a ∉ s) : weightAt w s a = 0 := by
  rw [weightAt, lookup_eq_none.mpr h]
  rfl

theorem weight_eq_of_lookup (h : ∀ q, s'.lookup q = s.lookup q) : weight w s' = weight w s := by
  have hperm : s'.entries.Perm s.entries := by
    refine List.lookup_ext s'.nodupKeys s.nodupKeys fun q b => ?_
    change b ∈ s'.lookup q ↔ b ∈ s.lookup q
    rw [h q]
  exact (hperm.map fun e => w e.2).sum_eq

theorem weight_erase_add (s : AList fun _ : α => β) (a : α) :
    weight w (s.erase a) + weightAt w s a = weight w s := by
  by_cases hmem : a ∈ s
  · obtain ⟨b, l₁, l₂, -, hl, hkerase⟩ := List.exists_of_kerase (mem_keys.mp hmem)
    have hlookup : s.lookup a = some b := by
      rw [← Option.mem_def, mem_lookup_iff, hl]
      simp
    have herase : (s.erase a).entries = l₁ ++ l₂ := hkerase
    rw [weight, herase, weightAt, hlookup, weight, hl]
    simp only [List.map_append, List.sum_append, List.map_cons, List.sum_cons, Option.map_some,
      Option.getD_some]
    omega
  · have herase : (s.erase a).entries = s.entries :=
      List.kerase_of_notMem_keys fun h => hmem (mem_keys.mpr h)
    rw [weight, herase, weightAt_of_notMem hmem, Nat.add_zero, weight]

theorem weight_of_lookup_ne (h : ∀ q, q ≠ a → s'.lookup q = s.lookup q) :
    weight w s' + weightAt w s a = weight w s + weightAt w s' a := by
  have hsame : weight w (s'.erase a) = weight w (s.erase a) := by
    refine weight_eq_of_lookup fun q => ?_
    by_cases hq : q = a
    · subst hq
      rw [lookup_erase, lookup_erase]
    · rw [lookup_erase_ne hq, lookup_erase_ne hq, h q hq]
  have h₁ := weight_erase_add (w := w) s a
  have h₂ := weight_erase_add (w := w) s' a
  omega

end AList

namespace List

variable {α : Type*} {l : List α} {f g : α → ℕ}

theorem sum_map_filter_add (p : α → Bool) (l : List α) :
    ((l.filter p).map f).sum + ((l.filter fun a => !p a).map f).sum = (l.map f).sum := by
  induction l with
  | nil => rfl
  | cons a l ih =>
    cases h : p a with
    | true => simp only [filter_cons, h, Bool.not_true, if_true, Bool.false_eq_true, if_false,
        map_cons, sum_cons, ← ih, Nat.add_assoc]
    | false =>
      simp only [filter_cons, h, Bool.not_false, if_true, Bool.false_eq_true, if_false,
        map_cons, sum_cons, ← ih]
      omega

/-- Sums of numbers that are pairwise at most equal agree only if all numbers do. -/
theorem sum_map_eq_iff (h : ∀ a ∈ l, f a ≤ g a) :
    (l.map f).sum = (l.map g).sum ↔ ∀ a ∈ l, f a = g a := by
  induction l with
  | nil => simp
  | cons a l ih =>
    obtain ⟨ha, hl⟩ := forall_mem_cons.mp h
    have hle : (l.map f).sum ≤ (l.map g).sum := sum_le_sum hl
    rw [forall_mem_cons, ← ih hl, map_cons, map_cons, sum_cons, sum_cons]
    constructor
    · intro heq
      constructor
      · omega
      · omega
    · rintro ⟨ha, hl⟩
      omega

end List
