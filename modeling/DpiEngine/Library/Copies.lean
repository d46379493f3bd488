import Mathlib.Data.List.Infix

/-! # Copies of a thing

Adding makes a copy, removing takes one away if there is any. None is left exactly
when from every point on there are at least as many removals as additions.
-/

namespace Copies

variable {c : ℕ} {l : List Bool}

/-- The number of copies, from `c` of them, after additions and removals in order. -/
def left (c : ℕ) (l : List Bool) : ℕ := l.foldl (fun c added => if added then c + 1 else c - 1) c

@[simp] theorem left_nil (c : ℕ) : left c [] = c := rfl

@[simp] theorem left_true (c : ℕ) (l : List Bool) : left c (true :: l) = left (c + 1) l := rfl

@[simp] theorem left_false (c : ℕ) (l : List Bool) : left c (false :: l) = left (c - 1) l := rfl

theorem left_append (c : ℕ) (l l' : List Bool) : left c (l ++ l') = left (left c l) l' :=
  List.foldl_append

theorem left_eq_zero_iff : left c l = 0 ↔
    c + l.count true ≤ l.count false ∧ ∀ s, s <:+ l → s.count true ≤ s.count false := by
  induction l generalizing c with
  | nil => simp
  | cons added l ih =>
    have hself : (∀ s, s <:+ l → s.count true ≤ s.count false) → l.count true ≤ l.count false :=
      fun h => h l List.suffix_rfl
    have hcons : (∀ s, s <:+ added :: l → s.count true ≤ s.count false) ↔
        (added :: l).count true ≤ (added :: l).count false ∧
          ∀ s, s <:+ l → s.count true ≤ s.count false := by
      simp only [List.suffix_cons_iff, or_imp, forall_and, forall_eq]
    rw [hcons]
    cases added with
    | true =>
      simp only [left_true, ih, List.count_cons_self,
        List.count_cons_of_ne (by decide : true ≠ false)]
      constructor
      · rintro ⟨hle, h⟩
        exact ⟨by omega, by omega, h⟩
      · rintro ⟨hle, -, h⟩
        exact ⟨by omega, h⟩
    | false =>
      simp only [left_false, ih, List.count_cons_self,
        List.count_cons_of_ne (by decide : false ≠ true)]
      constructor
      · rintro ⟨hle, h⟩
        exact ⟨by omega, by have := hself h; omega, h⟩
      · rintro ⟨hle, -, h⟩
        exact ⟨by have := hself h; omega, h⟩

theorem left_zero_eq_zero_iff :
    left 0 l = 0 ↔ ∀ s, s <:+ l → s.count true ≤ s.count false := by
  rw [left_eq_zero_iff, Nat.zero_add, and_iff_right_of_imp]
  intro h
  exact h l List.suffix_rfl

theorem left_ne_zero_of_getLast? (h : l.getLast? = some true) : left c l ≠ 0 := by
  obtain ⟨front, rfl⟩ := List.getLast?_eq_some_iff.mp h
  rw [left_append, left_true, left_nil]
  exact Nat.succ_ne_zero _

end Copies
