import Mathlib.Data.List.Basic

/-! # Digits of numbers

A number without its last digit has the digits in front of it. Only zero starts
with the digit zero.
-/

namespace Digits

variable {b n : ℕ}

theorem induction {P : ℕ → Prop} (b : ℕ) (hb : 1 < b) (one : ∀ n < b, P n)
    (more : ∀ n, b ≤ n → P (n / b) → P n) (n : ℕ) : P n := by
  induction n using Nat.strongRecOn with
  | ind n ih =>
    rcases Nat.lt_or_ge n b with h | h
    · exact one n h
    · exact more n h (ih (n / b) (Nat.div_lt_self (by omega) hb))

theorem exists_digitChar (hb : 1 < b) {c : Char} (h : c ∈ Nat.toDigits b n) :
    ∃ d < b, d.digitChar = c := by
  induction n using induction b hb with
  | one n hn =>
    rw [Nat.toDigits_of_lt_base hn, List.mem_singleton] at h
    exact ⟨n, hn, h.symm⟩
  | more n hn ih =>
    rw [Nat.toDigits_of_base_le hb hn, List.mem_append, List.mem_singleton] at h
    rcases h with h | rfl
    · exact ih h
    · exact ⟨n % b, Nat.mod_lt n (by omega), rfl⟩

theorem eq_zero_of_digitChar {d : ℕ} (hd : d < 16) (h : d.digitChar = '0') : d = 0 := by
  revert d
  decide

theorem eq_zero_of_head (hb : 1 < b) (hmax : b ≤ 16)
    (h : (Nat.toDigits b n).head? = some '0') : n = 0 := by
  induction n using induction b hb with
  | one n hn =>
    rw [Nat.toDigits_of_lt_base hn] at h
    exact eq_zero_of_digitChar (by omega) (Option.some.inj h)
  | more n hn ih =>
    rw [Nat.toDigits_of_base_le hb hn,
      List.head?_append_of_ne_nil _ Nat.toDigits_ne_nil] at h
    have hpos : 0 < n / b := Nat.div_pos hn (by omega)
    have := ih h
    omega

end Digits
