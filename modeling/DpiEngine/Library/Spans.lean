import Mathlib.Data.List.DropRight
import Mathlib.Data.List.TakeWhile

/-! # Spans of a text

The leading elements of a text that meet a condition, what is behind them, and a
text without its trailing elements that do.
-/

namespace Spans

variable {α : Type*} {p : α → Bool} {w rest : List α}

theorem drop_length_takeWhile (p : α → Bool) (l : List α) :
    l.drop (l.takeWhile p).length = l.dropWhile p := by
  induction l with
  | nil => rfl
  | cons a l ih =>
    by_cases h : p a = true
    · rw [List.takeWhile_cons_of_pos h, List.dropWhile_cons_of_pos h, List.length_cons,
        List.drop_succ_cons, ih]
    · rw [List.takeWhile_cons_of_neg h, List.dropWhile_cons_of_neg h, List.length_nil,
        List.drop_zero]

theorem take_length_of_isPrefix {front l : List α} (h : front <+: l) :
    l.take front.length = front := (List.prefix_iff_eq_take.mp h).symm

theorem takeWhile_append_stop (hw : ∀ c ∈ w, p c = true)
    (hrest : ∀ c, rest.head? = some c → p c = false) : (w ++ rest).takeWhile p = w := by
  rw [List.takeWhile_append_of_pos hw]
  cases rest with
  | nil => rw [List.takeWhile_nil, List.append_nil]
  | cons c rest =>
    rw [List.takeWhile_cons_of_neg (by simp [hrest c rfl]), List.append_nil]

theorem dropWhile_append_stop (hw : ∀ c ∈ w, p c = true)
    (hrest : ∀ c, rest.head? = some c → p c = false) : (w ++ rest).dropWhile p = rest := by
  rw [List.dropWhile_append_of_pos hw]
  cases rest with
  | nil => rfl
  | cons c rest => rw [List.dropWhile_cons_of_neg (by simp [hrest c rfl])]

theorem rdropWhile_append_stop (hrest : ∀ c ∈ rest, p c = true)
    (hw : ∀ c, w.getLast? = some c → p c = false) : (w ++ rest).rdropWhile p = w := by
  rw [List.rdropWhile, List.reverse_append, dropWhile_append_stop, List.reverse_reverse]
  · intro c hc
    exact hrest c (List.mem_reverse.mp hc)
  · intro c hc
    exact hw c (by rwa [List.head?_reverse] at hc)

theorem rdropWhile_append_cons {c : α} (hc : p c = false) (w rest : List α) :
    (w ++ c :: rest).rdropWhile p = w ++ c :: rest.rdropWhile p := by
  have hsplit : w ++ c :: rest = (w ++ c :: rest.rdropWhile p) ++ rest.rtakeWhile p := by
    rw [List.append_assoc, List.cons_append, List.rdropWhile_append_rtakeWhile]
  rw [hsplit]
  refine rdropWhile_append_stop (fun b hb => List.mem_rtakeWhile_imp hb) fun b hb => ?_
  by_cases hnil : rest.rdropWhile p = []
  · rw [hnil, List.getLast?_append_of_ne_nil _ (by simp)] at hb
    obtain rfl := Option.some_inj.mp hb
    exact hc
  · rw [List.getLast?_append_of_ne_nil _ (by simp), List.getLast?_cons_of_ne_nil hnil,
      List.getLast?_eq_some_getLast hnil, Option.some_inj] at hb
    have hlast := List.rdropWhile_last_not p rest hnil
    rw [hb] at hlast
    exact Bool.eq_false_iff.mpr hlast

end Spans
