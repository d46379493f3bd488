import Mathlib.Data.List.Perm.Subperm
import Mathlib.Order.Nat

/-! # Lines of a text

A text is read line by line. What stands behind the last separator is a line of
its own unless it is empty. The length of a text counts its lines and what they
hold: a reader that drops or cuts lines gives a shorter text.
-/

namespace Lines

variable {α : Type*} {sep : α}

/-- Entries written as one line each. -/
def unlines (sep : α) (es : List (List α)) : List α := es.flatMap (· ++ [sep])

theorem unlines_append (es es' : List (List α)) :
    unlines sep (es ++ es') = unlines sep es ++ unlines sep es' := List.flatMap_append

section Length

variable {es es' : List (List α)}

theorem length_unlines_cons (e : List α) (es : List (List α)) :
    (unlines sep (e :: es)).length = e.length + 1 + (unlines sep es).length := by
  simp [unlines]
  omega

theorem length_unlines_perm (h : es.Perm es') :
    (unlines sep es).length = (unlines sep es').length := (h.flatMap_right _).length_eq

theorem length_unlines_sublist (sep : α) (h : es.Sublist es') :
    (unlines sep es).length ≤ (unlines sep es').length := by
  induction h with
  | slnil => exact le_rfl
  | cons e _ ih =>
    rw [length_unlines_cons]
    omega
  | cons_cons e _ ih =>
    rw [length_unlines_cons, length_unlines_cons]
    omega

theorem length_unlines_subperm (sep : α) (h : es.Subperm es') :
    (unlines sep es).length ≤ (unlines sep es').length := by
  obtain ⟨l, hperm, hsub⟩ := h
  exact (length_unlines_perm hperm).symm.le.trans (length_unlines_sublist sep hsub)

theorem eq_of_sublist (h : es.Sublist es')
    (hlen : (unlines sep es').length ≤ (unlines sep es).length) : es = es' := by
  induction h with
  | slnil => rfl
  | cons e h ih =>
    have hle := length_unlines_sublist sep h
    rw [length_unlines_cons] at hlen
    omega
  | cons_cons e h ih =>
    rw [length_unlines_cons, length_unlines_cons] at hlen
    rw [ih (by omega)]

theorem length_unlines_map (sep : α) {f : List α → List α} (hf : ∀ e, (f e).length ≤ e.length)
    (es : List (List α)) : (unlines sep (es.map f)).length ≤ (unlines sep es).length := by
  induction es with
  | nil => exact le_rfl
  | cons e es ih =>
    have he := hf e
    rw [List.map_cons, length_unlines_cons, length_unlines_cons]
    omega

theorem length_eq_of_map {f : List α → List α} (hf : ∀ e, (f e).length ≤ e.length)
    (hlen : (unlines sep es).length ≤ (unlines sep (es.map f)).length) :
    ∀ e ∈ es, (f e).length = e.length := by
  induction es with
  | nil => exact fun _ he => absurd he List.not_mem_nil
  | cons e es ih =>
    have he := hf e
    have hes := length_unlines_map sep hf es
    rw [List.map_cons, length_unlines_cons, length_unlines_cons] at hlen
    rw [List.forall_mem_cons]
    exact ⟨by omega, ih (by omega)⟩

end Length

/-! ### Starts of lines -/

theorem getLast?_unlines {es : List (List α)} (h : es ≠ []) :
    (unlines sep es).getLast? = some sep := by
  obtain ⟨front, e, rfl⟩ := (List.eq_nil_or_concat' es).resolve_left h
  simp [unlines]

theorem exists_line_behind {es : List (List α)} (hes : ∀ e ∈ es, sep ∉ e) (rest : List α) {p : ℕ}
    (hpos : 1 ≤ p) (hsep : (unlines sep es ++ rest)[p - 1]? = some sep)
    (hp : p < (unlines sep es).length) :
    ∃ e ∈ es.tail, ∃ back, (unlines sep es ++ rest).drop p = e ++ sep :: back := by
  induction es generalizing p with
  | nil => exact absurd hp (Nat.not_lt_zero p)
  | cons e es ih =>
    rw [List.forall_mem_cons] at hes
    have hcons : unlines sep (e :: es) ++ rest = e ++ sep :: (unlines sep es ++ rest) := by
      simp [unlines]
    have hlen : (unlines sep (e :: es)).length = e.length + 1 + (unlines sep es).length :=
      length_unlines_cons e es
    rw [hcons] at hsep ⊢
    rw [hlen] at hp
    rcases Nat.lt_trichotomy (p - 1) e.length with hlt | heq | hgt
    · rw [List.getElem?_append_left hlt] at hsep
      exact absurd (List.mem_of_getElem? hsep) hes.1
    · have hdrop : (e ++ sep :: (unlines sep es ++ rest)).drop p = unlines sep es ++ rest := by
        have hp' : p = e.length + 1 := by omega
        rw [hp', ← List.drop_drop, List.drop_left, List.drop_one, List.tail_cons]
      cases es with
      | nil =>
        simp [unlines] at hp
        omega
      | cons e' es =>
        refine ⟨e', List.mem_cons_self, unlines sep es ++ rest, ?_⟩
        rw [hdrop]
        simp [unlines]
    · obtain ⟨q, rfl⟩ : ∃ q, p = e.length + 1 + q := ⟨p - (e.length + 1), by omega⟩
      have hdrop : (e ++ sep :: (unlines sep es ++ rest)).drop (e.length + 1 + q) =
          (unlines sep es ++ rest).drop q := by
        rw [← List.drop_drop, ← List.drop_drop, List.drop_left, List.drop_one, List.tail_cons]
      have hget : (unlines sep es ++ rest)[q - 1]? = some sep := by
        rw [List.getElem?_append_right (by omega)] at hsep
        obtain ⟨n, hn⟩ : ∃ n, e.length + 1 + q - 1 - e.length = n + 1 := ⟨q - 1, by omega⟩
        rw [hn, List.getElem?_cons_succ] at hsep
        rwa [show q - 1 = n by omega]
      obtain ⟨e', he', back, hback⟩ := ih hes.2 (by omega) hget (by omega)
      exact ⟨e', List.mem_of_mem_tail he', back, hdrop.trans hback⟩

variable [DecidableEq α]

/-- The lines that are read from a text. -/
def lines (sep : α) : List α → List (List α)
  | [] => []
  | c :: text =>
    if c = sep then [] :: lines sep text
    else match lines sep text with
      | [] => [[c]]
      | l :: ls => (c :: l) :: ls

theorem lines_append (e text : List α) :
    lines sep (e ++ sep :: text) = e.splitOn sep ++ lines sep text := by
  induction e with
  | nil => simp [lines]
  | cons c e ih =>
    rw [List.cons_append, lines, List.splitOn_cons_eq_if_modifyHead, ih]
    by_cases hc : c = sep
    · simp [hc]
    · obtain ⟨l, ls, hl⟩ := List.exists_cons_of_ne_nil (List.splitOn_ne_nil sep e)
      simp [hc, hl]

theorem lines_unlines_append (es : List (List α)) (text : List α) :
    lines sep (unlines sep es ++ text) = es.flatMap (·.splitOn sep) ++ lines sep text := by
  induction es with
  | nil => rfl
  | cons e es ih =>
    have hcons : unlines sep (e :: es) ++ text = e ++ sep :: (unlines sep es ++ text) := by
      simp [unlines]
    rw [hcons, lines_append, ih, List.flatMap_cons, List.append_assoc]

theorem lines_unlines (es : List (List α)) :
    lines sep (unlines sep es) = es.flatMap (·.splitOn sep) := by
  have h : lines sep (unlines sep es ++ []) = es.flatMap (·.splitOn sep) ++ lines sep [] :=
    lines_unlines_append es []
  rwa [lines, List.append_nil, List.append_nil] at h

theorem flatMap_splitOn {es : List (List α)} (h : ∀ e ∈ es, sep ∉ e) :
    es.flatMap (·.splitOn sep) = es := by
  induction es with
  | nil => rfl
  | cons e es ih =>
    rw [List.forall_mem_cons] at h
    rw [List.flatMap_cons, List.splitOn_eq_singleton h.1, ih h.2, List.singleton_append]

theorem not_mem_of_mem_splitOn {s l : List α} (h : l ∈ s.splitOn sep) : sep ∉ l := by
  induction s generalizing l with
  | nil =>
    obtain rfl := List.mem_singleton.mp h
    exact List.not_mem_nil
  | cons c s ih =>
    rw [List.splitOn_cons_eq_if_modifyHead] at h
    by_cases hc : c = sep
    · rw [if_pos (by simp [hc])] at h
      rcases List.mem_cons.mp h with rfl | h
      · exact List.not_mem_nil
      · exact ih h
    · obtain ⟨l', ls, hl⟩ := List.exists_cons_of_ne_nil (List.splitOn_ne_nil sep s)
      rw [if_neg (by simp [hc]), hl, List.modifyHead_cons] at h
      rw [hl] at ih
      rcases List.mem_cons.mp h with rfl | h
      · rw [List.mem_cons, not_or]
        exact ⟨Ne.symm hc, ih List.mem_cons_self⟩
      · exact ih (List.mem_cons_of_mem _ h)

/-! ### The text of lines -/

theorem unlines_splitOn (s : List α) : unlines sep (s.splitOn sep) = s ++ [sep] := by
  induction s with
  | nil => rfl
  | cons c s ih =>
    rw [List.splitOn_cons_eq_if_modifyHead]
    by_cases hc : c = sep
    · subst hc
      simpa [unlines] using ih
    · obtain ⟨l, ls, hl⟩ := List.exists_cons_of_ne_nil (List.splitOn_ne_nil sep s)
      rw [hl] at ih
      simpa [hc, hl, unlines] using ih

theorem mem_of_mem_splitOn {s l : List α} (h : l ∈ s.splitOn sep) : ∀ c ∈ l, c ∈ s := by
  rintro c hc
  have hmem : c ∈ unlines sep (s.splitOn sep) :=
    List.mem_flatMap.mpr ⟨l, h, List.mem_append_left _ hc⟩
  rw [unlines_splitOn] at hmem
  rcases List.mem_append.mp hmem with hs | hs
  · exact hs
  · obtain rfl := List.mem_singleton.mp hs
    exact absurd hc (not_mem_of_mem_splitOn h)

theorem unlines_flatMap_splitOn (es : List (List α)) :
    unlines sep (es.flatMap (·.splitOn sep)) = unlines sep es := by
  induction es with
  | nil => rfl
  | cons e es ih =>
    rw [List.flatMap_cons, unlines_append, unlines_splitOn, ih]
    rfl

end Lines
