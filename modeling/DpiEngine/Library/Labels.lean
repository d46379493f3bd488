import Mathlib.Data.List.Infix

/-! # Labels joined by a separator

Lists of labels that do not contain the separator are determined by their joined
text, and the text ends in another one behind a separator exactly when the labels
end in its labels. The texts that cover one text cover each other.
-/

namespace Labels

variable {α : Type*} {sep : α} {xs ys : List (List α)}

section Covers

variable {apex inner host : List α}

/-- The text is the apex, or ends in it behind a separator. -/
def Covers (sep : α) (apex host : List α) : Prop := host = apex ∨ sep :: apex <:+ host

theorem Covers.length_le (h : Covers sep apex host) : apex.length ≤ host.length := by
  rcases h with rfl | h
  · exact le_rfl
  · exact Nat.le_of_succ_le h.length_le

theorem Covers.of_length_le (hapex : Covers sep apex host) (hinner : Covers sep inner host)
    (hle : apex.length ≤ inner.length) : Covers sep apex inner := by
  rcases hinner with rfl | hinner
  · exact hapex
  rcases hapex with rfl | hapex
  · have hlt := hinner.length_le
    rw [List.length_cons] at hlt
    omega
  · have hsuffix := List.suffix_of_suffix_length_le hapex hinner (by simpa using hle)
    rcases List.suffix_cons_iff.mp hsuffix with heq | h
    · exact .inl (List.cons_injective heq).symm
    · exact .inr h

theorem cons_suffix_iff_getElem? (hlt : apex.length < host.length) :
    sep :: apex <:+ host ↔ host[host.length - apex.length - 1]? = some sep ∧
      host.drop (host.length - apex.length - 1 + 1) = apex := by
  constructor
  · rintro ⟨front, rfl⟩
    have hlen : (front ++ sep :: apex).length - apex.length - 1 = front.length := by
      rw [List.length_append, List.length_cons]
      omega
    simp only [hlen]
    simp
  · rintro ⟨hsep, hdrop⟩
    obtain ⟨hpos, hsep⟩ := List.getElem?_eq_some_iff.mp hsep
    have hcons : host.drop (host.length - apex.length - 1) = sep :: apex := by
      rw [List.drop_eq_getElem_cons hpos, hsep, hdrop]
    exact hcons ▸ List.drop_suffix _ host

end Covers

theorem intercalate_append (hx : xs ≠ []) (hy : ys ≠ []) :
    [sep].intercalate (xs ++ ys) = [sep].intercalate xs ++ sep :: [sep].intercalate ys := by
  induction xs with
  | nil => exact absurd rfl hx
  | cons l xs ih =>
    cases xs with
    | nil => simp [List.intercalate_cons_of_ne_nil hy]
    | cons l' xs =>
      have h := ih (List.cons_ne_nil _ _)
      rw [List.cons_append] at h
      rw [List.cons_append, List.cons_append, List.intercalate_cons_cons, h,
        List.intercalate_cons_cons]
      simp

theorem map_intercalate {β : Type*} (f : α → β) :
    ([sep].intercalate xs).map f = [f sep].intercalate (xs.map (·.map f)) := by
  induction xs with
  | nil => rfl
  | cons l xs ih =>
    cases xs with
    | nil => simp
    | cons l' xs => simpa using ih

theorem of_mem_intercalate {c : α} (h : c ∈ [sep].intercalate xs) :
    c = sep ∨ ∃ l ∈ xs, c ∈ l := by
  induction xs with
  | nil => exact absurd h List.not_mem_nil
  | cons l xs ih =>
    rcases xs.eq_nil_or_concat' with rfl | ⟨_, _, rfl⟩
    · exact .inr ⟨l, List.mem_cons_self, by simpa using h⟩
    · rw [List.intercalate_cons_of_ne_nil (by simp), List.append_assoc] at h
      rcases List.mem_append.mp h with h | h
      · exact .inr ⟨l, List.mem_cons_self, h⟩
      rcases List.mem_cons.mp h with rfl | h
      · exact .inl rfl
      rcases ih h with rfl | ⟨l', hl', hc⟩
      · exact .inl rfl
      · exact .inr ⟨l', List.mem_cons_of_mem _ hl', hc⟩

theorem intercalate_ne_nil (hxs : xs ≠ []) (hne : [] ∉ xs) : [sep].intercalate xs ≠ [] := by
  obtain ⟨l, xs, rfl⟩ := List.exists_cons_of_ne_nil hxs
  have hl : l ≠ [] := fun h => hne (h ▸ List.mem_cons_self)
  cases xs <;> simp [hl]

variable [DecidableEq α]

theorem intercalate_inj (hx : ∀ l ∈ xs, sep ∉ l) (hxs : xs ≠ []) (hy : ∀ l ∈ ys, sep ∉ l)
    (hys : ys ≠ []) (h : [sep].intercalate xs = [sep].intercalate ys) : xs = ys := by
  rw [← List.splitOn_intercalate sep hx hxs, h, List.splitOn_intercalate sep hy hys]

theorem splitOn_of_append {front back : List α} (hx : ∀ l ∈ xs, sep ∉ l) (hxs : xs ≠ [])
    (h : front ++ sep :: back = [sep].intercalate xs) :
    front.splitOn sep ++ back.splitOn sep = xs := by
  rw [← List.splitOn_append_cons_self, h, List.splitOn_intercalate sep hx hxs]

theorem head?_intercalate (hx : ∀ l ∈ xs, sep ∉ l) (hxs : xs ≠ []) (hne : [] ∉ xs) :
    ([sep].intercalate xs).head? ≠ some sep := by
  intro h
  obtain ⟨back, hback⟩ := List.head?_eq_some_iff.mp h
  have hcons : [] ++ sep :: back = [sep].intercalate xs := hback.symm
  have hsplit := splitOn_of_append hx hxs hcons
  exact hne (hsplit ▸ List.mem_append_left _ List.mem_cons_self)

theorem getLast?_intercalate (hx : ∀ l ∈ xs, sep ∉ l) (hxs : xs ≠ []) (hne : [] ∉ xs) :
    ([sep].intercalate xs).getLast? ≠ some sep := by
  intro h
  obtain ⟨front, hfront⟩ := List.getLast?_eq_some_iff.mp h
  have hsplit := splitOn_of_append hx hxs hfront.symm
  exact hne (hsplit ▸ List.mem_append_right _ List.mem_cons_self)

/-- The labels end in `ys` if and only if the text of `ys` covers the text. -/
theorem isSuffix_iff (hx : ∀ l ∈ xs, sep ∉ l) (hxs : xs ≠ []) (hy : ∀ l ∈ ys, sep ∉ l)
    (hys : ys ≠ []) :
    ys <:+ xs ↔ Covers sep ([sep].intercalate ys) ([sep].intercalate xs) := by
  constructor
  · rintro ⟨front, rfl⟩
    by_cases hf : front = []
    · subst hf
      exact .inl rfl
    · rw [intercalate_append hf hys]
      exact .inr (List.suffix_append _ _)
  · rintro (h | ⟨front, h⟩)
    · rw [intercalate_inj hx hxs hy hys h]
    · have hsplit := splitOn_of_append hx hxs h
      rw [List.splitOn_intercalate sep hy hys] at hsplit
      exact ⟨_, hsplit⟩

end Labels
