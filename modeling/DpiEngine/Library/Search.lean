import Mathlib.Data.List.Basic
import Mathlib.Tactic.Ring

/-! # Searching lists

Binary search for the first element of a list that is not below a value. On a
list whose elements below the value form a prefix, the search returns the
length of that prefix. A scan with fuel reaches the first position that stops it. The
first match of a table agrees with its highest match where the matches that stand
in the other order agree. What a cut of a sorted list leaves out comes behind all
that it keeps.
-/

namespace Search

variable {α : Type*}

/-- Halve the range of `len` positions from `first` until it is empty. -/
def halving (below : ℕ → Bool) : ℕ → ℕ → ℕ → ℕ
  | 0, first, _ => first
  | fuel + 1, first, len =>
    if len = 0 then first
    else if below (first + len / 2) then
      halving below fuel (first + len / 2 + 1) (len - len / 2 - 1)
    else halving below fuel first (len / 2)

def lowerBound (lt : α → α → Bool) (l : List α) (x : α) : ℕ :=
  halving (fun i => l[i]?.any (lt · x)) l.length 0 l.length

/-- The search finds the boundary of a predicate that holds exactly below it. -/
theorem halving_eq {below : ℕ → Bool} {k : ℕ} : ∀ {fuel first len : ℕ}, len ≤ fuel →
    first ≤ k → k ≤ first + len →
    (∀ i, first ≤ i → i < first + len → (below i = true ↔ i < k)) →
    halving below fuel first len = k
  | 0, first, len, hf, hk, hk', _ => by
    simp only [halving]; omega
  | fuel + 1, first, len, hf, hk, hk', hb => by
    unfold halving
    split_ifs with h₀ h₁
    · omega
    · have hm := (hb _ (by omega) (by omega)).mp h₁
      exact halving_eq (by omega) (by omega) (by omega) fun i hi hi' => hb i (by omega) (by omega)
    · have hm := mt (hb _ (by omega) (by omega)).mpr h₁
      exact halving_eq (by omega) (by omega) (by omega) fun i hi hi' => hb i (by omega) (by omega)

theorem halving_le {below : ℕ → Bool} : ∀ {fuel first len : ℕ},
    halving below fuel first len ≤ first + len
  | 0, first, len => by simp [halving]
  | fuel + 1, first, len => by
    unfold halving
    split_ifs
    · omega
    · exact halving_le.trans (by omega)
    · exact halving_le.trans (by omega)

theorem lowerBound_le (lt : α → α → Bool) (l : List α) (x : α) : lowerBound lt l x ≤ l.length := by
  have h := @halving_le (fun i => l[i]?.any (lt · x)) l.length 0 l.length
  rwa [Nat.zero_add] at h

theorem lowerBound_append {lt : α → α → Bool} {l₁ l₂ : List α} {x : α}
    (h₁ : ∀ a ∈ l₁, lt a x = true) (h₂ : ∀ a ∈ l₂, lt a x = false) :
    lowerBound lt (l₁ ++ l₂) x = l₁.length := by
  refine halving_eq le_rfl (Nat.zero_le _) (by simp) fun i _ hi => ?_
  by_cases hl : i < l₁.length
  · have := h₁ _ (List.getElem_mem hl)
    simp [List.getElem?_append_left hl, this, hl]
  · have hl' : i - l₁.length < l₂.length := by simp at hi; omega
    have := h₂ _ (List.getElem_mem hl')
    simp [List.getElem?_append_right (by omega : l₁.length ≤ i),
      List.getElem?_eq_getElem hl', this, hl]

theorem lowerBound_map {β : Type*} {lt : α → α → Bool} {lt' : β → β → Bool} {f : α → β}
    {l : List α} {x : α} (h : ∀ a, lt' (f a) (f x) = lt a x) :
    lowerBound lt' (l.map f) (f x) = lowerBound lt l x := by
  have hany (i : ℕ) : (l.map f)[i]?.any (lt' · (f x)) = l[i]?.any (lt · x) := by
    rw [List.getElem?_map, Option.any_map]
    congr 1
    ext a
    exact h a
  simp only [lowerBound, hany, List.length_map]

theorem exists_split {f : α → ℕ} {l : List α} (hl : l.Pairwise (f · < f ·)) (x : ℕ) :
    ∃ l₁ l₂, l = l₁ ++ l₂ ∧ (∀ t ∈ l₁, f t < x) ∧ ∀ t ∈ l₂, x ≤ f t := by
  induction l with
  | nil => exact ⟨[], [], rfl, by simp, by simp⟩
  | cons s l ih =>
    obtain ⟨hs, hl⟩ := List.pairwise_cons.mp hl
    rcases Nat.lt_or_ge (f s) x with h | h
    · obtain ⟨l₁, l₂, rfl, h₁, h₂⟩ := ih hl
      exact ⟨s :: l₁, l₂, rfl, by simpa [h] using h₁, h₂⟩
    · refine ⟨[], s :: l, rfl, by simp, fun t ht => ?_⟩
      rcases List.mem_cons.mp ht with rfl | ht
      · exact h
      · exact h.trans (hs t ht).le

theorem exists_split_lt {f : α → ℕ} {l : List α} (hl : l.Pairwise (f · < f ·)) (x : ℕ) :
    ∃ l₁ l₂, (∀ t ∈ l₁, f t < x) ∧ (∀ t ∈ l₂, x < f t) ∧
      (l = l₁ ++ l₂ ∨ ∃ old, f old = x ∧ l = l₁ ++ old :: l₂) := by
  obtain ⟨l₁, l₂, rfl, h₁, h₂⟩ := exists_split hl x
  have hsorted := (List.pairwise_append.mp hl).2.1
  cases l₂ with
  | nil => exact ⟨l₁, [], h₁, by simp, .inl rfl⟩
  | cons old l =>
    obtain ⟨hold, -⟩ := List.pairwise_cons.mp hsorted
    rcases Nat.eq_or_lt_of_le (h₂ old List.mem_cons_self) with rfl | hlt
    · exact ⟨l₁, l, h₁, hold, .inr ⟨old, rfl, rfl⟩⟩
    · refine ⟨l₁, old :: l, h₁, ?_, .inl rfl⟩
      rintro t ht
      rcases List.mem_cons.mp ht with rfl | ht
      · exact hlt
      · exact hlt.trans (hold t ht)

section Scan

variable {β : Type*} {f : ℕ → ℕ → β} {fuel i j : ℕ}

theorem exists_scan (hnext : ∀ fuel k, i ≤ k → k < j → f (fuel + 1) k = f fuel (k + 1))
    (hij : i ≤ j) (hfuel : j < i + fuel) : ∃ fuel', f fuel i = f (fuel' + 1) j := by
  induction fuel generalizing i with
  | zero => omega
  | succ fuel ih =>
    rcases Nat.eq_or_lt_of_le hij with rfl | hlt
    · exact ⟨fuel, rfl⟩
    · rw [hnext fuel i le_rfl hlt]
      exact ih (fun fuel k hk => hnext fuel k (by omega)) hlt (by omega)

theorem scan_end {d : β} (hzero : ∀ k, f 0 k = d)
    (hnext : ∀ fuel k, i ≤ k → f (fuel + 1) k = f fuel (k + 1) ∨ f (fuel + 1) k = d) :
    f fuel i = d := by
  induction fuel generalizing i with
  | zero => exact hzero i
  | succ fuel ih =>
    rcases hnext fuel i le_rfl with h | h
    · rw [h]
      exact ih fun fuel k hk => hnext fuel k (by omega)
    · exact h

end Scan

section FirstMatch

variable {β : Type*} {p : α → Bool} {f : α → β} {l : List α} {a b : α}

/-- A match before a higher one has its value: the first match has that of the highest. -/
theorem find?_eq_of_pairwise (rank : α → ℕ)
    (hl : l.Pairwise fun x y => p x → p y → rank x ≤ rank y → f x = f y)
    (ha : l.find? p = some a) (hb : b ∈ l) (hp : p b = true)
    (hmax : ∀ c ∈ l, p c = true → rank c ≤ rank b) : f a = f b := by
  obtain ⟨hpa, front, back, rfl, hfront⟩ := List.find?_eq_some_iff_append.mp ha
  obtain ⟨-, hl, -⟩ := List.pairwise_append.mp hl
  rcases List.mem_append.mp hb with hb | hb
  · have := hfront b hb
    simp [hp] at this
  rcases List.mem_cons.mp hb with rfl | hb
  · rfl
  · exact (List.pairwise_cons.mp hl).1 b hb hpa hp (hmax a (by simp) hpa)

theorem exists_highest (p : α → Prop) (rank : α → ℕ) (l : List α) :
    (∃ a ∈ l, p a ∧ ∀ b ∈ l, p b → rank b ≤ rank a) ∨ ∀ a ∈ l, ¬ p a := by
  induction l with
  | nil => exact .inr (by simp)
  | cons c l ih =>
    by_cases hc : p c
    · refine .inl ?_
      rcases ih with ⟨a, ha, hpa, hmax⟩ | hnone
      · rcases Nat.le_total (rank c) (rank a) with hle | hle
        · exact ⟨a, List.mem_cons_of_mem _ ha, hpa, by simpa [hle] using hmax⟩
        · exact ⟨c, List.mem_cons_self, hc, by simpa using fun b hb hp => (hmax b hb hp).trans hle⟩
      · exact ⟨c, List.mem_cons_self, hc, by simpa using fun b hb hp => absurd hp (hnone b hb)⟩
    · rcases ih with ⟨a, ha, hpa, hmax⟩ | hnone
      · exact .inl ⟨a, List.mem_cons_of_mem _ ha, hpa, by simpa [hc] using hmax⟩
      · exact .inr (by simpa [hc] using hnone)

end FirstMatch

theorem behind_of_notMem_take {r : α → α → Prop} {l : List α} {n : ℕ} {x : α} (hl : l.Pairwise r)
    (hx : x ∈ l) (hout : x ∉ l.take n) : (l.take n).length = n ∧ ∀ y ∈ l.take n, r y x := by
  rw [← List.take_append_drop n l] at hl hx
  have hrest := (List.mem_append.mp hx).resolve_left hout
  have hlong := List.length_pos_of_mem hrest
  rw [List.length_drop] at hlong
  constructor
  · rw [List.length_take]
    omega
  · exact fun y hy => (List.pairwise_append.mp hl).2.2 y hy x hrest

theorem insertIdx_length_append (l₁ l₂ : List α) (a : α) :
    (l₁ ++ l₂).insertIdx l₁.length a = l₁ ++ a :: l₂ := by
  induction l₁ with
  | nil => simp
  | cons b l ih => simp [ih]

theorem set_length_append (l₁ l₂ : List α) (a b : α) :
    (l₁ ++ a :: l₂).set l₁.length b = l₁ ++ b :: l₂ := by
  simp

end Search
