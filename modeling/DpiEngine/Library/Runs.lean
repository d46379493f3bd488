import Mathlib.Data.List.Basic
import Mathlib.Data.List.Induction
import Mathlib.Tactic.Ring

/-! # Runs of a labelled step relation

A run lists the labels of its steps. What every step preserves holds at the end
of every run, and a run whose steps all meet a condition is a run of the
restricted relation.
-/

variable {σ α : Type*} {Step : σ → α → σ → Prop} {s t u : σ} {a : α} {l l' : List α}

inductive Run (Step : σ → α → σ → Prop) : σ → List α → σ → Prop where
  | nil (s : σ) : Run Step s [] s
  | cons {s t u : σ} {a : α} {l : List α} : Step s a t → Run Step t l u → Run Step s (a :: l) u

namespace Run

@[simp] theorem nil_iff : Run Step s [] t ↔ s = t := by
  constructor
  · intro h; cases h; rfl
  · rintro rfl; exact .nil _

@[simp] theorem cons_iff : Run Step s (a :: l) u ↔ ∃ t, Step s a t ∧ Run Step t l u := by
  constructor
  · intro h
    cases h with
    | cons hs hr => exact ⟨_, hs, hr⟩
  · rintro ⟨t, hs, hr⟩; exact .cons hs hr

theorem append_iff : Run Step s (l ++ l') u ↔ ∃ t, Run Step s l t ∧ Run Step t l' u := by
  induction l generalizing s with
  | nil => simp
  | cons a l ih =>
    simp only [List.cons_append, cons_iff, ih]
    constructor
    · rintro ⟨v, hs, t, hr, hr'⟩; exact ⟨t, ⟨v, hs, hr⟩, hr'⟩
    · rintro ⟨t, ⟨v, hs, hr⟩, hr'⟩; exact ⟨v, hs, t, hr, hr'⟩

/-- What holds at the start and is preserved by every step holds at the end. -/
theorem invariant {I : σ → Prop} (hstep : ∀ {s a t}, I s → Step s a t → I t)
    (h : Run Step s l t) (hs : I s) : I t := by
  induction h with
  | nil => exact hs
  | cons h _ ih => exact ih (hstep hs h)

theorem invariant_under {I J : σ → Prop} (hI : ∀ {s a t}, I s → Step s a t → I t)
    (hJ : ∀ {s a t}, I s → J s → Step s a t → J t) (h : Run Step s l t) (hi : I s) (hj : J s) :
    J t := by
  induction h with
  | nil => exact hj
  | cons h _ ih => exact ih (hI hi h) (hJ hi hj h)

theorem mono {Step' : σ → α → σ → Prop} (hstep : ∀ {s a t}, Step s a t → Step' s a t)
    (h : Run Step s l t) : Run Step' s l t := by
  induction h with
  | nil => exact .nil _
  | cons h _ ih => exact .cons (hstep h) ih

theorem deterministic (h : Run Step s l t) (h' : Run Step s l u)
    (hstep : ∀ {s a t t'}, Step s a t → Step s a t' → t = t') : t = u := by
  induction h with
  | nil => exact nil_iff.mp h'
  | cons hs _ ih =>
    obtain ⟨v, hv, h'⟩ := cons_iff.mp h'
    exact ih (hstep hs hv ▸ h')

theorem with_states {P : σ → Prop} (h : Run Step s l t)
    (hP : ∀ l' u, l' <+: l → Run Step s l' u → P u) :
    Run (fun s a t => P s ∧ Step s a t) s l t := by
  induction h with
  | nil => exact .nil _
  | cons hs _ ih =>
    refine .cons ⟨hP [] _ List.nil_prefix (.nil _), hs⟩ (ih fun l' u hl' hu => ?_)
    exact hP _ u (List.cons_prefix_cons.mpr ⟨rfl, hl'⟩) (.cons hs hu)

/-- Related runs over all labels and over those that are kept; the others keep the relation. -/
theorem project {τ : Type*} {Step' : τ → α → τ → Prop} {R : σ → τ → Prop} {keep : α → Bool}
    (hkeep : ∀ {s s' t a}, R s t → Step s a s' → keep a = true → ∃ t', Step' t a t' ∧ R s' t')
    (hskip : ∀ {s s' t a}, R s t → Step s a s' → keep a = false → R s' t) {s' : σ} {t : τ}
    (h : Run Step s l s') (hs : R s t) : ∃ t', Run Step' t (l.filter keep) t' ∧ R s' t' := by
  induction h generalizing t with
  | nil => exact ⟨t, .nil t, hs⟩
  | @cons _ _ _ a _ hstep _ ih =>
    cases ha : keep a with
    | true =>
      obtain ⟨u, hu, hr⟩ := hkeep hs hstep ha
      obtain ⟨t', ht', hr'⟩ := ih hr
      rw [List.filter_cons_of_pos ha]
      exact ⟨t', .cons hu ht', hr'⟩
    | false =>
      rw [List.filter_cons_of_neg (by simp [ha])]
      exact ih (hskip hs hstep ha)

theorem recorded {I : List α → σ → Prop}
    (hstep : ∀ {l s a t}, I l s → Step s a t → I (l ++ [a]) t) (h : Run Step s l t)
    (hs : I [] s) : I l t := by
  induction l using List.reverseRecOn generalizing t with
  | nil =>
    cases h
    exact hs
  | append_singleton l a ih =>
    obtain ⟨u, hu, hlast⟩ := append_iff.mp h
    obtain ⟨t', ha, hnil⟩ := cons_iff.mp hlast
    obtain rfl := nil_iff.mp hnil
    exact hstep (ih hu) ha

theorem history {I : σ → Prop} {Q : α → σ → Prop} (hI : ∀ {s a t}, I s → Step s a t → I t)
    (hnew : ∀ {s a t}, I s → Step s a t → Q a t)
    (hold : ∀ {s a b t}, I s → Q b s → Step s a t → Q b t) (h : Run Step s l t) (hs : I s) :
    ∀ a ∈ l, Q a t := by
  have hkeep {s t : σ} {l : List α} {b : α} (h : Run Step s l t) (hs : I s) (hb : Q b s) :
      Q b t := invariant_under (fun hs hstep => hI hs hstep)
        (fun hs hb hstep => hold hs hb hstep) h hs hb
  induction h with
  | nil => exact fun _ h => absurd h List.not_mem_nil
  | cons hstep hrun ih =>
    intro a ha
    rcases List.mem_cons.mp ha with rfl | ha
    · exact hkeep hrun (hI hs hstep) (hnew hs hstep)
    · exact ih (hI hs hstep) a ha

theorem exists_since {P : σ → Prop} (h : Run Step s l t) (hs : ¬ P s) (ht : P t) :
    ∃ l₁ a l₂ u, l = l₁ ++ a :: l₂ ∧ Run Step s l₁ u ∧ ¬ P u ∧
      Run (fun s a t => Step s a t ∧ P t) u (a :: l₂) t := by
  induction l using List.reverseRecOn generalizing t with
  | nil =>
    cases h
    exact absurd ht hs
  | append_singleton l a ih =>
    obtain ⟨v, hv, hlast⟩ := append_iff.mp h
    obtain ⟨t', hstep, hnil⟩ := cons_iff.mp hlast
    obtain rfl := nil_iff.mp hnil
    by_cases hv' : P v
    · obtain ⟨l₁, b, l₂, u, rfl, hbefore, hu, hsince⟩ := ih hv hv'
      refine ⟨l₁, b, l₂ ++ [a], u, by simp, hbefore, hu, ?_⟩
      rw [← List.cons_append]
      exact append_iff.mpr ⟨v, hsince, .cons ⟨hstep, ht⟩ (.nil _)⟩
    · exact ⟨l, a, [], v, rfl, hv, hv', .cons ⟨hstep, ht⟩ (.nil _)⟩

theorem with_labels {P : α → Prop} (h : Run Step s l t) (hl : ∀ a ∈ l, P a) :
    Run (fun s a t => P a ∧ Step s a t) s l t := by
  induction h with
  | nil => exact .nil _
  | cons h _ ih =>
    refine .cons ⟨hl _ List.mem_cons_self, h⟩ (ih fun a ha => ?_)
    exact hl a (List.mem_cons_of_mem _ ha)

end Run
