import DpiEngine.Library.Runs
import Mathlib.Logic.Function.Basic

/-! # Order through a stage of parallel hands

Numbered items wait in line, are taken by hands that work in parallel and are
delivered. The items come out in the order of their numbers if every hand
delivers in turn, with no earlier item in another hand.
-/

structure Sequencer (P : Type) where
  out : List ℕ
  hand : P → List ℕ
  waiting : List ℕ
  next : ℕ

namespace Sequencer

variable {P : Type} {s t : Sequencer P}

inductive Step (s t : Sequencer P) : Prop
  | arrive {l} : l.Sublist [s.next] → t.waiting = s.waiting ++ l → t.next = s.next + 1 →
      t.out = s.out → t.hand = s.hand → Step s t
  | take (p : P) : s.hand p = [] → s.waiting = t.hand p ++ t.waiting →
      (∀ p', p' ≠ p → t.hand p' = s.hand p') → t.out = s.out → t.next = s.next → Step s t
  | deliver (p : P) : (∀ p', p' ≠ p → ∀ m ∈ s.hand p, ∀ n ∈ s.hand p', m < n) →
      t.out = s.out ++ s.hand p → t.hand p = [] → (∀ p', p' ≠ p → t.hand p' = s.hand p') →
      t.waiting = s.waiting → t.next = s.next → Step s t
  | lose : t.out.Sublist s.out → (∀ p, (t.hand p).Sublist (s.hand p)) → t.waiting = s.waiting →
      t.next = s.next → Step s t

/-- In line are the delivered items, the item in a hand, the waiting ones and the next one. -/
def line (s : Sequencer P) (p : P) : List ℕ := s.out ++ s.hand p ++ s.waiting ++ [s.next]

def Ordered (s : Sequencer P) : Prop := ∀ p, (s.line p).Pairwise (· < ·)

theorem ordered_step (h : s.Ordered) (hst : Step s t) : t.Ordered := by
  intro p'
  cases hst with
  | @arrive l hl hwaiting hnext hout hhand =>
    have hline := h p'
    simp only [line, List.pairwise_append, List.mem_append, List.mem_singleton, hwaiting, hnext,
      hout, hhand] at hline ⊢
    obtain ⟨⟨⟨ho, hh, hoh⟩, hw, hohw⟩, -, hn⟩ := hline
    have hl' : ∀ m ∈ l, m = s.next := fun m hm => List.mem_singleton.mp (hl.subset hm)
    refine ⟨⟨⟨ho, hh, hoh⟩, ⟨hw, (List.pairwise_singleton _ _).sublist hl, ?_⟩, ?_⟩,
      List.pairwise_singleton _ _, ?_⟩
    · intro m hm n hn'
      rw [hl' n hn']
      exact hn m (.inr hm) _ rfl
    · rintro m hm n (hn' | hn')
      · exact hohw m hm n hn'
      · rw [hl' n hn']
        exact hn m (.inl hm) _ rfl
    · rintro m (hm | hm | hm) n rfl
      · exact Nat.lt_succ_of_lt (hn m (.inl hm) _ rfl)
      · exact Nat.lt_succ_of_lt (hn m (.inr hm) _ rfl)
      · rw [hl' m hm]
        exact Nat.lt_succ_self _
  | take p hempty hwaiting hhand hout hnext =>
    by_cases hp : p' = p
    · subst hp
      have hline := h p'
      rw [line, hempty, hwaiting, List.append_nil] at hline
      rwa [line, hout, hnext, List.append_assoc s.out]
    · refine (h p').sublist ?_
      rw [line, line, hout, hnext, hhand p' hp, hwaiting]
      exact ((List.Sublist.refl _).append (List.sublist_append_right _ _)).append
        (List.Sublist.refl _)
  | deliver p hturn hout hempty hhand hwaiting hnext =>
    by_cases hp : p' = p
    · subst hp
      rw [line, hout, hempty, hwaiting, hnext, List.append_nil]
      exact h p'
    · have hline := h p
      have hline' := h p'
      simp only [line, List.pairwise_append, List.mem_append, List.mem_singleton, hwaiting, hnext,
        hout, hhand p' hp] at hline hline' ⊢
      obtain ⟨⟨⟨ho, hh, hoh⟩, hw, hohw⟩, -, hn⟩ := hline
      obtain ⟨⟨⟨-, hh', hoh'⟩, -, hohw'⟩, -, hn'⟩ := hline'
      refine ⟨⟨⟨⟨ho, hh, hoh⟩, hh', ?_⟩, hw, ?_⟩, List.pairwise_singleton _ _, ?_⟩
      · rintro m (hm | hm) n hn
        · exact hoh' m hm n hn
        · exact hturn p' hp m hm n hn
      · rintro m (hm | hm) n hn
        · exact hohw m hm n hn
        · exact hohw' m (.inr hm) n hn
      · rintro m ((hm | hm) | hm) n rfl
        · exact hn m (.inl hm) _ rfl
        · exact hn' m (.inl (.inr hm)) _ rfl
        · exact hn m (.inr hm) _ rfl
  | lose hout hhand hwaiting hnext =>
    refine (h p').sublist ?_
    rw [line, line, hwaiting, hnext]
    exact ((hout.append (hhand p')).append (List.Sublist.refl _)).append (List.Sublist.refl _)

/-- The items come out in order. -/
theorem Ordered.out [Nonempty P] (h : s.Ordered) : s.out.Pairwise (· < ·) := by
  have hline := h (Classical.arbitrary P)
  rw [line, List.append_assoc, List.append_assoc] at hline
  exact hline.sublist (List.sublist_append_left _ _)

end Sequencer
