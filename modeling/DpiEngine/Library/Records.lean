import Mathlib.Data.List.Infix

/-! # Streams of records

Records written one behind the other, and a reader that takes one record from
the front of a stream. On a stream that is cut anywhere the reader finds exactly
the records that lie in front of the cut as a whole.
-/

namespace Records

variable {α ρ : Type*}

/-- Reading one record after another from `s` gives `rs`, and then nothing. -/
def ReadsAs (read : List α → Option (ρ × List α)) : List α → List ρ → Prop
  | s, [] => read s = none
  | s, r :: rs => ∃ t, read s = some (r, t) ∧ ReadsAs read t rs

def encodeAll (enc : ρ → List α) (rs : List ρ) : List α := rs.flatMap enc

/-- A reader that takes back what was written, and nothing from a record that is cut. -/
structure IsCodec (enc : ρ → List α) (read : List α → Option (ρ × List α)) (ok : ρ → Prop) :
    Prop where
  read_append : ∀ {r : ρ} (t : List α), ok r → read (enc r ++ t) = some (r, t)
  read_cut : ∀ {r : ρ} {s : List α}, ok r → s <+: enc r → s ≠ enc r → read s = none
  read_nil : read [] = none

/-- `got` is the longest list of first records that the stream `s` contains as a whole. -/
structure IsLongest (enc : ρ → List α) (rs : List ρ) (s : List α) (got : List ρ) : Prop where
  isPrefix : got <+: rs
  contained : encodeAll enc got <+: s
  longest : ∀ first, first <+: rs → encodeAll enc first <+: s → first <+: got

section

variable {enc : ρ → List α} {read : List α → Option (ρ × List α)} {ok : ρ → Prop}

@[simp] theorem encodeAll_nil : encodeAll enc ([] : List ρ) = [] := rfl

@[simp] theorem encodeAll_cons (r : ρ) (rs : List ρ) :
    encodeAll enc (r :: rs) = enc r ++ encodeAll enc rs := rfl

theorem ReadsAs.unique {s : List α} {rs rs' : List ρ} (h : ReadsAs read s rs)
    (h' : ReadsAs read s rs') : rs = rs' := by
  induction rs generalizing s rs' with
  | nil =>
    cases rs' with
    | nil => rfl
    | cons r' rs' =>
      obtain ⟨t, ht, _⟩ := h'
      cases h.symm.trans ht
  | cons r rs ih =>
    obtain ⟨t, ht, hs⟩ := h
    cases rs' with
    | nil => cases ht.symm.trans h'
    | cons r' rs' =>
      obtain ⟨t', ht', hs'⟩ := h'
      cases ht.symm.trans ht'
      rw [ih hs hs']

/-- A reader that always takes something comes to an end. -/
theorem exists_readsAs (hread : ∀ {s r t}, read s = some (r, t) → t.length < s.length)
    (s : List α) : ∃ rs, ReadsAs read s rs := by
  induction hn : s.length using Nat.strong_induction_on generalizing s with
  | _ n ih =>
    subst hn
    cases hs : read s with
    | none => exact ⟨[], hs⟩
    | some p =>
      obtain ⟨r, t⟩ := p
      obtain ⟨rs, hrs⟩ := ih _ (hread hs) t rfl
      exact ⟨r :: rs, t, hs, hrs⟩

theorem IsCodec.readsAs_encodeAll (h : IsCodec enc read ok) {rs : List ρ}
    (hok : ∀ r ∈ rs, ok r) : ReadsAs read (encodeAll enc rs) rs := by
  induction rs with
  | nil => exact h.read_nil
  | cons r rs ih =>
    rw [List.forall_mem_cons] at hok
    exact ⟨_, h.read_append _ hok.1, ih hok.2⟩

theorem IsLongest.cons {rs got : List ρ} {s : List α} (r : ρ) (h : IsLongest enc rs s got) :
    IsLongest enc (r :: rs) (enc r ++ s) (r :: got) where
  isPrefix := (List.prefix_cons_inj r).mpr h.isPrefix
  contained := (List.prefix_append_right_inj _).mpr h.contained
  longest := by
    rintro (_ | ⟨r', first⟩) hp hs
    · exact List.nil_prefix
    · obtain ⟨rfl, hp'⟩ := List.cons_prefix_cons.mp hp
      exact (List.prefix_cons_inj _).mpr
        (h.longest _ hp' ((List.prefix_append_right_inj _).mp hs))

theorem IsLongest.of_cut {r : ρ} {rs : List ρ} {s : List α} (hs : s <+: enc r) (hne : s ≠ enc r) :
    IsLongest enc (r :: rs) s [] where
  isPrefix := List.nil_prefix
  contained := List.nil_prefix
  longest := by
    rintro (_ | ⟨r', first⟩) hp hf
    · exact List.nil_prefix
    · obtain ⟨rfl, -⟩ := List.cons_prefix_cons.mp hp
      have hr : enc r' <+: s := (List.prefix_append _ _).trans hf
      exact absurd (hs.eq_of_length_le hr.length_le) hne

/-- A cut of a stream is read as the records in front of it. The induction is on the records: the
cut is either inside the first one or behind it. -/
theorem IsCodec.exists_longest (h : IsCodec enc read ok) {rs : List ρ} (hok : ∀ r ∈ rs, ok r)
    {s : List α} (hs : s <+: encodeAll enc rs) :
    ∃ got, ReadsAs read s got ∧ IsLongest enc rs s got := by
  induction rs generalizing s with
  | nil =>
    obtain rfl := List.prefix_nil.mp hs
    exact ⟨[], h.read_nil, List.nil_prefix, List.nil_prefix, fun _ hp _ => hp⟩
  | cons r rs ih =>
    rw [List.forall_mem_cons] at hok
    rcases List.prefix_or_prefix_of_prefix hs (List.prefix_append (enc r) _) with hcut | hr
    · by_cases hne : s = enc r
      · subst hne
        obtain ⟨got, hread, hlong⟩ := ih hok.2 List.nil_prefix
        refine ⟨r :: got, ⟨[], ?_, hread⟩, ?_⟩
        · simpa using h.read_append [] hok.1
        · simpa using hlong.cons r
      · exact ⟨[], h.read_cut hok.1 hcut hne, .of_cut hcut hne⟩
    · obtain ⟨t, rfl⟩ := hr
      obtain ⟨got, hread, hlong⟩ := ih hok.2 ((List.prefix_append_right_inj _).mp hs)
      exact ⟨r :: got, ⟨t, h.read_append t hok.1, hread⟩, hlong.cons r⟩

end

end Records
