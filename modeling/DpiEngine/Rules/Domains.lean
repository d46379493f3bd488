import DpiEngine.Library.Labels
import DpiEngine.Rules.Operations

/-! # Domain rules match labels

A rule names a list of labels, and blocks a domain whose labels end in them. The
three ways in which the rules are matched agree on this.
-/

namespace DpiEngine

def labelsText (labels : List Name) : Name := [0x2E].intercalate labels

def lowerLabels (labels : List Name) : List Name := labels.map (·.map toLower)

/-- A domain: labels in any case, with or without a trailing dot. -/
structure DomainText where
  labels : List Name
  trailingDot : Bool := false
  labels_ne : labels ≠ []
  label_ne : ∀ l ∈ labels, l ≠ []
  label_dot : ∀ l ∈ labels, 0x2E ∉ l

def DomainText.text (d : DomainText) : Name :=
  labelsText d.labels ++ if d.trailingDot then [0x2E] else []

/-- A rule `s` or `*.s`. -/
structure DomainRule extends DomainText where
  wildcard : Bool := false
  label_star : ∀ l ∈ labels, 0x2A ∉ l

def DomainRule.ruleText (r : DomainRule) : Name :=
  (if r.wildcard then [0x2A, 0x2E] else []) ++ r.text

section Normalize

variable {labels : List Name}

theorem map_toLower_labelsText (labels : List Name) :
    (labelsText labels).map toLower = labelsText (lowerLabels labels) :=
  Labels.map_intercalate toLower

end Normalize

/-! ### The labels of domains and rules in lower case -/

structure Wellformed (labels : List Name) : Prop where
  ne : labels ≠ []
  label_ne : [] ∉ labels
  label_dot : ∀ l ∈ labels, 0x2E ∉ l

namespace DomainText

variable (d : DomainText)

theorem wellformed_lower : Wellformed (lowerLabels d.labels) where
  ne := by simpa [lowerLabels] using d.labels_ne
  label_ne := by
    intro h
    obtain ⟨l, hl, hnil⟩ := List.mem_map.mp h
    exact d.label_ne l hl (List.map_eq_nil_iff.mp hnil)
  label_dot := by
    rintro l hl hdot
    obtain ⟨l', hl', rfl⟩ := List.mem_map.mp hl
    obtain ⟨c, hc, hdot⟩ := List.mem_map.mp hdot
    exact d.label_dot l' hl' (toLower_eq_dot.mp hdot ▸ hc)

def lower : Name := labelsText (lowerLabels d.labels)

theorem lower_ne_nil : d.lower ≠ [] :=
  Labels.intercalate_ne_nil d.wellformed_lower.ne
    d.wellformed_lower.label_ne

theorem normalizeDomain_append (front : Name) :
    normalizeDomain (front ++ d.text) = front.map toLower ++ d.lower := by
  have hlast : (front.map toLower ++ d.lower).getLast? ≠ some 0x2E := by
    rw [List.getLast?_append_of_ne_nil _ d.lower_ne_nil]
    exact Labels.getLast?_intercalate d.wellformed_lower.label_dot d.wellformed_lower.ne
      d.wellformed_lower.label_ne
  have hmap : (front ++ d.text).map toLower =
      front.map toLower ++ d.lower ++ if d.trailingDot then [0x2E] else [] := by
    rw [text, lower, ← map_toLower_labelsText]
    cases d.trailingDot <;> simp [toLower]
  rw [normalizeDomain, hmap, dropTrailingDot]
  cases d.trailingDot with
  | true => simp
  | false =>
    simp only [Bool.false_eq_true, if_false, List.append_nil]
    rw [if_neg hlast]

theorem normalizeDomain_text : normalizeDomain d.text = d.lower := d.normalizeDomain_append []

theorem text_ne_nil : d.text ≠ [] := by
  intro h
  have hlower := d.normalizeDomain_text
  rw [h] at hlower
  exact d.lower_ne_nil hlower.symm

end DomainText

namespace DomainRule

variable (r : DomainRule)

/-- The rule as it is stored. -/
def stored : Name := (if r.wildcard then [0x2A, 0x2E] else []) ++ r.lower

theorem normalizeDomain_ruleText : normalizeDomain r.ruleText = r.stored := by
  rw [ruleText, r.normalizeDomain_append, stored]
  cases r.wildcard <;> rfl

theorem star_not_mem_lower : 0x2A ∉ r.lower := by
  intro h
  rcases Labels.of_mem_intercalate h with h | ⟨l, hl, h⟩
  · exact absurd h (by decide)
  · obtain ⟨l', hl', rfl⟩ := List.mem_map.mp hl
    obtain ⟨c, hc, hstar⟩ := List.mem_map.mp h
    exact r.label_star l' hl' (toLower_eq_star.mp hstar ▸ hc)

theorem star_mem_stored : 0x2A ∈ r.stored ↔ r.wildcard = true := by
  cases h : r.wildcard with
  | true => simp [stored, h]
  | false => simp [stored, h, r.star_not_mem_lower]

end DomainRule

/-! ### Matching -/

namespace RuleManager

theorem isSubdomainOf_iff {domain entry : Name} :
    isSubdomainOf domain entry = true ↔ 0x2E :: entry <:+ domain ∧ domain ≠ 0x2E :: entry := by
  rw [isSubdomainOf]
  split_ifs with hlen
  · simp only [Bool.and_eq_true, decide_eq_true_eq]
    rw [← Labels.cons_suffix_iff_getElem? (by omega), iff_self_and]
    rintro - rfl
    simp at hlen
  · refine iff_of_false (by simp) ?_
    rintro ⟨hsuffix, hne⟩
    exact hne (hsuffix.eq_of_length_le (by simpa using hlen)).symm

/-- An exact rule blocks what the entry covers, but not the entry behind a dot alone. -/
theorem exact_iff_covers {domain entry : Name} :
    domain = entry ∨ isSubdomainOf domain entry = true ↔
      Labels.Covers 0x2E entry domain ∧ domain ≠ 0x2E :: entry := by
  rw [isSubdomainOf_iff]
  constructor
  · rintro (rfl | ⟨hsuffix, hne⟩)
    · exact ⟨.inl rfl, (List.cons_ne_self _ _).symm⟩
    · exact ⟨.inr hsuffix, hne⟩
  · rintro ⟨rfl | hsuffix, hne⟩
    · exact .inl rfl
    · exact .inr ⟨hsuffix, hne⟩

/-- A pattern `*.s` blocks what `s` covers. -/
theorem pattern_iff_covers {domain s : Name} :
    domainMatchesPattern domain (0x2A :: 0x2E :: s) = true ↔ Labels.Covers 0x2E s domain := by
  have hif : (0x2A :: 0x2E :: s : Name).length ≥ 2 ∧ (0x2A :: 0x2E :: s : Name)[0]? = some 0x2A ∧
      (0x2A :: 0x2E :: s : Name)[1]? = some 0x2E := ⟨by simp, rfl, rfl⟩
  rw [domainMatchesPattern, if_pos hif, Bool.or_eq_true, List.isSuffixOf_iff_suffix,
    decide_eq_true_eq, or_comm]
  rfl

variable {d : DomainText} {e : DomainText}

/-- The labels of the domain end in those of an exact rule. -/
theorem exact_matches_iff : d.lower = e.lower ∨ isSubdomainOf d.lower e.lower = true ↔
    lowerLabels e.labels <:+ lowerLabels d.labels := by
  have hhead : d.lower.head? ≠ some 0x2E := Labels.head?_intercalate d.wellformed_lower.label_dot
    d.wellformed_lower.ne d.wellformed_lower.label_ne
  have hne : d.lower ≠ 0x2E :: e.lower := by
    intro h
    exact hhead (by rw [h]; rfl)
  rw [exact_iff_covers, and_iff_left hne]
  exact (Labels.isSuffix_iff d.wellformed_lower.label_dot d.wellformed_lower.ne
    e.wellformed_lower.label_dot e.wellformed_lower.ne).symm

/-- The labels of the domain end in those of a wildcard rule. -/
theorem pattern_matches_iff {r : DomainRule} (hr : r.wildcard = true) :
    domainMatchesPattern d.lower (r.stored.map toLower) = true ↔
      lowerLabels r.labels <:+ lowerLabels d.labels := by
  have hlower : r.lower.map toLower = r.lower := by
    rw [DomainText.lower, ← map_toLower_labelsText, List.map_map]
    exact congrArg (List.map · _) (funext toLower_toLower)
  have hstored : r.stored.map toLower = 0x2A :: 0x2E :: r.lower := by
    rw [DomainRule.stored, if_pos hr, List.map_append, hlower]
    rfl
  rw [hstored, pattern_iff_covers]
  exact (Labels.isSuffix_iff d.wellformed_lower.label_dot d.wellformed_lower.ne
    r.wellformed_lower.label_dot r.wellformed_lower.ne).symm

def blockDomains (rules : RuleManager) (texts : List Name) : RuleManager :=
  texts.foldl blockDomain rules

theorem mem_blockDomains (rs : List DomainRule) (rules : RuleManager) (x : Name) :
    (x ∈ (rules.blockDomains (rs.map DomainRule.ruleText)).blockedDomains ↔
      x ∈ rules.blockedDomains ∨ ∃ r ∈ rs, r.wildcard = false ∧ x = r.stored) ∧
    (x ∈ (rules.blockDomains (rs.map DomainRule.ruleText)).domainPatterns ↔
      x ∈ rules.domainPatterns ∨ ∃ r ∈ rs, r.wildcard = true ∧ x = r.stored) := by
  induction rs generalizing rules with
  | nil => simp [blockDomains]
  | cons r rs ih =>
    obtain ⟨hdomains, hpatterns⟩ := ih (rules.blockDomain r.ruleText)
    rw [List.map_cons, blockDomains, List.foldl_cons, ← blockDomains, hdomains, hpatterns]
    simp only [blockDomain, r.normalizeDomain_ruleText, r.star_mem_stored, List.exists_mem_cons_iff]
    cases h : r.wildcard with
    | true => simp [or_assoc]
    | false => simp [or_assoc, or_left_comm]

/-- Blocked domain rules of the forms `s` and `*.s` block exactly the domains whose labels end in
the labels of a rule, in any case and with or without trailing dots. -/
theorem isDomainBlocked_iff (rs : List DomainRule) (d : DomainText) :
    (blockDomains {} (rs.map DomainRule.ruleText)).isDomainBlocked d.text = true ↔
      ∃ r ∈ rs, lowerLabels r.labels <:+ lowerLabels d.labels := by
  have hmem := mem_blockDomains rs {}
  have hempty : d.text.isEmpty = false := by simpa using d.text_ne_nil
  rw [isDomainBlocked, hempty, if_neg (by simp), d.normalizeDomain_text]
  simp only [Bool.or_eq_true, decide_eq_true_eq, List.any_eq_true]
  constructor
  · rintro ((hexact | ⟨entry, hentry, hsub⟩) | ⟨pattern, hpattern, hmatch⟩)
    · obtain ⟨r, hr, hwild, heq⟩ := ((hmem _).1.mp hexact).resolve_left (Finset.notMem_empty _)
      rw [DomainRule.stored, hwild] at heq
      exact ⟨r, hr, exact_matches_iff.mp (.inl heq)⟩
    · obtain ⟨r, hr, hwild, rfl⟩ := ((hmem _).1.mp hentry).resolve_left (Finset.notMem_empty _)
      rw [DomainRule.stored, hwild] at hsub
      exact ⟨r, hr, exact_matches_iff.mp (.inr hsub)⟩
    · obtain ⟨r, hr, hwild, rfl⟩ := ((hmem _).2.mp hpattern).resolve_left List.not_mem_nil
      exact ⟨r, hr, (pattern_matches_iff hwild).mp hmatch⟩
  · rintro ⟨r, hr, hsuffix⟩
    cases hwild : r.wildcard with
    | true =>
      exact .inr ⟨_, (hmem _).2.mpr (.inr ⟨r, hr, hwild, rfl⟩),
        (pattern_matches_iff hwild).mpr hsuffix⟩
    | false =>
      have hstored : r.stored = r.lower := by
        rw [DomainRule.stored, hwild]
        rfl
      have hblocked := (hmem _).1.mpr (.inr ⟨r, hr, hwild, hstored.symm⟩)
      rcases exact_matches_iff.mpr hsuffix with heq | hsub
      · exact .inl (.inl (heq ▸ hblocked))
      · exact .inl (.inr ⟨_, hblocked, hsub⟩)

def evilRule : DomainRule where
  labels := [ascii "Evil", ascii "com"]
  labels_ne := List.cons_ne_nil _ _
  label_ne := by simp [ascii]
  label_dot := by simp [ascii]
  wildcard := true
  label_star := by simp [ascii]

def evilSubdomain : DomainText where
  labels := [ascii "www", ascii "eVIL", ascii "com"]
  trailingDot := true
  labels_ne := List.cons_ne_nil _ _
  label_ne := by simp [ascii]
  label_dot := by simp [ascii]

def otherDomain : DomainText where
  labels := [ascii "notevil", ascii "com"]
  labels_ne := List.cons_ne_nil _ _
  label_ne := by simp [ascii]
  label_dot := by simp [ascii]

theorem isDomainBlocked_iff_evil :
    (({} : RuleManager).blockDomains [ascii "*.Evil.com"]).isDomainBlocked
        (ascii "www.eVIL.com.") = true ∧
      (({} : RuleManager).blockDomains [ascii "*.Evil.com"]).isDomainBlocked
        (ascii "notevil.com") = false := by
  have hrule : [evilRule].map DomainRule.ruleText = [ascii "*.Evil.com"] := by decide
  have hsub : evilSubdomain.text = ascii "www.eVIL.com." := by decide
  have hother : otherDomain.text = ascii "notevil.com" := by decide
  rw [← hrule, ← hsub, ← hother, ← Bool.not_eq_true]
  exact ⟨(isDomainBlocked_iff [evilRule] evilSubdomain).mpr (by decide),
    mt (isDomainBlocked_iff [evilRule] otherDomain).mp (by decide)⟩

end RuleManager

end DpiEngine
