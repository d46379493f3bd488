import DpiEngine.Inspect.Applications
import DpiEngine.Rules.Domains

/-! # Three matchers for one base domain

A base can be blocked by an exact rule or by a wildcard, and names are compared
with the bases of the applications. The wildcard and the comparison cover the same
names. The exact rule misses one: the base behind a dot.
-/

namespace DpiEngine

namespace RuleManager

section Base

variable {s : Name}

theorem normal_base (h : normalizeDomain s = s) :
    s.map toLower = s ∧ s.getLast? ≠ some 0x2E := by
  have hlast : (s.map toLower).getLast? ≠ some 0x2E := by
    intro hlast
    have hlen := congrArg List.length h
    rw [normalizeDomain, dropTrailingDot, if_pos hlast, List.length_dropLast,
      List.length_map] at hlen
    have hnil : s = [] := by
      rw [← List.length_eq_zero_iff]
      omega
    simp [hnil] at hlast
  rw [normalizeDomain, dropTrailingDot, if_neg hlast] at h
  rw [h] at hlast
  exact ⟨h, hlast⟩

theorem map_toLower_star (h : normalizeDomain s = s) :
    (0x2A :: 0x2E :: s : Name).map toLower = 0x2A :: 0x2E :: s := by
  rw [List.map_cons, List.map_cons, (normal_base h).1]
  rfl

theorem normalizeDomain_star (hne : s ≠ []) (h : normalizeDomain s = s) :
    normalizeDomain (0x2A :: 0x2E :: s) = 0x2A :: 0x2E :: s := by
  rw [normalizeDomain, map_toLower_star h, dropTrailingDot, List.getLast?_cons_of_ne_nil (by simp),
    List.getLast?_cons_of_ne_nil hne, if_neg (normal_base h).2]

variable {d : Name}

theorem ne_nil_of_covers (hne : s ≠ []) (h : Labels.Covers 0x2E s (normalizeDomain d)) :
    normalizeDomain d ≠ [] := by
  intro hnil
  have hlen := h.length_le
  rw [hnil] at hlen
  exact hne (List.length_eq_zero_iff.mp (Nat.le_zero.mp hlen))

theorem isDomainBlocked_exact (hne : s ≠ []) (h : normalizeDomain s = s) (hstar : 0x2A ∉ s) :
    (blockDomain {} s).isDomainBlocked d = true ↔
      Labels.Covers 0x2E s (normalizeDomain d) ∧ normalizeDomain d ≠ 0x2E :: s := by
  have hrules : blockDomain {} s = { blockedDomains := {s} } := by
    rw [blockDomain, h, if_neg hstar]
    rfl
  rw [hrules, isDomainBlocked, ← exact_iff_covers]
  split_ifs with hd
  · rw [List.isEmpty_iff] at hd
    subst hd
    refine iff_of_false (by simp) ?_
    rw [exact_iff_covers]
    rintro ⟨hcovers, -⟩
    exact ne_nil_of_covers hne hcovers rfl
  · simp

theorem isDomainBlocked_wildcard (hne : s ≠ []) (h : normalizeDomain s = s) :
    (blockDomain {} (0x2A :: 0x2E :: s)).isDomainBlocked d = true ↔
      Labels.Covers 0x2E s (normalizeDomain d) := by
  have hrules : blockDomain {} (0x2A :: 0x2E :: s) =
      { domainPatterns := [0x2A :: 0x2E :: s] } := by
    rw [blockDomain, normalizeDomain_star hne h, if_pos List.mem_cons_self]
    rfl
  rw [hrules, isDomainBlocked]
  split_ifs with hd
  · rw [List.isEmpty_iff] at hd
    subst hd
    refine iff_of_false (by simp) fun hcovers => ?_
    exact ne_nil_of_covers hne hcovers rfl
  · simp [map_toLower_star h, pattern_iff_covers]

theorem isDomainOrSubdomain_base (hne : s ≠ []) :
    isDomainOrSubdomain (normalizeDomain d) s = true ↔
      Labels.Covers 0x2E s (normalizeDomain d) := by
  rw [isDomainOrSubdomain_iff]
  constructor
  · rintro ⟨-, -, hcovers⟩
    exact hcovers
  · intro hcovers
    exact ⟨ne_nil_of_covers hne hcovers, hne, hcovers⟩

/-- The two rules of a base and the comparison with it agree on a name, unless its normal form
is the base behind a dot. -/
theorem rules_agree_iff (hne : s ≠ []) (h : normalizeDomain s = s) (hstar : 0x2A ∉ s) (d : Name) :
    ((blockDomain {} s).isDomainBlocked d =
          (blockDomain {} (ascii "*." ++ s)).isDomainBlocked d ∧
        (blockDomain {} s).isDomainBlocked d = isDomainOrSubdomain (normalizeDomain d) s) ↔
      normalizeDomain d ≠ 0x2E :: s := by
  have hexact := isDomainBlocked_exact (d := d) hne h hstar
  have hwildcard := isDomainBlocked_wildcard (d := d) hne h
  have hcompare := isDomainOrSubdomain_base (d := d) hne
  have happend : ascii "*." ++ s = 0x2A :: 0x2E :: s := rfl
  rw [happend]
  constructor
  · rintro ⟨hrules, -⟩ heq
    have hcovers : Labels.Covers 0x2E s (normalizeDomain d) := .inr (heq ▸ List.suffix_rfl)
    have hblocked := hexact.mp (hrules.trans (hwildcard.mpr hcovers))
    exact hblocked.2 heq
  · intro hd
    constructor
    · rw [Bool.eq_iff_iff, hexact, hwildcard, and_iff_left hd]
    · rw [Bool.eq_iff_iff, hexact, hcompare, and_iff_left hd]

theorem rules_agree_iff_inner :
    ((blockDomain {} (ascii "evil.com")).isDomainBlocked (ascii "WWW.evil.com.") =
          (blockDomain {} (ascii "*." ++ ascii "evil.com")).isDomainBlocked
            (ascii "WWW.evil.com.") ∧
        (blockDomain {} (ascii "evil.com")).isDomainBlocked (ascii "WWW.evil.com.") =
          isDomainOrSubdomain (normalizeDomain (ascii "WWW.evil.com.")) (ascii "evil.com")) ↔
      normalizeDomain (ascii "WWW.evil.com.") ≠ 0x2E :: ascii "evil.com" :=
  rules_agree_iff (by decide) (by decide) (by decide) _

/-- The wildcard blocks `.evil.com`, the exact rule does not. -/
theorem not_rules_agree :
    ¬ ∀ s : Name, s ≠ [] → normalizeDomain s = s → 0x2A ∉ s → ∀ d : Name,
      (blockDomain {} s).isDomainBlocked d =
          (blockDomain {} (ascii "*." ++ s)).isDomainBlocked d ∧
        (blockDomain {} s).isDomainBlocked d = isDomainOrSubdomain (normalizeDomain d) s := by
  intro h
  have hagree := (h (ascii "evil.com") (by decide) (by decide) (by decide) (ascii ".evil.com")).1
  exact absurd hagree (by decide)

end Base

end RuleManager

end DpiEngine
