import DpiEngine.Inspect.Names
import DpiEngine.Library.Labels
import DpiEngine.Library.Search

/-! # The application of the most specific domain

The table of registered domains is searched in its order, and some domains lie in
others. An inner domain of another application stands before the outer one, so the
first match has the application of the longest.
-/

namespace DpiEngine

/-- The comparison of a name with an apex knows the labels. -/
theorem isDomainOrSubdomain_iff {host apex : Name} :
    isDomainOrSubdomain host apex = true ↔
      host ≠ [] ∧ apex ≠ [] ∧ Labels.Covers 0x2E apex host := by
  rw [isDomainOrSubdomain]
  split_ifs with hempty heq hlen
  · refine iff_of_false (by simp) ?_
    rintro ⟨hhost, hapex, -⟩
    simp [hhost, hapex] at hempty
  · simp only [Bool.or_eq_true, List.isEmpty_iff, not_or] at hempty
    exact iff_of_true rfl ⟨hempty.1, hempty.2, .inl heq⟩
  · refine iff_of_false (by simp) ?_
    rintro ⟨-, -, rfl | hsuffix⟩
    · exact heq rfl
    · have := hsuffix.length_le
      rw [List.length_cons] at this
      omega
  · simp only [Bool.or_eq_true, List.isEmpty_iff, not_or] at hempty
    simp only [Bool.and_eq_true, decide_eq_true_eq]
    rw [← Labels.cons_suffix_iff_getElem? (by omega)]
    constructor
    · intro hsuffix
      exact ⟨hempty.1, hempty.2, .inr hsuffix⟩
    · rintro ⟨-, -, rfl | hsuffix⟩
      · exact absurd rfl heq
      · exact hsuffix

/-! ### The table of domains -/

/-- The registered domains one by one, with their applications. -/
def apexes : List (Name × AppType) :=
  appDomains.flatMap fun row => row.1.map fun apex => (ascii apex, row.2)

theorem apexes_pairwise : apexes.Pairwise fun x y =>
    isDomainOrSubdomain y.1 x.1 = true → x.2 = y.2 := by
  decide +kernel

theorem apexes_ne_nil : ∀ row ∈ apexes, row.1 ≠ [] := by
  decide +kernel

theorem find?_apexes (host : Name) :
    (apexes.find? fun row => isDomainOrSubdomain host row.1).map Prod.snd =
      (appDomains.find? fun row =>
        row.1.any fun apex => isDomainOrSubdomain host (ascii apex)).map Prod.snd := by
  rw [apexes]
  induction appDomains with
  | nil => rfl
  | cons row rows ih =>
    have hcomp : (fun row : Name × AppType => isDomainOrSubdomain host row.1) ∘
        (fun apex => (ascii apex, row.2)) = fun apex => isDomainOrSubdomain host (ascii apex) := rfl
    rw [List.flatMap_cons, List.find?_append, List.find?_map, List.find?_cons, hcomp]
    cases h : row.1.any fun apex => isDomainOrSubdomain host (ascii apex) with
    | true =>
      obtain ⟨apex, hapex⟩ := Option.isSome_iff_exists.mp (List.find?_isSome.mpr
        (List.any_eq_true.mp h))
      rw [hapex]
      rfl
    | false =>
      have hnone : row.1.find? (fun apex => isDomainOrSubdomain host (ascii apex)) = none := by
        simpa using h
      rw [hnone]
      exact ih

theorem sniToAppType_of_nil {sni : Name} (h : normalizeDomain sni = []) :
    sniToAppType sni = .unknown := by
  simp [sniToAppType, h]

theorem sniToAppType_of_ne_nil {sni : Name} (h : normalizeDomain sni ≠ []) :
    sniToAppType sni =
      ((apexes.find? fun row => isDomainOrSubdomain (normalizeDomain sni) row.1).map
        Prod.snd).getD .https := by
  have hsni : sni ≠ [] := by
    rintro rfl
    exact h rfl
  rw [find?_apexes, sniToAppType, if_neg (by simpa using hsni), if_neg (by simpa using h)]
  cases appDomains.find? fun row =>
      row.1.any fun apex => isDomainOrSubdomain (normalizeDomain sni) (ascii apex) with
  | none => rfl
  | some row => rfl

theorem sniToAppType_congr {sni sni' : Name} (h : normalizeDomain sni = normalizeDomain sni') :
    sniToAppType sni = sniToAppType sni' := by
  by_cases hnil : normalizeDomain sni = []
  · rw [sniToAppType_of_nil hnil, sniToAppType_of_nil (h ▸ hnil)]
  · rw [sniToAppType_of_ne_nil hnil, sniToAppType_of_ne_nil (h ▸ hnil), h]

/-! ### The most specific domain -/

/-- A registered domain that covers the host, and no longer one does. -/
structure MostSpecific (host : Name) (row : Name × AppType) : Prop where
  mem : row ∈ apexes
  covers : Labels.Covers 0x2E row.1 host
  longest : ∀ row' ∈ apexes, Labels.Covers 0x2E row'.1 host → row'.1.length ≤ row.1.length

theorem exists_mostSpecific (host : Name) :
    (∃ row, MostSpecific host row) ∨ ∀ row ∈ apexes, ¬ Labels.Covers 0x2E row.1 host := by
  rcases Search.exists_highest (fun row : Name × AppType => Labels.Covers 0x2E row.1 host)
    (·.1.length) apexes with ⟨row, hmem, hcovers, hlongest⟩ | hnone
  · exact .inl ⟨row, hmem, hcovers, hlongest⟩
  · exact .inr hnone

variable {host : Name}

theorem isDomainOrSubdomain_apex (h : host ≠ []) {row : Name × AppType} (hrow : row ∈ apexes) :
    isDomainOrSubdomain host row.1 = true ↔ Labels.Covers 0x2E row.1 host := by
  rw [isDomainOrSubdomain_iff, and_iff_right h, and_iff_right (apexes_ne_nil row hrow)]

/-- The first domain of the table that matches has the application of the most specific. -/
theorem find?_mostSpecific (h : host ≠ []) {row : Name × AppType} (hrow : MostSpecific host row) :
    (apexes.find? fun row => isDomainOrSubdomain host row.1).map Prod.snd = some row.2 := by
  have hmatch := (isDomainOrSubdomain_apex h hrow.mem).mpr hrow.covers
  have hsome : (apexes.find? fun row => isDomainOrSubdomain host row.1).isSome = true :=
    List.find?_isSome.mpr ⟨row, hrow.mem, hmatch⟩
  obtain ⟨first, hfirst⟩ := Option.isSome_iff_exists.mp hsome
  rw [hfirst, Option.map_some, Option.some_inj]
  refine Search.find?_eq_of_pairwise (fun row => row.1.length) ?_ hfirst hrow.mem hmatch ?_
  · refine apexes_pairwise.imp_of_mem fun {x y} hx hy hxy hmx hmy hle => hxy ?_
    have hcover := (isDomainOrSubdomain_apex h hx).mp hmx
    rw [isDomainOrSubdomain_apex (apexes_ne_nil y hy) hx]
    exact hcover.of_length_le ((isDomainOrSubdomain_apex h hy).mp hmy) hle
  · intro other hother hm
    exact hrow.longest other hother ((isDomainOrSubdomain_apex h hother).mp hm)

/-- The application of a name is that of the longest registered domain that covers its normal
form. Letter case and one trailing dot do not matter. -/
theorem sniToAppType_mostSpecific (sni : Name) :
    (normalizeDomain sni = [] → sniToAppType sni = .unknown) ∧
      (normalizeDomain sni ≠ [] →
        (∃ row, MostSpecific (normalizeDomain sni) row) ∧
            (∀ row, MostSpecific (normalizeDomain sni) row → sniToAppType sni = row.2) ∨
          (∀ row ∈ apexes, ¬ Labels.Covers 0x2E row.1 (normalizeDomain sni)) ∧
            sniToAppType sni = .https) ∧
      (∀ sni', sni'.map toLower = sni.map toLower → sniToAppType sni' = sniToAppType sni) ∧
      (sni.getLast? ≠ some 0x2E → sniToAppType (sni ++ [0x2E]) = sniToAppType sni) := by
  refine ⟨sniToAppType_of_nil, fun hne => ?_, fun sni' h => ?_, fun h => ?_⟩
  · rcases exists_mostSpecific (normalizeDomain sni) with hrow | hnone
    · refine .inl ⟨hrow, fun row hrow => ?_⟩
      rw [sniToAppType_of_ne_nil hne, find?_mostSpecific hne hrow, Option.getD_some]
    · refine .inr ⟨hnone, ?_⟩
      have hfind : apexes.find? (fun row => isDomainOrSubdomain (normalizeDomain sni) row.1) =
          none := by
        rw [List.find?_eq_none]
        intro row hrow hmatch
        exact hnone row hrow ((isDomainOrSubdomain_apex hne hrow).mp hmatch)
      rw [sniToAppType_of_ne_nil hne, hfind]
      rfl
  · refine sniToAppType_congr ?_
    rw [normalizeDomain, h, normalizeDomain]
  · refine sniToAppType_congr ?_
    have hlast : (sni.map toLower).getLast? ≠ some 0x2E := by
      rw [List.getLast?_map]
      intro hdot
      obtain ⟨c, hc, hdot⟩ := Option.map_eq_some_iff.mp hdot
      exact h (hc.trans (congrArg some (toLower_eq_dot.mp hdot)))
    rw [normalizeDomain, normalizeDomain, dropTrailingDot, dropTrailingDot, if_neg hlast,
      List.map_append]
    simp [toLower]

example : sniToAppType (ascii "a.yt3.GGPHT.com.") = .youtube ∧
    sniToAppType (ascii "b.ggpht.com") = .google ∧ sniToAppType (ascii "notx.com") = .https := by
  decide +kernel

end DpiEngine
