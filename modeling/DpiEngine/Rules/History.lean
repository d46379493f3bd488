import DpiEngine.Library.Copies
import DpiEngine.Rules.Loading

/-! # The history of the domain rules

Domains are blocked and unblocked by calls and by files of rules. A rule without a
wildcard is there exactly when it was blocked last. Copies of a wildcard rule add
up, and each call of `unblockDomain` removes one of them.
-/

namespace DpiEngine

namespace RuleManager

/-- The calls that change the domain rules. -/
inductive DomainCall
  | block (domain : Name)
  | unblock (domain : Name)
  | load (file : List UInt8)

/-- A port that `std::stoi` does not read: it throws. -/
def throws (line : LineKind × Name) : Bool := line.1 = .port && (stoi line.2).isNone

/-- The rules when the loading of lines returns or throws; none where the source is undefined. -/
def loadUntil (rules : RuleManager) : List (LineKind × Name) → Option RuleManager
  | [] => some rules
  | line :: lines =>
    if throws line then some rules else (applyLine rules line).bind (loadUntil · lines)

def loadedDomains (lines : List (LineKind × Name)) : List Name :=
  ((lines.takeWhile fun line => !throws line).filter fun line => line.1 = .domain).map Prod.snd

namespace DomainCall

def perform (rules : RuleManager) : DomainCall → Option RuleManager
  | .block domain => some (rules.blockDomain domain)
  | .unblock domain => some (rules.unblockDomain domain)
  | .load file => loadUntil rules (fileRules file)

/-- The domains that are blocked (`true`) and unblocked (`false`). -/
def changes : DomainCall → List (Bool × Name)
  | .block domain => [(true, domain)]
  | .unblock domain => [(false, domain)]
  | .load file => (loadedDomains (fileRules file)).map (true, ·)

/-- A call whose effect is defined. -/
def Step (rules : RuleManager) (c : DomainCall) (rules' : RuleManager) : Prop :=
  c.perform rules = some rules'

end DomainCall

/-- What the changes did to the rule `r`, in order: it was blocked (`true`) or unblocked. -/
def decisions (changes : List (Bool × Name)) (r : Name) : List Bool :=
  (changes.filter fun c => normalizeDomain c.2 = r).map Prod.fst

theorem loadUntil_of_foldlM {lines : List (LineKind × Name)} {rules rules' : RuleManager}
    (h : lines.foldlM applyLine rules = some rules') : loadUntil rules lines = some rules' := by
  induction lines generalizing rules with
  | nil => exact h
  | cons line lines ih =>
    obtain ⟨next, hnext, h⟩ := Option.bind_eq_some_iff.mp h
    have hthrows : throws line = false := by
      obtain ⟨kind, line⟩ := line
      cases kind with
      | port =>
        obtain ⟨port, hport, -⟩ := Option.map_eq_some_iff.mp hnext
        simp [throws, hport]
      | _ => rfl
    rw [loadUntil, hthrows, hnext]
    exact ih h

theorem perform_load_of_loadRules {rules rules' : RuleManager} {file : List UInt8}
    (h : loadRules rules file = some rules') :
    (DomainCall.load file).perform rules = some rules' :=
  loadUntil_of_foldlM (loadRules_eq rules file ▸ h)

/-! ### Calls are changes -/

section Changes

/-- The domain rules are the same. -/
structure SameDomains (rules rules' : RuleManager) : Prop where
  domains : rules.blockedDomains = rules'.blockedDomains
  patterns : rules.domainPatterns = rules'.domainPatterns

/-- A domain is blocked or unblocked. -/
def change (rules : RuleManager) (c : Bool × Name) : RuleManager :=
  if c.1 then rules.blockDomain c.2 else rules.unblockDomain c.2

variable {rules rules' base : RuleManager}

theorem blockedDomains_change (rules : RuleManager) (c : Bool × Name) :
    (rules.change c).blockedDomains =
      if 0x2A ∈ normalizeDomain c.2 then rules.blockedDomains
      else if c.1 then insert (normalizeDomain c.2) rules.blockedDomains
      else rules.blockedDomains.erase (normalizeDomain c.2) := by
  by_cases hstar : 0x2A ∈ normalizeDomain c.2 <;> by_cases hc : c.1 = true <;>
    simp [change, blockDomain, unblockDomain, hstar, hc]

theorem domainPatterns_change (rules : RuleManager) (c : Bool × Name) :
    (rules.change c).domainPatterns =
      if 0x2A ∈ normalizeDomain c.2 then
        if c.1 then rules.domainPatterns ++ [normalizeDomain c.2]
        else rules.domainPatterns.erase (normalizeDomain c.2)
      else rules.domainPatterns := by
  by_cases hstar : 0x2A ∈ normalizeDomain c.2 <;> by_cases hc : c.1 = true <;>
    simp [change, blockDomain, unblockDomain, hstar, hc]

theorem SameDomains.change (h : SameDomains rules base) (c : Bool × Name) :
    SameDomains (rules.change c) (base.change c) := by
  constructor
  · rw [blockedDomains_change, blockedDomains_change, h.domains]
  · rw [domainPatterns_change, domainPatterns_change, h.patterns]

theorem applyLine_changes {line : LineKind × Name} (h : applyLine rules line = some rules') :
    line.1 = .domain ∧ rules' = rules.change (true, line.2) ∨
      line.1 ≠ .domain ∧ SameDomains rules' rules := by
  obtain ⟨kind, line⟩ := line
  cases kind with
  | ignored | header =>
    cases h
    exact .inr ⟨nofun, rfl, rfl⟩
  | ip =>
    obtain ⟨ip, -, rfl⟩ := Option.map_eq_some_iff.mp h
    exact .inr ⟨nofun, rfl, rfl⟩
  | app =>
    cases h
    refine .inr ⟨nofun, ?_⟩
    split <;> exact ⟨rfl, rfl⟩
  | domain =>
    cases h
    exact .inl ⟨rfl, rfl⟩
  | port =>
    obtain ⟨port, -, rfl⟩ := Option.map_eq_some_iff.mp h
    exact .inr ⟨nofun, rfl, rfl⟩

theorem loadUntil_changes {lines : List (LineKind × Name)} (hbase : SameDomains rules base)
    (h : loadUntil rules lines = some rules') :
    SameDomains rules' (((loadedDomains lines).map (true, ·)).foldl change base) := by
  induction lines generalizing rules base with
  | nil =>
    cases h
    exact hbase
  | cons line lines ih =>
    rw [loadUntil] at h
    split_ifs at h with hthrows
    · cases h
      simpa [loadedDomains, hthrows] using hbase
    · obtain ⟨next, hnext, h⟩ := Option.bind_eq_some_iff.mp h
      rcases applyLine_changes hnext with ⟨hdomain, rfl⟩ | ⟨hother, hsame⟩
      · have hcons : loadedDomains (line :: lines) = line.2 :: loadedDomains lines := by
          simp [loadedDomains, hthrows, hdomain]
        rw [hcons]
        exact ih (hbase.change _) h
      · have hskip : loadedDomains (line :: lines) = loadedDomains lines := by
          simp [loadedDomains, hthrows, hother]
        rw [hskip]
        exact ih ⟨hsame.domains.trans hbase.domains, hsame.patterns.trans hbase.patterns⟩ h

theorem run_changes {calls : List DomainCall}
    (h : Run DomainCall.Step rules calls rules') (hbase : SameDomains rules base) :
    SameDomains rules' ((calls.flatMap DomainCall.changes).foldl change base) := by
  induction h generalizing base with
  | nil => exact hbase
  | @cons _ _ _ c _ hstep _ ih =>
    rw [List.flatMap_cons, List.foldl_append]
    refine ih ?_
    cases c with
    | block domain =>
      cases hstep
      exact hbase.change (true, domain)
    | unblock domain =>
      cases hstep
      exact hbase.change (false, domain)
    | load file => exact loadUntil_changes hbase hstep

end Changes

/-! ### The rules after a history -/

section Presence

variable {rules : RuleManager} {r : Name}

/-- The rule is there, in one of the two containers. -/
def Present (rules : RuleManager) (r : Name) : Prop :=
  r ∈ rules.blockedDomains ∨ r ∈ rules.domainPatterns

theorem decisions_append (cs cs' : List (Bool × Name)) (r : Name) :
    decisions (cs ++ cs') r = decisions cs r ++ decisions cs' r := by
  simp [decisions]

theorem decisions_singleton (c : Bool × Name) (r : Name) :
    decisions [c] r = if normalizeDomain c.2 = r then [c.1] else [] := by
  by_cases h : normalizeDomain c.2 = r <;> simp [decisions, h]

theorem mem_blockedDomains_changes (hr : 0x2A ∉ r) (cs : List (Bool × Name)) :
    (r ∈ (cs.foldl change {}).blockedDomains ↔ (decisions cs r).getLast? = some true) ∧
      r ∉ (cs.foldl change {}).domainPatterns := by
  induction cs using List.reverseRecOn with
  | nil => simp [decisions]
  | append_singleton cs c ih =>
    obtain ⟨hmem, hpattern⟩ := ih
    rw [List.foldl_append, List.foldl_cons, List.foldl_nil, blockedDomains_change,
      domainPatterns_change, decisions_append, decisions_singleton]
    by_cases hc : normalizeDomain c.2 = r
    · subst hc
      rw [if_neg hr, if_neg hr, if_pos rfl, List.getLast?_append_of_ne_nil _ (by simp)]
      refine ⟨?_, hpattern⟩
      by_cases hblock : c.1 = true <;> simp [hblock]
    · rw [if_neg hc, List.append_nil, ← hmem]
      constructor
      · split_ifs <;> simp [Ne.symm hc]
      · split_ifs
        · simp [hpattern, Ne.symm hc]
        · exact fun h => hpattern (List.mem_of_mem_erase h)
        · exact hpattern

/-- The copies of a wildcard rule are counted in the vector. -/
theorem count_domainPatterns_changes (hr : 0x2A ∈ r) (cs : List (Bool × Name)) :
    (cs.foldl change {}).domainPatterns.count r = Copies.left 0 (decisions cs r) ∧
      r ∉ (cs.foldl change {}).blockedDomains := by
  induction cs using List.reverseRecOn with
  | nil => simp [decisions]
  | append_singleton cs c ih =>
    obtain ⟨hcount, hmem⟩ := ih
    rw [List.foldl_append, List.foldl_cons, List.foldl_nil, blockedDomains_change,
      domainPatterns_change, decisions_append, decisions_singleton]
    by_cases hc : normalizeDomain c.2 = r
    · subst hc
      rw [if_pos hr, if_pos hr, if_pos rfl, Copies.left_append, ← hcount]
      refine ⟨?_, hmem⟩
      by_cases hblock : c.1 = true <;> simp [hblock]
    · rw [if_neg hc, List.append_nil, ← hcount]
      constructor
      · split_ifs <;> simp [hc, List.count_erase_of_ne (Ne.symm hc)]
      · split_ifs
        · exact hmem
        · simp [hmem, Ne.symm hc]
        · exact fun h => hmem (Finset.mem_of_mem_erase h)

theorem present_exact (hr : 0x2A ∉ r) (cs : List (Bool × Name)) :
    Present (cs.foldl change {}) r ↔ (decisions cs r).getLast? = some true := by
  obtain ⟨hmem, hpattern⟩ := mem_blockedDomains_changes hr cs
  rw [Present, hmem, or_iff_left hpattern]

theorem present_wildcard (hr : 0x2A ∈ r) (cs : List (Bool × Name)) :
    Present (cs.foldl change {}) r ↔ Copies.left 0 (decisions cs r) ≠ 0 := by
  obtain ⟨hcount, hmem⟩ := count_domainPatterns_changes hr cs
  rw [Present, or_iff_right hmem, ← hcount, ← List.count_pos_iff, Nat.pos_iff_ne_zero]

/-- The last call for each rule decides whether it is there, if and only if after the last call
for a wildcard rule that is unblocked then no copies are left: from every call for it on there
are at least as many that unblock it as that block it. -/
theorem lastCall_decides_iff {calls : List DomainCall} (h : Run DomainCall.Step {} calls rules) :
    (∀ r, Present rules r ↔
        (decisions (calls.flatMap DomainCall.changes) r).getLast? = some true) ↔
      ∀ r, 0x2A ∈ r → (decisions (calls.flatMap DomainCall.changes) r).getLast? = some false →
        ∀ s, s <:+ decisions (calls.flatMap DomainCall.changes) r →
          s.count true ≤ s.count false := by
  obtain ⟨hdomains, hpatterns⟩ := run_changes h ⟨rfl, rfl⟩
  generalize hcs : calls.flatMap DomainCall.changes = cs at *
  have hpresent (r : Name) : Present rules r ↔ Present (cs.foldl change {}) r := by
    rw [Present, Present, hdomains, hpatterns]
  simp only [hpresent]
  constructor
  · intro hlast r hr hunblock
    rw [← Copies.left_zero_eq_zero_iff]
    by_contra hleft
    have hblock := (hlast r).mp ((present_wildcard hr cs).mpr hleft)
    rw [hunblock] at hblock
    exact absurd hblock (by simp)
  · intro hbalanced r
    by_cases hr : 0x2A ∈ r
    · rw [present_wildcard hr]
      rcases hlast : (decisions cs r).getLast? with _ | _ | _
      · rw [List.getLast?_eq_none_iff.mp hlast]
        simp
      · rw [Copies.left_zero_eq_zero_iff.mpr (hbalanced r hr hlast)]
        simp
      · exact iff_of_true (Copies.left_ne_zero_of_getLast? hlast) rfl
    · exact present_exact hr cs

/-- A wildcard rule that is blocked once and unblocked is gone, and one of a file is in force. -/
theorem lastCall_decides_iff_wildcard : ∃ rules, Run DomainCall.Step {}
    [.load (ascii "[BLOCKED_DOMAINS]\n*.Evil.com\n"), .block (ascii "*.a"),
      .unblock (ascii "*.A")] rules ∧
    Present rules (ascii "*.evil.com") ∧ ¬ Present rules (ascii "*.a") := by
  have hrun : Run DomainCall.Step {} [.load (ascii "[BLOCKED_DOMAINS]\n*.Evil.com\n"),
      .block (ascii "*.a"), .unblock (ascii "*.A")]
      { domainPatterns := [ascii "*.evil.com"] } :=
    .cons (by rfl) (.cons (by rfl) (.cons (by rfl) (.nil _)))
  have hlast := (lastCall_decides_iff hrun).mpr fun r _ hunblock => ?_
  · exact ⟨_, hrun, (hlast _).mpr (by decide), mt (hlast _).mp (by decide)⟩
  · by_cases hr : r = ascii "*.a"
    · subst hr
      exact Copies.left_zero_eq_zero_iff.mp (by decide)
    · -- no other rule is unblocked
      have hne : normalizeDomain (ascii "*.A") ≠ r := by
        rintro rfl
        exact hr (by decide)
      have hmem := List.mem_of_getLast? hunblock
      simp [decisions, DomainCall.changes, hne] at hmem

/-- A wildcard rule that is blocked twice is left after it is unblocked. -/
theorem not_lastCall_decides :
    ¬ ∀ calls rules, Run DomainCall.Step {} calls rules → ∀ r, Present rules r ↔
      (decisions (calls.flatMap DomainCall.changes) r).getLast? = some true := by
  intro h
  have hrun : Run DomainCall.Step {} [.block (ascii "*.a"), .block (ascii "*.a"),
      .unblock (ascii "*.a")] { domainPatterns := [ascii "*.a"] } :=
    .cons (by rfl) (.cons (by rfl) (.cons (by rfl) (.nil _)))
  have hblock := (h _ _ hrun (ascii "*.a")).mp (.inr List.mem_cons_self)
  exact absurd hblock (by decide)

end Presence

end RuleManager

end DpiEngine
