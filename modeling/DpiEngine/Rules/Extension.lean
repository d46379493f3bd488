import DpiEngine.Rules.Operations

/-! # More rules

Rules that contain others block what those block. Every call that blocks and
every file that is loaded adds to the rules in force.
-/

namespace DpiEngine.RuleManager

variable {rules rules' rules'' : RuleManager}

/-- The rules are among the others. -/
structure Within (rules rules' : RuleManager) : Prop where
  ips : rules.blockedIps ⊆ rules'.blockedIps
  apps : rules.blockedApps ⊆ rules'.blockedApps
  domains : rules.blockedDomains ⊆ rules'.blockedDomains
  patterns : rules.domainPatterns ⊆ rules'.domainPatterns
  ports : rules.blockedPorts ⊆ rules'.blockedPorts

namespace Within

theorem refl (rules : RuleManager) : rules.Within rules :=
  ⟨subset_rfl, subset_rfl, subset_rfl, List.Subset.refl _, subset_rfl⟩

theorem trans (h : rules.Within rules') (h' : rules'.Within rules'') : rules.Within rules'' where
  ips := Finset.Subset.trans h.ips h'.ips
  apps := Finset.Subset.trans h.apps h'.apps
  domains := Finset.Subset.trans h.domains h'.domains
  patterns := List.Subset.trans h.patterns h'.patterns
  ports := Finset.Subset.trans h.ports h'.ports

theorem isIPBlocked (h : rules.Within rules') {ip : UInt32} (hip : rules.isIPBlocked ip = true) :
    rules'.isIPBlocked ip = true := decide_eq_true (h.ips (of_decide_eq_true hip))

theorem isAppBlocked (h : rules.Within rules') {app : AppType}
    (happ : rules.isAppBlocked app = true) : rules'.isAppBlocked app = true :=
  decide_eq_true (h.apps (of_decide_eq_true happ))

theorem isDomainBlocked (h : rules.Within rules') {domain : Name}
    (hdomain : rules.isDomainBlocked domain = true) : rules'.isDomainBlocked domain = true := by
  unfold RuleManager.isDomainBlocked at *
  split_ifs at * with hempty
  simp only [Bool.or_eq_true, decide_eq_true_eq, List.any_eq_true] at *
  rcases hdomain with (hmem | ⟨entry, hentry, hsub⟩) | ⟨pattern, hpattern, hmatch⟩
  · exact .inl (.inl (h.domains hmem))
  · exact .inl (.inr ⟨entry, h.domains hentry, hsub⟩)
  · exact .inr ⟨pattern, h.patterns hpattern, hmatch⟩

end Within

/-- The call adds rules. -/
def Operation.Blocks : Operation → Prop
  | .blockAddress _ | .blockIP _ | .blockApp _ | .blockDomain _ | .blockPort _ => True
  | _ => False

theorem within_blockAddress (rules : RuleManager) (ip : UInt32) :
    rules.Within (rules.blockAddress ip) :=
  { Within.refl rules with ips := Finset.subset_insert ip rules.blockedIps }

theorem within_blockIP {ip : String} (h : rules.blockIP ip = some rules') :
    rules.Within rules' := by
  obtain ⟨addr, -, rfl⟩ := Option.map_eq_some_iff.mp h
  exact within_blockAddress rules addr

theorem within_blockApp (rules : RuleManager) (app : AppType) :
    rules.Within (rules.blockApp app) :=
  { Within.refl rules with apps := Finset.subset_insert app rules.blockedApps }

theorem within_blockDomain (rules : RuleManager) (domain : Name) :
    rules.Within (rules.blockDomain domain) := by
  unfold blockDomain
  dsimp only
  split_ifs
  · exact { Within.refl rules with patterns := List.subset_append_left _ _ }
  · exact { Within.refl rules with domains := Finset.subset_insert _ _ }

theorem within_blockPort (rules : RuleManager) (port : UInt16) :
    rules.Within (rules.blockPort port) :=
  { Within.refl rules with ports := Finset.subset_insert port rules.blockedPorts }

theorem within_perform {op : Operation} (hop : op.Blocks) (h : rules.perform op = some rules') :
    rules.Within rules' := by
  cases op with
  | blockIP ip => exact within_blockIP h
  | blockAddress ip =>
    cases h
    exact within_blockAddress rules ip
  | blockApp app =>
    cases h
    exact within_blockApp rules app
  | blockDomain domain =>
    cases h
    exact within_blockDomain rules domain
  | blockPort port =>
    cases h
    exact within_blockPort rules port
  | unblockAddress ip => exact hop.elim
  | unblockIP ip => exact hop.elim
  | unblockApp app => exact hop.elim
  | unblockDomain domain => exact hop.elim
  | unblockPort port => exact hop.elim

theorem within_loadLine {currentSection line : Name} {r : RuleManager × Name}
    (h : loadLine (rules, currentSection) line = some r) : rules.Within r.1 := by
  simp only [loadLine] at h
  split_ifs at h
  · cases h
    exact .refl rules
  · cases h
    exact .refl rules
  · obtain ⟨rules', hblock, rfl⟩ := Option.map_eq_some_iff.mp h
    exact within_blockIP hblock
  · split at h
    · cases h
      exact within_blockApp rules _
    · cases h
      exact .refl rules
  · cases h
    exact within_blockDomain rules line
  · obtain ⟨port, -, rfl⟩ := Option.map_eq_some_iff.mp h
    exact within_blockPort rules _
  · cases h
    exact .refl rules

theorem within_loadRules {file : List UInt8} (h : rules.loadRules file = some rules') :
    rules.Within rules' := by
  have hlines (lines : List Name) (s s' : RuleManager × Name)
      (h : lines.foldlM loadLine s = some s') : s.1.Within s'.1 := by
    induction lines generalizing s with
    | nil =>
      cases h
      exact .refl _
    | cons line lines ih =>
      rw [List.foldlM_cons] at h
      obtain ⟨t, ht, h⟩ := Option.bind_eq_some_iff.mp h
      exact (within_loadLine ht).trans (ih t h)
  obtain ⟨s, hs, rfl⟩ := Option.map_eq_some_iff.mp h
  exact hlines _ _ _ hs

end DpiEngine.RuleManager
