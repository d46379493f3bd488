import DpiEngine.Rules.Domains
import Mathlib.Data.Finset.Lattice.Lemmas

/-! # Lists of rules

Rules can be joined. Each call that blocks joins one rule to the others, and joined
rules block the addresses, applications and domains that one of them blocks alone.
-/

namespace DpiEngine.RuleManager

def union (a b : RuleManager) : RuleManager where
  blockedIps := a.blockedIps ∪ b.blockedIps
  blockedApps := a.blockedApps ∪ b.blockedApps
  blockedDomains := a.blockedDomains ∪ b.blockedDomains
  domainPatterns := a.domainPatterns ++ b.domainPatterns
  blockedPorts := a.blockedPorts ∪ b.blockedPorts

theorem isDomainBlocked_iff_exists (rules : RuleManager) {domain : Name} (hne : domain ≠ []) :
    rules.isDomainBlocked domain = true ↔
      (∃ entry ∈ rules.blockedDomains, normalizeDomain domain = entry ∨
        isSubdomainOf (normalizeDomain domain) entry = true) ∨
      ∃ pattern ∈ rules.domainPatterns,
        domainMatchesPattern (normalizeDomain domain) (pattern.map toLower) = true := by
  have hempty : domain.isEmpty = false := by simpa using hne
  rw [isDomainBlocked, if_neg (by simp [hempty])]
  simp [and_or_left, exists_or]

theorem isDomainBlocked_union (a b : RuleManager) (domain : Name) :
    (a.union b).isDomainBlocked domain = true ↔
      a.isDomainBlocked domain = true ∨ b.isDomainBlocked domain = true := by
  by_cases hne : domain = []
  · subst hne
    exact iff_of_false (by simp [isDomainBlocked]) (by simp [isDomainBlocked])
  · rw [isDomainBlocked_iff_exists _ hne, isDomainBlocked_iff_exists _ hne,
      isDomainBlocked_iff_exists _ hne]
    simp only [union, Finset.mem_union, List.mem_append, or_and_right, exists_or]
    exact or_or_or_comm

theorem isIPBlocked_union (a b : RuleManager) (ip : UInt32) :
    (a.union b).isIPBlocked ip = true ↔ a.isIPBlocked ip = true ∨ b.isIPBlocked ip = true := by
  simp [isIPBlocked, union]

theorem isAppBlocked_union (a b : RuleManager) (app : AppType) :
    (a.union b).isAppBlocked app = true ↔
      a.isAppBlocked app = true ∨ b.isAppBlocked app = true := by
  simp [isAppBlocked, union]

theorem foldl_union {P : RuleManager → Prop} (hP : ∀ a b, P (a.union b) ↔ P a ∨ P b)
    (l : List RuleManager) (base : RuleManager) :
    P (l.foldl union base) ↔ P base ∨ ∃ rules ∈ l, P rules := by
  induction l generalizing base with
  | nil => simp
  | cons rules l ih => rw [List.foldl_cons, ih, hP, List.exists_mem_cons_iff, or_assoc]

section Calls

variable (rules : RuleManager)

theorem blockAddress_eq (ip : UInt32) :
    rules.blockAddress ip = rules.union (({} : RuleManager).blockAddress ip) := by
  simp [blockAddress, union]

theorem blockApp_eq (app : AppType) :
    rules.blockApp app = rules.union (({} : RuleManager).blockApp app) := by
  simp [blockApp, union]

theorem blockDomain_eq (text : Name) :
    rules.blockDomain text = rules.union (({} : RuleManager).blockDomain text) := by
  unfold blockDomain
  by_cases hstar : 0x2A ∈ normalizeDomain text
  · simp [hstar, union]
  · simp [hstar, union]

theorem blockDomains_eq (texts : List Name) :
    rules.blockDomains texts = (texts.map (blockDomain {})).foldl union rules := by
  rw [blockDomains, List.foldl_map]
  exact congrArg (fun f => texts.foldl f rules) (funext₂ blockDomain_eq)

theorem blockIPs_eq (ips : List String) : rules.blockIPs ips =
    if ∀ ip ∈ ips, (parseIPv4Address ip).isSome = true then
      some (((ips.filterMap parseIPv4Address).map (blockAddress {})).foldl union rules)
    else none := by
  induction ips generalizing rules with
  | nil => rfl
  | cons ip ips ih =>
    rw [blockIPs, List.foldlM_cons, blockIP]
    cases hip : parseIPv4Address ip with
    | none => simp [hip]
    | some addr =>
      refine (ih (rules.blockAddress addr)).trans ?_
      rw [blockAddress_eq]
      simp [hip]

end Calls

/-! ### One rule alone -/

section Alone

variable (ip ip' : UInt32) (app app' : AppType) (text domain : Name)

theorem isIPBlocked_blockAddress :
    (({} : RuleManager).blockAddress ip').isIPBlocked ip = true ↔ ip = ip' := by
  simp [isIPBlocked, blockAddress]

theorem isAppBlocked_blockAddress :
    (({} : RuleManager).blockAddress ip).isAppBlocked app = false := by
  simp [isAppBlocked, blockAddress]

theorem isDomainBlocked_blockAddress :
    (({} : RuleManager).blockAddress ip).isDomainBlocked domain = false := by
  simp [isDomainBlocked, blockAddress]

theorem isAppBlocked_blockApp :
    (({} : RuleManager).blockApp app').isAppBlocked app = true ↔ app = app' := by
  simp [isAppBlocked, blockApp]

theorem isIPBlocked_blockApp : (({} : RuleManager).blockApp app).isIPBlocked ip = false := by
  simp [isIPBlocked, blockApp]

theorem isDomainBlocked_blockApp :
    (({} : RuleManager).blockApp app).isDomainBlocked domain = false := by
  simp [isDomainBlocked, blockApp]

theorem isIPBlocked_blockDomain :
    (({} : RuleManager).blockDomain text).isIPBlocked ip = false := by
  unfold blockDomain
  by_cases hstar : 0x2A ∈ normalizeDomain text <;> simp [hstar, isIPBlocked]

theorem isAppBlocked_blockDomain :
    (({} : RuleManager).blockDomain text).isAppBlocked app = false := by
  unfold blockDomain
  by_cases hstar : 0x2A ∈ normalizeDomain text <;> simp [hstar, isAppBlocked]

end Alone

end DpiEngine.RuleManager
