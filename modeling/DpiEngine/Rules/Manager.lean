import DpiEngine.Inspect.Names
import Mathlib.Data.Finset.Basic

/-! # The rule manager

Rules block addresses, applications, domains and ports. A domain rule covers the
subdomains too, a pattern `*.d` covers `d` and its subdomains. The locks of the
source are left out: the rules do not change during a run.
-/

namespace DpiEngine

structure RuleManager where
  blockedIps : Finset UInt32 := ∅
  blockedApps : Finset AppType := ∅
  blockedDomains : Finset Name := ∅
  domainPatterns : List Name := []
  blockedPorts : Finset UInt16 := ∅

/-- The address in dotted decimal, its first byte lowest. -/
def ipv4ToString (ip : UInt32) : String :=
  s!"{ip &&& 0xFF}.{ip >>> 8 &&& 0xFF}.{ip >>> 16 &&& 0xFF}.{ip >>> 24 &&& 0xFF}"

inductive BlockReason
  | ip (detail : String)
  | port (detail : String)
  | app (detail : String)
  | domain (detail : Name)
  deriving DecidableEq, Repr

namespace RuleManager

def isIPBlocked (rules : RuleManager) (ip : UInt32) : Bool := ip ∈ rules.blockedIps

def isAppBlocked (rules : RuleManager) (app : AppType) : Bool := app ∈ rules.blockedApps

def isPortBlocked (rules : RuleManager) (port : UInt16) : Bool := port ∈ rules.blockedPorts

/-- `domain` ends in a dot and the entry, with something before the dot. -/
def isSubdomainOf (domain entry : Name) : Bool :=
  if domain.length > entry.length + 1 then
    let dotPos := domain.length - entry.length - 1
    domain[dotPos]? = some 0x2E && domain.drop (dotPos + 1) = entry
  else false

def domainMatchesPattern (domain pattern : Name) : Bool :=
  if pattern.length ≥ 2 ∧ pattern[0]? = some 0x2A ∧ pattern[1]? = some 0x2E then
    (pattern.drop 1).isSuffixOf domain || domain = pattern.drop 2
  else false

def isDomainBlocked (rules : RuleManager) (domain : Name) : Bool :=
  if domain.isEmpty then false
  else
    let lowerDomain := normalizeDomain domain
    lowerDomain ∈ rules.blockedDomains ||
      decide (∃ entry ∈ rules.blockedDomains, isSubdomainOf lowerDomain entry) ||
      rules.domainPatterns.any fun pattern => domainMatchesPattern lowerDomain (pattern.map toLower)

/-- The combined check of the four kinds of rules. -/
def shouldBlock (rules : RuleManager) (srcIp : UInt32) (dstPort : UInt16) (app : AppType)
    (domain : Name) : Option BlockReason :=
  if rules.isIPBlocked srcIp then some (.ip (ipv4ToString srcIp))
  else if rules.isPortBlocked dstPort then some (.port (toString dstPort))
  else if rules.isAppBlocked app then some (.app (appTypeToString app))
  else if !domain.isEmpty && rules.isDomainBlocked domain then some (.domain domain)
  else none

theorem shouldBlock_eq_none_iff {rules : RuleManager} {srcIp : UInt32} {dstPort : UInt16}
    {app : AppType} {domain : Name} :
    rules.shouldBlock srcIp dstPort app domain = none ↔
      rules.isIPBlocked srcIp = false ∧ rules.isPortBlocked dstPort = false ∧
        rules.isAppBlocked app = false ∧ rules.isDomainBlocked domain = false := by
  have hempty : domain.isEmpty = true → rules.isDomainBlocked domain = false := by
    intro h; rw [isDomainBlocked, if_pos h]
  unfold shouldBlock
  split_ifs with hip hport happ hdomain
  · simp [hip]
  · simp [hport]
  · simp [happ]
  · simp only [Bool.and_eq_true] at hdomain
    simp [hdomain.2]
  · simp only [Bool.and_eq_true, not_and, Bool.not_eq_true, Bool.not_eq_true'] at *
    refine iff_of_true trivial ⟨hip, hport, happ, ?_⟩
    cases h : domain.isEmpty with
    | true => exact hempty h
    | false => exact hdomain h

end RuleManager

end DpiEngine
