import DpiEngine.Library.Lines
import DpiEngine.Rules.Address

/-! # Changing, saving and loading the rules

Rules are added and removed one by one. A file of rules has one section for each
kind, with one rule a line; loading it adds its rules line by line.
-/

namespace DpiEngine

/-- The order in which an unordered set is walked through. -/
structure Walk {α : Type} (s : Finset α) where
  list : List α
  nodup : list.Nodup
  mem_iff : ∀ x, x ∈ list ↔ x ∈ s

def latin1 (line : Name) : String := String.ofList (line.map fun b => Char.ofNat b.toNat)

def newline : UInt8 := 0x0A

def appTypes : List AppType :=
  [.unknown, .http, .https, .dns, .tls, .quic, .google, .facebook, .youtube, .twitter, .instagram,
    .netflix, .amazon, .microsoft, .apple, .whatsapp, .telegram, .tiktok, .spotify, .zoom,
    .discord, .github, .cloudflare]

section Stoi

def isSpace (c : UInt8) : Bool := c = 0x20 || 0x09 ≤ c && c ≤ 0x0D

def isDigit (c : UInt8) : Bool := 0x30 ≤ c && c ≤ 0x39

def decimalValue (digits : List UInt8) : ℕ :=
  digits.foldl (fun n c => n * 10 + (c.toNat - 0x30)) 0

/-- `std::stoi`: none if it throws. -/
def stoi (s : Name) : Option ℤ :=
  let s := s.dropWhile isSpace
  let negative := s.head? = some 0x2D
  let s := if s.head? = some 0x2D ∨ s.head? = some 0x2B then s.tail else s
  let digits := s.takeWhile isDigit
  let n : ℤ := decimalValue digits
  let value := if negative then -n else n
  if digits.isEmpty then none
  else if -2 ^ 31 ≤ value ∧ value < 2 ^ 31 then some value else none

end Stoi

namespace RuleManager

def blockAddress (rules : RuleManager) (ip : UInt32) : RuleManager :=
  { rules with blockedIps := insert ip rules.blockedIps }

def unblockAddress (rules : RuleManager) (ip : UInt32) : RuleManager :=
  { rules with blockedIps := rules.blockedIps.erase ip }

def unblockIP (rules : RuleManager) (ip : String) : Option RuleManager :=
  (parseIPv4Address ip).map rules.unblockAddress

def blockApp (rules : RuleManager) (app : AppType) : RuleManager :=
  { rules with blockedApps := insert app rules.blockedApps }

def unblockApp (rules : RuleManager) (app : AppType) : RuleManager :=
  { rules with blockedApps := rules.blockedApps.erase app }

def blockDomain (rules : RuleManager) (domain : Name) : RuleManager :=
  let normalizedDomain := normalizeDomain domain
  if 0x2A ∈ normalizedDomain then
    { rules with domainPatterns := rules.domainPatterns ++ [normalizedDomain] }
  else { rules with blockedDomains := insert normalizedDomain rules.blockedDomains }

def unblockDomain (rules : RuleManager) (domain : Name) : RuleManager :=
  let normalizedDomain := normalizeDomain domain
  if 0x2A ∈ normalizedDomain then
    { rules with domainPatterns := rules.domainPatterns.erase normalizedDomain }
  else { rules with blockedDomains := rules.blockedDomains.erase normalizedDomain }

def blockPort (rules : RuleManager) (port : UInt16) : RuleManager :=
  { rules with blockedPorts := insert port rules.blockedPorts }

def unblockPort (rules : RuleManager) (port : UInt16) : RuleManager :=
  { rules with blockedPorts := rules.blockedPorts.erase port }

/-- The calls that change the rules. -/
inductive Operation
  | blockAddress (ip : UInt32)
  | unblockAddress (ip : UInt32)
  | blockIP (ip : String)
  | unblockIP (ip : String)
  | blockApp (app : AppType)
  | unblockApp (app : AppType)
  | blockDomain (domain : Name)
  | unblockDomain (domain : Name)
  | blockPort (port : UInt16)
  | unblockPort (port : UInt16)

/-- The effect of a call; none where the source is undefined. -/
def perform (rules : RuleManager) : Operation → Option RuleManager
  | .blockAddress ip => some (rules.blockAddress ip)
  | .unblockAddress ip => some (rules.unblockAddress ip)
  | .blockIP ip => rules.blockIP ip
  | .unblockIP ip => rules.unblockIP ip
  | .blockApp app => some (rules.blockApp app)
  | .unblockApp app => some (rules.unblockApp app)
  | .blockDomain domain => some (rules.blockDomain domain)
  | .unblockDomain domain => some (rules.unblockDomain domain)
  | .blockPort port => some (rules.blockPort port)
  | .unblockPort port => some (rules.unblockPort port)

/-! ### Files of rules -/

/-- The orders in which the sets are written. -/
structure SaveOrder (rules : RuleManager) where
  ips : Walk rules.blockedIps
  apps : Walk rules.blockedApps
  domains : Walk rules.blockedDomains
  ports : Walk rules.blockedPorts

def getBlockedDomains {rules : RuleManager} (order : SaveOrder rules) : List Name :=
  order.domains.list ++ rules.domainPatterns

def saveRules (rules : RuleManager) (order : SaveOrder rules) : List UInt8 :=
  ascii "[BLOCKED_IPS]\n" ++
    order.ips.list.flatMap (fun ip => ascii (ipv4ToString ip) ++ [newline]) ++
  ascii "\n[BLOCKED_APPS]\n" ++
    order.apps.list.flatMap (fun app => ascii (appTypeToString app) ++ [newline]) ++
  ascii "\n[BLOCKED_DOMAINS]\n" ++
    (getBlockedDomains order).flatMap (fun domain => domain ++ [newline]) ++
  ascii "\n[BLOCKED_PORTS]\n" ++
    order.ports.list.flatMap (fun port => ascii (toString port) ++ [newline])

/-- One line of a file, with the rules and the section so far. -/
def loadLine (state : RuleManager × Name) (line : Name) : Option (RuleManager × Name) :=
  let (rules, currentSection) := state
  if line.isEmpty then some (rules, currentSection)
  else if line.head? = some 0x5B then some (rules, line)
  else if currentSection = ascii "[BLOCKED_IPS]" then
    (rules.blockIP (latin1 line)).map fun rules => (rules, currentSection)
  else if currentSection = ascii "[BLOCKED_APPS]" then
    match appTypes.find? fun app => ascii (appTypeToString app) = line with
    | some app => some (rules.blockApp app, currentSection)
    | none => some (rules, currentSection)
  else if currentSection = ascii "[BLOCKED_DOMAINS]" then
    some (rules.blockDomain line, currentSection)
  else if currentSection = ascii "[BLOCKED_PORTS]" then
    (stoi line).map fun port => (rules.blockPort (.ofInt port), currentSection)
  else some (rules, currentSection)

/-- The rules after the file was read; none if a line is undefined or throws. -/
def loadRules (rules : RuleManager) (file : List UInt8) : Option RuleManager :=
  ((Lines.lines newline file).foldlM loadLine (rules, [])).map Prod.fst

end RuleManager

end DpiEngine
