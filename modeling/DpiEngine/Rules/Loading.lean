import DpiEngine.Rules.Persistence

/-! # Loading a file line by line

The last header decides what a line is read as. A line that is a rule changes one
kind of rules; an address and a port can fail.
-/

namespace DpiEngine

namespace RuleManager

inductive LineKind
  | ignored | header | ip | app | domain | port
  deriving DecidableEq, Repr

def lineKind (currentSection line : Name) : LineKind :=
  if line.isEmpty then .ignored
  else if line.head? = some 0x5B then .header
  else if currentSection = ascii "[BLOCKED_IPS]" then .ip
  else if currentSection = ascii "[BLOCKED_APPS]" then .app
  else if currentSection = ascii "[BLOCKED_DOMAINS]" then .domain
  else if currentSection = ascii "[BLOCKED_PORTS]" then .port
  else .ignored

/-- The lines with what they are read as, behind a header. -/
def readAs (currentSection : Name) : List Name → List (LineKind × Name)
  | [] => []
  | line :: lines =>
    (lineKind currentSection line, line) ::
      readAs (if lineKind currentSection line = .header then line else currentSection) lines

/-- The lines of a file with what they are read as. -/
def fileRules (file : List UInt8) : List (LineKind × Name) := readAs [] (Lines.lines newline file)

def applyLine (rules : RuleManager) : LineKind × Name → Option RuleManager
  | (.ip, line) => rules.blockIP (latin1 line)
  | (.app, line) =>
    some (match appTypes.find? fun app => ascii (appTypeToString app) = line with
      | some app => rules.blockApp app
      | none => rules)
  | (.domain, line) => some (rules.blockDomain line)
  | (.port, line) => (stoi line).map fun port => rules.blockPort (.ofInt port)
  | _ => some rules

theorem loadLine_eq (rules : RuleManager) (currentSection line : Name) :
    loadLine (rules, currentSection) line =
      (applyLine rules (lineKind currentSection line, line)).map fun rules =>
        (rules, if lineKind currentSection line = .header then line else currentSection) := by
  unfold loadLine lineKind
  by_cases hempty : line.isEmpty = true
  · simp only [if_pos hempty]
    rfl
  by_cases hheader : line.head? = some 0x5B
  · simp only [if_neg hempty, if_pos hheader]
    rfl
  simp only [if_neg hempty, if_neg hheader]
  by_cases hips : currentSection = ascii "[BLOCKED_IPS]"
  · simp only [if_pos hips]
    rfl
  by_cases happs : currentSection = ascii "[BLOCKED_APPS]"
  · simp only [if_neg hips, if_pos happs, applyLine]
    cases appTypes.find? fun app => ascii (appTypeToString app) = line <;> rfl
  by_cases hdomains : currentSection = ascii "[BLOCKED_DOMAINS]"
  · simp only [if_neg hips, if_neg happs, if_pos hdomains]
    rfl
  by_cases hports : currentSection = ascii "[BLOCKED_PORTS]"
  · simp only [if_neg hips, if_neg happs, if_neg hdomains, if_pos hports, applyLine]
    cases stoi line <;> rfl
  · simp only [if_neg hips, if_neg happs, if_neg hdomains, if_neg hports]
    rfl

theorem foldlM_loadLine_eq (rules : RuleManager) (currentSection : Name) (lines : List Name) :
    (lines.foldlM loadLine (rules, currentSection)).map Prod.fst =
      (readAs currentSection lines).foldlM applyLine rules := by
  induction lines generalizing rules currentSection with
  | nil => rfl
  | cons line lines ih =>
    rw [List.foldlM_cons, loadLine_eq, readAs, List.foldlM_cons]
    cases applyLine rules (lineKind currentSection line, line) with
    | none => rfl
    | some rules' => exact ih rules' _

theorem loadRules_eq (rules : RuleManager) (file : List UInt8) :
    loadRules rules file = (fileRules file).foldlM applyLine rules :=
  foldlM_loadLine_eq rules [] (Lines.lines newline file)

end RuleManager

end DpiEngine
