import DpiEngine.Rules.Domains
import DpiEngine.Rules.Operations

/-! # The command line

The program takes the two files and then its options one by one. An option with a
value takes the next argument, whatever that looks like. The rules of the options
are given to the new engine: those of the file, then addresses, applications and
domains.
-/

namespace DpiEngine

/-- What the options say. -/
structure Options where
  numParserWorkers : ℤ := 2
  numLoadBalancers : ℤ := 2
  fpsPerLb : ℤ := 2
  verbose : Bool := false
  blockIps : List Name := []
  blockApps : List Name := []
  blockDomains : List Name := []
  rulesFile : Name := []
  jsonFile : Name := []
  deriving DecidableEq

/-- What `main` does after it has read its arguments. -/
inductive Launch
  | usage (exitCode : ℕ)
  | throws
  | run (inputFile outputFile : Name) (options : Options)
  deriving DecidableEq

namespace Options

/-- An option with its value: none if `arg` takes no value, and none inside if `std::stoi`
throws. -/
def withValue (o : Options) (arg value : Name) : Option (Option Options) :=
  if arg = ascii "--block-ip" then some (some { o with blockIps := o.blockIps ++ [value] })
  else if arg = ascii "--block-app" then some (some { o with blockApps := o.blockApps ++ [value] })
  else if arg = ascii "--block-domain" then
    some (some { o with blockDomains := o.blockDomains ++ [value] })
  else if arg = ascii "--rules" then some (some { o with rulesFile := value })
  else if arg = ascii "--json" then some (some { o with jsonFile := value })
  else if arg = ascii "--parser-workers" ∨ arg = ascii "-p" then
    some ((stoi value).map fun p => { o with numParserWorkers := if p < 1 then 1 else p })
  else if arg = ascii "--lbs" then
    some ((stoi value).map fun n => { o with numLoadBalancers := n })
  else if arg = ascii "--fps" then
    some ((stoi value).map fun n => { o with fpsPerLb := n })
  else none

/-- An argument without a value; none if it asks for the usage text. Others are ignored. -/
def withFlag (o : Options) (arg : Name) : Option Options :=
  if arg = ascii "--verbose" then some { o with verbose := true }
  else if arg = ascii "--help" ∨ arg = ascii "-h" then none
  else some o

/-- The loop over the arguments behind the files. An option is not one without an argument behind
it. -/
def parse (inputFile outputFile : Name) (o : Options) : List Name → Launch
  | [] => .run inputFile outputFile o
  | [arg] =>
    match o.withFlag arg with
    | some o => .run inputFile outputFile o
    | none => .usage 0
  | arg :: value :: args =>
    match o.withValue arg value with
    | some (some o) => o.parse inputFile outputFile args
    | some none => .throws
    | none =>
      match o.withFlag arg with
      | some o => o.parse inputFile outputFile (value :: args)
      | none => .usage 0

end Options

namespace DPIEngine

/-- `main` up to the engine's start. -/
def main : List Name → Launch
  | _ :: inputFile :: outputFile :: args => Options.parse inputFile outputFile {} args
  | _ => .usage 1

def blockApp (rules : RuleManager) (appName : Name) : RuleManager :=
  match appTypes.find? fun app => ascii (appTypeToString app) = appName with
  | some app => rules.blockApp app
  | none => rules

def loadRules (rules : RuleManager) (contents : Option (List UInt8)) : Option RuleManager :=
  match contents with
  | some file => rules.loadRules file
  | none => some rules

end DPIEngine

/-- The rules of the engine that `main` starts; none where the source is undefined or throws. -/
def Options.rules (o : Options) (readFile : Name → Option (List UInt8)) : Option RuleManager := do
  let rules ← if o.rulesFile.isEmpty then some {}
    else DPIEngine.loadRules {} (readFile o.rulesFile)
  let rules ← rules.blockIPs (o.blockIps.map latin1)
  some ((o.blockApps.foldl DPIEngine.blockApp rules).blockDomains o.blockDomains)

end DpiEngine
