import DpiEngine.FastPath.Client
import DpiEngine.Rules.Texts
import DpiEngine.Rules.Union
import DpiEngine.Service.CommandLine

/-! # The dashboard

The dashboard runs the program with the rules of a request as options. The program
reads the request back whatever its texts are, and the checks of its processors block
what one of the requested rules blocks alone.
-/

namespace DpiEngine

open RuleManager

/-- The rules of a request, and its number of parser workers as a text. -/
structure AnalysisRequest where
  blockApps : List Name := []
  blockDomains : List Name := []
  blockIps : List Name := []
  parsers : Name := ascii "4"

namespace AnalysisRequest

variable (r : AnalysisRequest) (exe inputPcap outputPcap jsonReport : Name) (p : ℤ)

/-- The arguments of the subprocess. -/
def cmd : List Name :=
  [exe, inputPcap, outputPcap, ascii "--json", jsonReport, ascii "-p", r.parsers] ++
    r.blockApps.flatMap (fun app => [ascii "--block-app", app]) ++
    r.blockDomains.flatMap (fun dom => [ascii "--block-domain", dom]) ++
    r.blockIps.flatMap (fun ip => [ascii "--block-ip", ip])

def options : Options where
  numParserWorkers := max p 1
  blockIps := r.blockIps
  blockApps := r.blockApps
  blockDomains := r.blockDomains
  jsonFile := jsonReport

end AnalysisRequest

namespace Options

variable {inputFile outputFile : Name}

theorem parse_value {o o' : Options} {arg value : Name}
    (h : o.withValue arg value = some (some o')) (args : List Name) :
    o.parse inputFile outputFile (arg :: value :: args) = o'.parse inputFile outputFile args := by
  rw [parse, h]

theorem parse_flatMap (arg : Name) (put : Options → List Name → Options)
    (hnil : ∀ o, put o [] = o)
    (hvalue : ∀ o value, o.withValue arg value = some (some (put o [value])))
    (hcons : ∀ o value values, put (put o [value]) values = put o (value :: values))
    (o : Options) (values args : List Name) :
    o.parse inputFile outputFile (values.flatMap (fun value => [arg, value]) ++ args) =
      (put o values).parse inputFile outputFile args := by
  induction values generalizing o with
  | nil => rw [hnil]; rfl
  | cons value values ih =>
    rw [List.flatMap_cons, List.append_assoc, ← hcons, ← ih]
    exact parse_value (hvalue o value) _

theorem parse_blockApps (o : Options) (apps args : List Name) :
    o.parse inputFile outputFile (apps.flatMap (fun app => [ascii "--block-app", app]) ++ args) =
      { o with blockApps := o.blockApps ++ apps }.parse inputFile outputFile args :=
  parse_flatMap _ (fun o apps => { o with blockApps := o.blockApps ++ apps })
    (by simp) (fun _ _ => rfl) (by simp) o apps args

theorem parse_blockDomains (o : Options) (domains args : List Name) :
    o.parse inputFile outputFile
        (domains.flatMap (fun dom => [ascii "--block-domain", dom]) ++ args) =
      { o with blockDomains := o.blockDomains ++ domains }.parse inputFile outputFile args :=
  parse_flatMap _ (fun o domains => { o with blockDomains := o.blockDomains ++ domains })
    (by simp) (fun _ _ => rfl) (by simp) o domains args

theorem parse_blockIps (o : Options) (ips args : List Name) :
    o.parse inputFile outputFile (ips.flatMap (fun ip => [ascii "--block-ip", ip]) ++ args) =
      { o with blockIps := o.blockIps ++ ips }.parse inputFile outputFile args :=
  parse_flatMap _ (fun o ips => { o with blockIps := o.blockIps ++ ips })
    (by simp) (fun _ _ => rfl) (by simp) o ips args

end Options

theorem DPIEngine.blockApp_eq (rules : RuleManager) (appName : Name) :
    DPIEngine.blockApp rules appName = rules.union (DPIEngine.blockApp {} appName) := by
  unfold DPIEngine.blockApp
  cases appTypes.find? fun app => ascii (appTypeToString app) = appName with
  | none => simp [union]
  | some app => exact RuleManager.blockApp_eq rules app

section BlockApp

variable (appName : Name) (ip : UInt32) (app : AppType) (domain : Name)

theorem DPIEngine.isAppBlocked_blockApp :
    (DPIEngine.blockApp {} appName).isAppBlocked app = true ↔
      ascii (appTypeToString app) = appName := by
  unfold DPIEngine.blockApp
  cases hnamed : appTypes.find? fun app => ascii (appTypeToString app) = appName with
  | some named =>
    have hname : ascii (appTypeToString named) = appName := by simpa using List.find?_some hnamed
    rw [← hname]
    exact (RuleManager.isAppBlocked_blockApp app named).trans
      ⟨fun h => h ▸ rfl, appTypeToString_inj⟩
  | none =>
    have hmem : app ∈ appTypes := by cases app <;> decide
    have hne : ascii (appTypeToString app) ≠ appName := by
      simpa using List.find?_eq_none.mp hnamed app hmem
    exact iff_of_false (by simp [isAppBlocked]) hne

theorem DPIEngine.isIPBlocked_blockApp :
    (DPIEngine.blockApp {} appName).isIPBlocked ip = false := by
  unfold DPIEngine.blockApp
  split
  · exact RuleManager.isIPBlocked_blockApp ip _
  · simp [isIPBlocked]

theorem DPIEngine.isDomainBlocked_blockApp :
    (DPIEngine.blockApp {} appName).isDomainBlocked domain = false := by
  unfold DPIEngine.blockApp
  split
  · exact RuleManager.isDomainBlocked_blockApp _ domain
  · simp [isDomainBlocked]

end BlockApp

namespace Options

variable (o : Options) (readFile : Name → Option (List UInt8))

theorem rules_eq (hfile : o.rulesFile = []) : o.rules readFile =
    if ∀ ip ∈ o.blockIps, (parseIPv4Address (latin1 ip)).isSome = true then
      some (((o.blockIps.filterMap fun ip => parseIPv4Address (latin1 ip)).map (blockAddress {}) ++
        o.blockApps.map (DPIEngine.blockApp {}) ++
        o.blockDomains.map (blockDomain {})).foldl union {})
    else none := by
  have happs (rules : RuleManager) : o.blockApps.foldl DPIEngine.blockApp rules =
      (o.blockApps.map (DPIEngine.blockApp {})).foldl union rules := by
    rw [List.foldl_map]
    exact congrArg (fun f => o.blockApps.foldl f rules) (funext₂ DPIEngine.blockApp_eq)
  rw [Options.rules, hfile]
  change (({} : RuleManager).blockIPs (o.blockIps.map latin1) >>= fun rules => _) = _
  rw [blockIPs_eq, List.filterMap_map]
  simp only [List.forall_mem_map]
  split_ifs with hips
  · rw [List.foldl_append, List.foldl_append, ← happs, ← blockDomains_eq]
    rfl
  · rfl

variable {o readFile}

theorem isSome_rules (hfile : o.rulesFile = []) : (o.rules readFile).isSome = true ↔
    ∀ ip ∈ o.blockIps, (parseIPv4Address (latin1 ip)).isSome = true := by
  rw [rules_eq o readFile hfile]
  split_ifs with hips
  · exact iff_of_true rfl hips
  · exact iff_of_false (by simp) hips

section Joined

variable {rules : RuleManager} (hfile : o.rulesFile = []) (h : o.rules readFile = some rules)
include hfile h

/-- The rules do what one of the options does alone. -/
theorem rules_iff {P : RuleManager → Prop} (hunion : ∀ a b, P (a.union b) ↔ P a ∨ P b)
    (hempty : ¬ P {}) : P rules ↔
      (∃ ip ∈ o.blockIps, ∃ addr, parseIPv4Address (latin1 ip) = some addr ∧
        P (blockAddress {} addr)) ∨
      (∃ appName ∈ o.blockApps, P (DPIEngine.blockApp {} appName)) ∨
      ∃ text ∈ o.blockDomains, P (blockDomain {} text) := by
  rw [rules_eq o readFile hfile] at h
  split_ifs at h
  cases h
  rw [foldl_union hunion]
  simp only [hempty, false_or, List.mem_append, List.mem_map, List.mem_filterMap, or_and_right,
    exists_or]
  rw [or_assoc]
  refine or_congr ?_ (or_congr ?_ ?_)
  · constructor
    · rintro ⟨-, ⟨addr, ⟨ip, hip, haddr⟩, rfl⟩, hblock⟩
      exact ⟨ip, hip, addr, haddr, hblock⟩
    · rintro ⟨ip, hip, addr, haddr, hblock⟩
      exact ⟨_, ⟨addr, ⟨ip, hip, haddr⟩, rfl⟩, hblock⟩
  all_goals
    constructor
    · rintro ⟨-, ⟨text, htext, rfl⟩, hblock⟩
      exact ⟨text, htext, hblock⟩
    · rintro ⟨text, htext, hblock⟩
      exact ⟨_, ⟨text, htext, rfl⟩, hblock⟩

theorem addressBlocked_iff (ip : UInt32) : rules.isIPBlocked ip = true ↔
    ∃ text ∈ o.blockIps, parseIPv4Address (latin1 text) = some ip := by
  rw [rules_iff hfile h (P := fun rules => rules.isIPBlocked ip = true)
    (fun a b => isIPBlocked_union a b ip) (by simp [isIPBlocked])]
  simp [isIPBlocked_blockAddress, DPIEngine.isIPBlocked_blockApp, isIPBlocked_blockDomain]

theorem appBlocked_iff (app : AppType) : rules.isAppBlocked app = true ↔
    ascii (appTypeToString app) ∈ o.blockApps := by
  rw [rules_iff hfile h (P := fun rules => rules.isAppBlocked app = true)
    (fun a b => isAppBlocked_union a b app) (by simp [isAppBlocked])]
  simp [isAppBlocked_blockAddress, DPIEngine.isAppBlocked_blockApp, isAppBlocked_blockDomain]

theorem domainBlocked_iff (domain : Name) : rules.isDomainBlocked domain = true ↔
    ∃ text ∈ o.blockDomains,
      (({} : RuleManager).blockDomain text).isDomainBlocked domain = true := by
  rw [rules_iff hfile h (P := fun rules => rules.isDomainBlocked domain = true)
    (fun a b => isDomainBlocked_union a b domain) (by simp [isDomainBlocked])]
  simp [isDomainBlocked_blockAddress, DPIEngine.isDomainBlocked_blockApp]

end Joined

end Options

namespace DPIEngine

/-- The program reads the request back, or does not start if its number of workers is none. -/
theorem main_cmd (r : AnalysisRequest) (exe inputPcap outputPcap jsonReport : Name) :
    main (r.cmd exe inputPcap outputPcap jsonReport) =
      match stoi r.parsers with
      | some p => .run inputPcap outputPcap (r.options jsonReport p)
      | none => .throws := by
  have hjson : ({} : Options).withValue (ascii "--json") jsonReport =
      some (some { jsonFile := jsonReport }) := rfl
  have hmain : main (r.cmd exe inputPcap outputPcap jsonReport) =
      Options.parse inputPcap outputPcap { jsonFile := jsonReport }
        (ascii "-p" :: r.parsers ::
          (r.blockApps.flatMap (fun app => [ascii "--block-app", app]) ++
            (r.blockDomains.flatMap (fun dom => [ascii "--block-domain", dom]) ++
              (r.blockIps.flatMap (fun ip => [ascii "--block-ip", ip]) ++ [])))) := by
    simp only [AnalysisRequest.cmd, List.cons_append, List.nil_append, List.append_assoc,
      List.append_nil]
    exact Options.parse_value hjson _
  have hp (o : Options) : o.withValue (ascii "-p") r.parsers =
      some ((stoi r.parsers).map fun p =>
        { o with numParserWorkers := if p < 1 then 1 else p }) := rfl
  rw [hmain]
  cases hparsers : stoi r.parsers with
  | some p =>
    rw [hparsers] at hp
    rw [Options.parse_value (hp _), Options.parse_blockApps, Options.parse_blockDomains,
      Options.parse_blockIps, Options.parse]
    have hmax : (if p < 1 then 1 else p) = max p 1 := by omega
    simp [AnalysisRequest.options, hmax]
  | none =>
    rw [hparsers] at hp
    rw [Options.parse, hp]
    rfl

/-- What the processors check blocks what one rule of the request blocks alone: the addresses of a
connection, and the application and the name that it has. -/
structure Decides (r : AnalysisRequest) (rules : RuleManager) : Prop where
  address : ∀ conn : Connection, ∀ src dst, conn.flowKey.srcAddr = .v4 src →
    conn.flowKey.dstAddr = .v4 dst →
      FastPathProcessor.ipBlocked rules conn =
        .ok (decide (∃ text ∈ r.blockIps, parseIPv4Address (latin1 text) = some src ∨
          parseIPv4Address (latin1 text) = some dst))
  content : ∀ conn : Connection, FastPathProcessor.contentBlocked rules conn = true ↔
    ascii (appTypeToString conn.appType) ∈ r.blockApps ∨
      ∃ text ∈ r.blockDomains,
        (({} : RuleManager).blockDomain text).isDomainBlocked conn.bestDomain = true

theorem decides_options {r : AnalysisRequest} {jsonReport : Name} {p : ℤ}
    {readFile : Name → Option (List UInt8)} {rules : RuleManager}
    (h : (r.options jsonReport p).rules readFile = some rules) : Decides r rules := by
  constructor
  · intro conn src dst hsrc hdst
    have hips : (∃ text ∈ r.blockIps, parseIPv4Address (latin1 text) = some src ∨
        parseIPv4Address (latin1 text) = some dst) ↔
          rules.isIPBlocked src = true ∨ rules.isIPBlocked dst = true := by
      rw [Options.addressBlocked_iff rfl h, Options.addressBlocked_iff rfl h]
      simp only [AnalysisRequest.options, and_or_left, exists_or]
    simp only [hips, FastPathProcessor.ipBlocked, hsrc, hdst, getIPv4]
    cases hblocked : rules.isIPBlocked src with
    | true => simp [Except.bind, bind, pure, Except.pure, hblocked]
    | false => simp [Except.bind, bind, pure, Except.pure, hblocked]
  · intro conn
    rw [contentBlocked_iff, Options.appBlocked_iff rfl h,
      Options.domainBlocked_iff rfl h]
    rfl

/--
The dashboard starts the engine with the rules of the request, whatever its texts look like: it
reads the texts as values only, and its processors block what one of the requested rules blocks
alone. Without a number of workers that it can read it does not start.
-/
theorem analysis_decides (r : AnalysisRequest) (exe inputPcap outputPcap jsonReport : Name) :
    (stoi r.parsers = none → main (r.cmd exe inputPcap outputPcap jsonReport) = .throws) ∧
      ∀ p, stoi r.parsers = some p → ∃ o : Options,
        main (r.cmd exe inputPcap outputPcap jsonReport) = .run inputPcap outputPcap o ∧
        o.jsonFile = jsonReport ∧ o.numParserWorkers = max p 1 ∧
        ∀ readFile, ((o.rules readFile).isSome = true ↔
            ∀ ip ∈ r.blockIps, (parseIPv4Address (latin1 ip)).isSome = true) ∧
          ∀ rules, o.rules readFile = some rules → Decides r rules := by
  rw [main_cmd]
  constructor
  · intro hparsers
    rw [hparsers]
  · intro p hparsers
    rw [hparsers]
    exact ⟨r.options jsonReport p, rfl, rfl, rfl, fun readFile => ⟨Options.isSome_rules rfl,
      fun rules hrules => decides_options hrules⟩⟩

/-- Texts that look like options are values, and a destination address is blocked too. -/
theorem analysis_decides_help :
    main ({ parsers := ascii "3000000000" : AnalysisRequest }.cmd [] [] [] []) = .throws ∧
      ∃ o : Options, main ({ blockDomains := [ascii "--help", ascii "evil.com"]
                             blockIps := [ascii "1.0.0.0"]
                             parsers := ascii "0" : AnalysisRequest }.cmd [] [] [] []) =
          .run [] [] o ∧ o.numParserWorkers = 1 ∧
        ∃ rules, o.rules (fun _ => none) = some rules ∧
          FastPathProcessor.contentBlocked rules { sni := ascii "www.evil.com" } = true ∧
          FastPathProcessor.ipBlocked rules { flowKey := { dstAddr := .v4 1 } } = .ok true := by
  refine ⟨(analysis_decides _ [] [] [] []).1 (by decide), ?_⟩
  obtain ⟨o, hmain, -, hparsers, hrules⟩ := (analysis_decides
    { blockDomains := [ascii "--help", ascii "evil.com"], blockIps := [ascii "1.0.0.0"],
      parsers := ascii "0" } [] [] [] []).2 0 (by decide)
  have hsome : (o.rules fun _ => none).isSome = true := (hrules _).1.mpr (by decide)
  obtain ⟨rules, h⟩ := Option.isSome_iff_exists.mp hsome
  have hdecides := (hrules _).2 rules h
  refine ⟨o, hmain, hparsers, rules, h, (hdecides.content _).mpr (.inr ?_), ?_⟩
  · exact ⟨ascii "evil.com", by decide, by decide⟩
  · rw [hdecides.address _ 0 1 rfl rfl]
    decide

end DPIEngine

end DpiEngine
