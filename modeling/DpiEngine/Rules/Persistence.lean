import Mathlib.Data.List.TakeWhile
import DpiEngine.Library.Runs
import DpiEngine.Rules.Texts

/-! # Rules survive a restart

The file of the rules is a list of lines. Addresses, applications and ports are
read back from their lines. A domain is written as it is stored, and read as the
lines of its text, each normalized again: it comes back exactly when its text is
one line that normalization leaves alone and that no section header looks like.
-/

namespace DpiEngine

namespace RuleManager

def fileLines {rules : RuleManager} (order : SaveOrder rules) : List Name :=
  [ascii "[BLOCKED_IPS]"] ++ order.ips.list.map (fun ip => ascii (ipv4ToString ip)) ++
    [[], ascii "[BLOCKED_APPS]"] ++ order.apps.list.map (fun app => ascii (appTypeToString app)) ++
    [[], ascii "[BLOCKED_DOMAINS]"] ++ getBlockedDomains order ++
    [[], ascii "[BLOCKED_PORTS]"] ++ order.ports.list.map (fun port => ascii (toString port))

theorem saveRules_eq {rules : RuleManager} (order : SaveOrder rules) :
    saveRules rules order = Lines.unlines newline (fileLines order) := by
  simp only [saveRules, fileLines, Lines.unlines, List.flatMap_append, List.flatMap_map,
    List.flatMap_cons, List.flatMap_nil, List.append_assoc]
  rfl

/-! ### Loading a section -/

section Loading

variable {rules : RuleManager} {currentSection line : Name}

theorem loadLine_nil (state : RuleManager × Name) : loadLine state [] = some state := rfl

theorem loadLine_header (h : line.head? = some 0x5B) :
    loadLine (rules, currentSection) line = some (rules, line) := by
  have hempty : line.isEmpty = false := by
    cases line with
    | nil => cases h
    | cons => rfl
  simp [loadLine, hempty, h]

theorem foldlM_loadLine {α : Type} {text : α → Name} {block : RuleManager → α → RuleManager}
    (h : ∀ rules x, loadLine (rules, currentSection) (text x) =
      some (block rules x, currentSection))
    (xs : List α) (rules : RuleManager) : (xs.map text).foldlM loadLine (rules, currentSection) =
      some (xs.foldl block rules, currentSection) := by
  induction xs generalizing rules with
  | nil => rfl
  | cons x xs ih =>
    rw [List.map_cons, List.foldlM_cons, h]
    exact ih _

theorem loadLine_ip (rules : RuleManager) (ip : UInt32) :
    loadLine (rules, ascii "[BLOCKED_IPS]") (ascii (ipv4ToString ip)) =
      some (rules.blockAddress ip, ascii "[BLOCKED_IPS]") := by
  have hline := isRuleLine_ip ip
  simp [loadLine, hline.isEmpty_eq, hline.head?_ne, blockIP_text]

theorem loadLine_app (rules : RuleManager) (app : AppType) :
    loadLine (rules, ascii "[BLOCKED_APPS]") (ascii (appTypeToString app)) =
      some (rules.blockApp app, ascii "[BLOCKED_APPS]") := by
  have hline := isRuleLine_app app
  have hne : ascii "[BLOCKED_APPS]" ≠ ascii "[BLOCKED_IPS]" := by decide
  simp [loadLine, hline.isEmpty_eq, hline.head?_ne, hne, find?_appTypes]

theorem loadLine_port (rules : RuleManager) (port : UInt16) :
    loadLine (rules, ascii "[BLOCKED_PORTS]") (ascii (toString port)) =
      some (rules.blockPort port, ascii "[BLOCKED_PORTS]") := by
  have hline := isRuleLine_port port
  obtain ⟨n, hn, hport⟩ := Option.map_eq_some_iff.mp (stoi_port port)
  have hips : ascii "[BLOCKED_PORTS]" ≠ ascii "[BLOCKED_IPS]" := by decide
  have happs : ascii "[BLOCKED_PORTS]" ≠ ascii "[BLOCKED_APPS]" := by decide
  have hdomains : ascii "[BLOCKED_PORTS]" ≠ ascii "[BLOCKED_DOMAINS]" := by decide
  simp [loadLine, hline.isEmpty_eq, hline.head?_ne, hips, happs, hdomains, hn, hport]

/-! ### Loading the domains -/

def Lowercase (l : Name) : Prop := ∀ c ∈ l, toLower c = c

instance (l : Name) : Decidable (Lowercase l) := inferInstanceAs (Decidable (∀ c ∈ l, _))

/-- The lines that are loaded as domains: up to the first that looks like a header, and not
empty. -/
def heard (lines : List Name) : List Name :=
  (lines.takeWhile fun l => l.head? ≠ some 0x5B).filter fun l => !l.isEmpty

theorem loadLine_ignored (hsection : Lowercase currentSection) (hne : line.head? ≠ some 0x5B) :
    loadLine (rules, currentSection) line = some (rules, currentSection) := by
  have hheader {name : Name} (h : ¬ Lowercase name) : currentSection ≠ name :=
    fun heq => h (heq ▸ hsection)
  have hips : currentSection ≠ ascii "[BLOCKED_IPS]" := hheader (by decide)
  have happs : currentSection ≠ ascii "[BLOCKED_APPS]" := hheader (by decide)
  have hdomains : currentSection ≠ ascii "[BLOCKED_DOMAINS]" := hheader (by decide)
  have hports : currentSection ≠ ascii "[BLOCKED_PORTS]" := hheader (by decide)
  simp [loadLine, hne, hips, happs, hdomains, hports]

theorem foldlM_ignored (rules : RuleManager) {lines : List Name} (hlines : ∀ l ∈ lines, Lowercase l)
    (hsection : Lowercase currentSection) :
    ∃ s, lines.foldlM loadLine (rules, currentSection) = some (rules, s) := by
  induction lines generalizing currentSection with
  | nil => exact ⟨_, rfl⟩
  | cons l lines ih =>
    rw [List.forall_mem_cons] at hlines
    by_cases hl : l.head? = some 0x5B
    · obtain ⟨s, hs⟩ := ih hlines.2 hlines.1
      exact ⟨s, by rw [List.foldlM_cons, loadLine_header hl]; exact hs⟩
    · obtain ⟨s, hs⟩ := ih hlines.2 hsection
      exact ⟨s, by rw [List.foldlM_cons, loadLine_ignored hsection hl]; exact hs⟩

theorem foldlM_domains (rules : RuleManager) {lines : List Name}
    (hlines : ∀ l ∈ lines, Lowercase l) :
    ∃ s, lines.foldlM loadLine (rules, ascii "[BLOCKED_DOMAINS]") =
      some ((heard lines).foldl blockDomain rules, s) := by
  induction lines generalizing rules with
  | nil => exact ⟨_, rfl⟩
  | cons l lines ih =>
    rw [List.forall_mem_cons] at hlines
    by_cases hl : l.head? = some 0x5B
    · have hheard : heard (l :: lines) = [] := by simp [heard, hl]
      obtain ⟨s, hs⟩ := foldlM_ignored rules hlines.2 hlines.1
      refine ⟨s, ?_⟩
      rw [List.foldlM_cons, loadLine_header hl, hheard]
      exact hs
    · cases l with
      | nil =>
        obtain ⟨s, hs⟩ := ih rules hlines.2
        exact ⟨s, hs⟩
      | cons c l =>
        have hload : loadLine (rules, ascii "[BLOCKED_DOMAINS]") (c :: l) =
            some (rules.blockDomain (c :: l), ascii "[BLOCKED_DOMAINS]") := by
          have hips : ascii "[BLOCKED_DOMAINS]" ≠ ascii "[BLOCKED_IPS]" := by decide
          have happs : ascii "[BLOCKED_DOMAINS]" ≠ ascii "[BLOCKED_APPS]" := by decide
          rw [List.head?_cons, Option.some.injEq] at hl
          simp [loadLine, hl, hips, happs]
        have hheard : heard ((c :: l) :: lines) = (c :: l) :: heard lines := by
          rw [heard, List.takeWhile_cons_of_pos (by simpa using hl)]
          rfl
        obtain ⟨s, hs⟩ := ih (rules.blockDomain (c :: l)) hlines.2
        refine ⟨s, ?_⟩
        rw [List.foldlM_cons, hload, hheard]
        exact hs

end Loading

/-! ### Loading a saved file -/

section Reload

variable {rules : RuleManager} (order : SaveOrder rules)

def domainLines : List Name := (getBlockedDomains order).flatMap (·.splitOn newline)

theorem lines_saveRules : Lines.lines newline (saveRules rules order) =
    [ascii "[BLOCKED_IPS]"] ++ order.ips.list.map (fun ip => ascii (ipv4ToString ip)) ++
      [[], ascii "[BLOCKED_APPS]"] ++
      order.apps.list.map (fun app => ascii (appTypeToString app)) ++
      [[], ascii "[BLOCKED_DOMAINS]"] ++ domainLines order ++
      [[], ascii "[BLOCKED_PORTS]"] ++
      order.ports.list.map (fun port => ascii (toString port)) := by
  have hips : ∀ e ∈ order.ips.list.map (fun ip => ascii (ipv4ToString ip)), newline ∉ e :=
    List.forall_mem_map.mpr fun ip _ => (isRuleLine_ip ip).newline_not_mem
  have happs : ∀ e ∈ order.apps.list.map (fun app => ascii (appTypeToString app)), newline ∉ e :=
    List.forall_mem_map.mpr fun app _ => (isRuleLine_app app).newline_not_mem
  have hports : ∀ e ∈ order.ports.list.map (fun port => ascii (toString port)), newline ∉ e :=
    List.forall_mem_map.mpr fun port _ => (isRuleLine_port port).newline_not_mem
  have hheader : ∀ e ∈ [ascii "[BLOCKED_IPS]"], newline ∉ e := by decide
  have hheader' : ∀ e ∈ [[], ascii "[BLOCKED_APPS]"], newline ∉ e := by decide
  have hheader'' : ∀ e ∈ [[], ascii "[BLOCKED_DOMAINS]"], newline ∉ e := by decide
  have hheader''' : ∀ e ∈ [[], ascii "[BLOCKED_PORTS]"], newline ∉ e := by decide
  rw [saveRules_eq, Lines.lines_unlines, fileLines]
  simp only [List.flatMap_append, Lines.flatMap_splitOn hips, Lines.flatMap_splitOn happs,
    Lines.flatMap_splitOn hports, Lines.flatMap_splitOn hheader, Lines.flatMap_splitOn hheader',
    Lines.flatMap_splitOn hheader'', Lines.flatMap_splitOn hheader''']
  rfl

/-- A header starts its section, also behind an empty line. -/
theorem foldlM_header (rules : RuleManager) {s : Name} (header : String)
    (h : (ascii header).head? = some 0x5B) :
    [ascii header].foldlM loadLine (rules, s) = some (rules, ascii header) ∧
      [[], ascii header].foldlM loadLine (rules, s) = some (rules, ascii header) := by
  constructor
  · rw [List.foldlM_cons, loadLine_header h]
    rfl
  · rw [List.foldlM_cons, loadLine_nil, Option.bind_eq_bind, Option.bind_some, List.foldlM_cons,
      loadLine_header h]
    rfl

def reloaded : RuleManager :=
  order.ports.list.foldl blockPort ((heard (domainLines order)).foldl blockDomain
    (order.apps.list.foldl blockApp (order.ips.list.foldl blockAddress {})))

theorem loadRules_saveRules (h : ∀ e ∈ getBlockedDomains order, Lowercase e) :
    loadRules {} (saveRules rules order) = some (reloaded order) := by
  have hlines : ∀ l ∈ domainLines order, Lowercase l := by
    rintro l hl
    obtain ⟨e, he, hl⟩ := List.mem_flatMap.mp hl
    exact fun c hc => h e he c (Lines.mem_of_mem_splitOn hl c hc)
  obtain ⟨s, hs⟩ := foldlM_domains (order.apps.list.foldl blockApp
    (order.ips.list.foldl blockAddress {})) hlines
  have happend {xs ys : List Name} {a b c : RuleManager × Name}
      (hx : xs.foldlM loadLine a = some b) (hy : ys.foldlM loadLine b = some c) :
      (xs ++ ys).foldlM loadLine a = some c := by
    rw [List.foldlM_append, hx]
    exact hy
  have hips := happend (foldlM_header {} (s := []) "[BLOCKED_IPS]" (by decide)).1
    (foldlM_loadLine loadLine_ip order.ips.list {})
  have happs := happend (happend hips
    (foldlM_header _ "[BLOCKED_APPS]" (by decide)).2)
    (foldlM_loadLine loadLine_app order.apps.list _)
  have hdomains := happend (happend happs
    (foldlM_header _ "[BLOCKED_DOMAINS]" (by decide)).2) hs
  have hports := happend (happend hdomains
    (foldlM_header _ "[BLOCKED_PORTS]" (by decide)).2)
    (foldlM_loadLine loadLine_port order.ports.list _)
  rw [loadRules, lines_saveRules, hports]
  rfl

def reloadedDomains : List Name := (heard (domainLines order)).map normalizeDomain

end Reload

section Sets

variable {α : Type} [DecidableEq α]

def insertAll (s : Finset α) (l : List α) : Finset α := l.foldl (fun s x => insert x s) s

theorem mem_insertAll {s : Finset α} {l : List α} {x : α} : x ∈ insertAll s l ↔ x ∈ s ∨ x ∈ l := by
  induction l generalizing s with
  | nil => simp [insertAll]
  | cons a l ih =>
    rw [insertAll, List.foldl_cons, ← insertAll, ih, Finset.mem_insert, List.mem_cons]
    tauto

theorem insertAll_walk {s : Finset α} (w : Walk s) : insertAll ∅ w.list = s := by
  ext x
  rw [mem_insertAll, w.mem_iff]
  simp

theorem foldl_insert {f : RuleManager → α → RuleManager} (put : Finset α → RuleManager)
    (h : ∀ s x, f (put s) x = put (insert x s)) (l : List α) (s : Finset α) :
    l.foldl f (put s) = put (insertAll s l) := by
  induction l generalizing s with
  | nil => rfl
  | cons x l ih =>
    rw [List.foldl_cons, h, ih]
    rfl

theorem foldl_walk {f : RuleManager → α → RuleManager} (put : Finset α → RuleManager)
    (h : ∀ s x, f (put s) x = put (insert x s)) {s : Finset α} (w : Walk s) :
    w.list.foldl f (put ∅) = put s := by
  rw [foldl_insert put h, insertAll_walk]

end Sets

theorem foldl_blockDomain (domains : List Name) (rules : RuleManager) :
    domains.foldl blockDomain rules =
      { rules with
        blockedDomains := insertAll rules.blockedDomains
          ((domains.map normalizeDomain).filter fun e => 0x2A ∉ e)
        domainPatterns := rules.domainPatterns ++
          (domains.map normalizeDomain).filter fun e => 0x2A ∈ e } := by
  induction domains generalizing rules with
  | nil => simp [insertAll]
  | cons d domains ih =>
    rw [List.foldl_cons, ih, blockDomain, List.map_cons]
    by_cases h : 0x2A ∈ normalizeDomain d
    · simp [h]
    · simp [h, insertAll]

theorem reloaded_eq {rules : RuleManager} (order : SaveOrder rules) :
    reloaded order = {
      blockedIps := rules.blockedIps
      blockedApps := rules.blockedApps
      blockedDomains := insertAll ∅ ((reloadedDomains order).filter fun e => 0x2A ∉ e)
      domainPatterns := (reloadedDomains order).filter fun e => 0x2A ∈ e
      blockedPorts := rules.blockedPorts } := by
  have hips : order.ips.list.foldl blockAddress {} = { blockedIps := rules.blockedIps } :=
    foldl_walk (fun s => { blockedIps := s }) (fun _ _ => rfl) order.ips
  have happs : order.apps.list.foldl blockApp { blockedIps := rules.blockedIps } =
      { blockedIps := rules.blockedIps, blockedApps := rules.blockedApps } :=
    foldl_walk (fun s => { blockedIps := rules.blockedIps, blockedApps := s }) (fun _ _ => rfl)
      order.apps
  have hports (r : RuleManager) : order.ports.list.foldl blockPort { r with blockedPorts := ∅ } =
      { r with blockedPorts := rules.blockedPorts } :=
    foldl_walk (fun s => { r with blockedPorts := s }) (fun _ _ => rfl) order.ports
  rw [reloaded, hips, happs, foldl_blockDomain]
  exact hports {
    blockedIps := rules.blockedIps
    blockedApps := rules.blockedApps
    blockedDomains := insertAll ∅ ((reloadedDomains order).filter fun e => 0x2A ∉ e)
    domainPatterns := (reloadedDomains order).filter fun e => 0x2A ∈ e }

/-! ### Normalized texts -/

section Normalized

variable {e : Name}

theorem exists_of_mem_normalizeDomain {c : UInt8} (h : c ∈ normalizeDomain e) :
    ∃ b ∈ e, toLower b = c := by
  rw [normalizeDomain, dropTrailingDot] at h
  split_ifs at h
  · exact List.mem_map.mp (List.mem_of_mem_dropLast h)
  · exact List.mem_map.mp h

theorem lowercase_normalizeDomain (e : Name) : Lowercase (normalizeDomain e) := by
  rintro c hc
  obtain ⟨b, -, rfl⟩ := exists_of_mem_normalizeDomain hc
  exact toLower_toLower b

theorem newline_of_mem_normalizeDomain (h : newline ∈ normalizeDomain e) : newline ∈ e := by
  obtain ⟨b, hb, heq⟩ := exists_of_mem_normalizeDomain h
  exact (toLower_eq_iff (by decide) (by decide)).mp heq ▸ hb

theorem getLast?_map_toLower : (e.map toLower).getLast? = some 0x2E ↔ e.getLast? = some 0x2E := by
  rw [List.getLast?_map, Option.map_eq_some_iff]
  constructor
  · rintro ⟨c, hc, hdot⟩
    rw [hc, toLower_eq_dot.mp hdot]
  · intro h
    exact ⟨0x2E, h, rfl⟩

theorem length_normalizeDomain_le (e : Name) : (normalizeDomain e).length ≤ e.length := by
  rw [normalizeDomain, dropTrailingDot]
  split_ifs
  · rw [List.length_dropLast, List.length_map]
    exact Nat.sub_le _ _
  · rw [List.length_map]

theorem length_normalizeDomain_lt (h : e.getLast? = some 0x2E) :
    (normalizeDomain e).length < e.length := by
  have hne : e ≠ [] := by
    rintro rfl
    cases h
  have hpos := List.length_pos_iff.mpr hne
  rw [normalizeDomain, dropTrailingDot, if_pos (getLast?_map_toLower.mpr h), List.length_dropLast,
    List.length_map]
  omega

theorem normalizeDomain_eq_self (hlow : Lowercase e) (h : e.getLast? ≠ some 0x2E) :
    normalizeDomain e = e := by
  rw [normalizeDomain, dropTrailingDot, if_neg (mt getLast?_map_toLower.mp h)]
  exact (List.map_congr_left hlow).trans (List.map_id' e)

end Normalized

/-! ### The rules that are stored -/

/-- A text that comes back from its line. -/
structure IsPlain (e : Name) : Prop extends IsRuleLine e where
  getLast?_ne : e.getLast? ≠ some 0x2E

/-- Stored texts are in lower case, and those with a `*` are the patterns. -/
structure Stored (rules : RuleManager) : Prop where
  domains : ∀ e ∈ rules.blockedDomains, Lowercase e ∧ 0x2A ∉ e
  patterns : ∀ e ∈ rules.domainPatterns, Lowercase e ∧ 0x2A ∈ e

namespace Stored

variable {rules rules' : RuleManager}

theorem blockDomain (h : Stored rules) (domain : Name) : Stored (rules.blockDomain domain) := by
  rw [RuleManager.blockDomain]
  split_ifs with hstar
  · constructor
    · exact h.domains
    · rintro e he
      rcases List.mem_append.mp he with he | he
      · exact h.patterns e he
      · obtain rfl := List.mem_singleton.mp he
        exact ⟨lowercase_normalizeDomain _, hstar⟩
  · constructor
    · rintro e he
      rcases Finset.mem_insert.mp he with rfl | he
      · exact ⟨lowercase_normalizeDomain _, hstar⟩
      · exact h.domains e he
    · exact h.patterns

theorem unblockDomain (h : Stored rules) (domain : Name) :
    Stored (rules.unblockDomain domain) := by
  rw [RuleManager.unblockDomain]
  split_ifs
  · exact ⟨h.domains, fun e he => h.patterns e (List.mem_of_mem_erase he)⟩
  · exact ⟨fun e he => h.domains e (Finset.mem_of_mem_erase he), h.patterns⟩

theorem perform {op : Operation} (h : Stored rules) (hop : perform rules op = some rules') :
    Stored rules' := by
  cases op with
  | blockAddress | unblockAddress | blockApp | unblockApp | blockPort | unblockPort =>
    obtain rfl := Option.some.inj hop
    exact ⟨h.domains, h.patterns⟩
  | blockIP | unblockIP =>
    obtain ⟨_, _, rfl⟩ := Option.map_eq_some_iff.mp hop
    exact ⟨h.domains, h.patterns⟩
  | blockDomain domain =>
    obtain rfl := Option.some.inj hop
    exact h.blockDomain domain
  | unblockDomain domain =>
    obtain rfl := Option.some.inj hop
    exact h.unblockDomain domain

theorem of_run {ops : List Operation}
    (h : Run (fun rules op rules' => RuleManager.perform rules op = some rules') {} ops rules) :
    Stored rules := by
  have hempty : Stored {} := by constructor <;> simp
  exact h.invariant Stored.perform hempty

variable (order : SaveOrder rules)

theorem lowercase (h : Stored rules) : ∀ e ∈ getBlockedDomains order, Lowercase e := by
  rintro e he
  rcases List.mem_append.mp he with he | he
  · exact (h.domains e ((order.domains.mem_iff e).mp he)).1
  · exact (h.patterns e he).1

end Stored

/-! ### Which rules come back -/

/-- The same rules, with the patterns in any order. -/
structure SameRules (rules rules' : RuleManager) : Prop where
  blockedIps : rules.blockedIps = rules'.blockedIps
  blockedApps : rules.blockedApps = rules'.blockedApps
  blockedDomains : rules.blockedDomains = rules'.blockedDomains
  domainPatterns : rules.domainPatterns.Perm rules'.domainPatterns
  blockedPorts : rules.blockedPorts = rules'.blockedPorts

section Reload

variable {rules : RuleManager} {order : SaveOrder rules}

theorem reloadedDomains_of_plain (hlow : ∀ e ∈ getBlockedDomains order, Lowercase e)
    (h : ∀ e ∈ getBlockedDomains order, IsPlain e) :
    reloadedDomains order = getBlockedDomains order := by
  have hlines : domainLines order = getBlockedDomains order :=
    Lines.flatMap_splitOn fun e he => (h e he).newline_not_mem
  have hheard : heard (getBlockedDomains order) = getBlockedDomains order := by
    have htake : (getBlockedDomains order).takeWhile (fun l => l.head? ≠ some 0x5B) =
        getBlockedDomains order :=
      List.takeWhile_eq_self_iff.mpr fun e he => decide_eq_true (h e he).head?_ne
    rw [heard, htake, List.filter_eq_self]
    rintro e he
    rw [(h e he).isEmpty_eq]
    rfl
  rw [reloadedDomains, hlines, hheard]
  refine (List.map_congr_left ?_).trans (List.map_id' _)
  exact fun e he => normalizeDomain_eq_self (hlow e he) (h e he).getLast?_ne

theorem subperm_reloadedDomains (h : SameRules (reloaded order) rules) :
    (getBlockedDomains order).Subperm (reloadedDomains order) := by
  rw [reloaded_eq] at h
  have hdomains : order.domains.list.Subperm
      ((reloadedDomains order).filter fun e => 0x2A ∉ e) := by
    refine List.subperm_of_subset order.domains.nodup ?_
    rintro e he
    have hmem := (order.domains.mem_iff e).mp he
    rw [← h.blockedDomains] at hmem
    exact (mem_insertAll.mp hmem).resolve_left (Finset.notMem_empty e)
  have hpatterns : rules.domainPatterns.Subperm
      ((reloadedDomains order).filter fun e => 0x2A ∈ e) := h.domainPatterns.symm.subperm
  have happend := hdomains.append hpatterns
  have hsplit := List.filter_append_perm (fun e => decide (0x2A ∉ e)) (reloadedDomains order)
  simp only [decide_not, Bool.not_not] at hsplit happend
  exact happend.trans hsplit.subperm

/-- No text is lost, as the file has no more room than for the texts themselves. -/
theorem isPlain_of_subperm (h : (getBlockedDomains order).Subperm (reloadedDomains order)) :
    ∀ e ∈ getBlockedDomains order, IsPlain e := by
  have hheard : (heard (domainLines order)).Sublist (domainLines order) :=
    List.filter_sublist.trans (List.takeWhile_sublist _)
  have hlines : (Lines.unlines newline (domainLines order)).length =
      (Lines.unlines newline (getBlockedDomains order)).length := by
    rw [domainLines, Lines.unlines_flatMap_splitOn]
  have hloaded := Lines.length_unlines_subperm newline h
  have hmap := Lines.length_unlines_map newline length_normalizeDomain_le
    (heard (domainLines order))
  rw [← reloadedDomains] at hmap
  -- every line is heard, and none gets shorter
  have htotal : (Lines.unlines newline (domainLines order)).length ≤
      (Lines.unlines newline (heard (domainLines order))).length := by omega
  have hall : heard (domainLines order) = domainLines order := Lines.eq_of_sublist hheard htotal
  have hlength : ∀ l ∈ domainLines order, (normalizeDomain l).length = l.length := by
    rw [← hlines, reloadedDomains, hall] at hloaded
    exact Lines.length_eq_of_map length_normalizeDomain_le hloaded
  have hline : ∀ l ∈ domainLines order, l.head? ≠ some 0x5B ∧ l.isEmpty = false := by
    rintro l hl
    rw [← hall] at hl
    obtain ⟨hl, hne⟩ := List.mem_filter.mp hl
    have hhead := List.mem_takeWhile_imp hl
    exact ⟨of_decide_eq_true hhead, by simpa using hne⟩
  rintro e he
  -- a text that is loaded again is one line
  have hnewline : newline ∉ e := by
    obtain ⟨l, hl, rfl⟩ := List.mem_map.mp (h.subset he)
    rw [hall] at hl
    obtain ⟨s, -, hs⟩ := List.mem_flatMap.mp hl
    exact fun hn => Lines.not_mem_of_mem_splitOn hs (newline_of_mem_normalizeDomain hn)
  have hmem : e ∈ domainLines order := by
    refine List.mem_flatMap.mpr ⟨e, he, ?_⟩
    rw [List.splitOn_eq_singleton hnewline]
    exact List.mem_singleton_self e
  obtain ⟨hhead, hempty⟩ := hline e hmem
  refine ⟨⟨hnewline, hempty, hhead⟩, fun hdot => ?_⟩
  exact (length_normalizeDomain_lt hdot).ne (hlength e hmem)

theorem sameRules_reloaded_iff (hstored : Stored rules) :
    SameRules (reloaded order) rules ↔ ∀ e ∈ getBlockedDomains order, IsPlain e := by
  constructor
  · exact fun h => isPlain_of_subperm (subperm_reloadedDomains h)
  · intro h
    have hdomains : ∀ e ∈ order.domains.list, 0x2A ∉ e :=
      fun e he => (hstored.domains e ((order.domains.mem_iff e).mp he)).2
    have hpatterns : ∀ e ∈ rules.domainPatterns, 0x2A ∈ e := fun e he => (hstored.patterns e he).2
    have hnostar : (getBlockedDomains order).filter (fun e => 0x2A ∉ e) = order.domains.list := by
      rw [getBlockedDomains, List.filter_append, List.filter_eq_self.mpr (by simpa using hdomains),
        List.filter_eq_nil_iff.mpr (by simpa using hpatterns), List.append_nil]
    have hstar : (getBlockedDomains order).filter (fun e => 0x2A ∈ e) = rules.domainPatterns := by
      rw [getBlockedDomains, List.filter_append,
        List.filter_eq_nil_iff.mpr (by simpa using hdomains),
        List.filter_eq_self.mpr (by simpa using hpatterns), List.nil_append]
    rw [reloaded_eq, reloadedDomains_of_plain (hstored.lowercase order) h, hnostar, hstar,
      insertAll_walk]
    exact ⟨rfl, rfl, rfl, .refl _, rfl⟩

end Reload

/-- Saved rules are the rules that are loaded exactly when every domain rule is stored as one line
without a trailing dot, not empty and unlike a section header. -/
theorem loadRules_saveRules_iff {ops : List Operation} {rules : RuleManager}
    (h : Run (fun rules op rules' => perform rules op = some rules') {} ops rules)
    (order : SaveOrder rules) :
    (∃ rules', loadRules {} (saveRules rules order) = some rules' ∧ SameRules rules' rules) ↔
      ∀ e, e ∈ rules.blockedDomains ∨ e ∈ rules.domainPatterns → IsPlain e := by
  have hstored := Stored.of_run h
  have hmem (e : Name) : e ∈ getBlockedDomains order ↔
      e ∈ rules.blockedDomains ∨ e ∈ rules.domainPatterns := by
    rw [getBlockedDomains, List.mem_append, order.domains.mem_iff]
  rw [loadRules_saveRules order (hstored.lowercase order)]
  simp only [Option.some.injEq, exists_eq_left', sameRules_reloaded_iff hstored, hmem]

def oneWalk {α : Type} [DecidableEq α] (x : α) : Walk {x} := ⟨[x], List.nodup_singleton x, by simp⟩

def noWalk {α : Type} : Walk (∅ : Finset α) := ⟨[], List.nodup_nil, by simp⟩

def policy : RuleManager where
  blockedIps := {0x0100000A}
  blockedApps := {.youtube}
  domainPatterns := [ascii "*.evil.com"]
  blockedPorts := {53}

/-- The rules come back, their pattern as it was normalized. -/
theorem loadRules_saveRules_policy :
    ∃ rules',
      loadRules {} (saveRules policy ⟨oneWalk _, oneWalk _, noWalk, oneWalk _⟩) = some rules' ∧
      SameRules rules' policy := by
  have hrun : Run (fun rules op rules' => perform rules op = some rules') {}
      [.blockAddress 0x0100000A, .blockApp .youtube, .blockDomain (ascii "*.Evil.com."),
        .blockPort 53] policy :=
    .cons rfl (.cons rfl (.cons rfl (.cons rfl (.nil _))))
  refine (loadRules_saveRules_iff hrun _).mpr ?_
  rintro e (he | he)
  · exact absurd he (Finset.notMem_empty e)
  · obtain rfl := List.mem_singleton.mp he
    exact ⟨⟨by decide, rfl, by decide⟩, by decide⟩

/-- A domain blocked with two dots behind it is stored with one, and loaded without. -/
theorem not_loadRules_saveRules :
    ¬ ∀ (ops : List Operation) (rules : RuleManager) (order : SaveOrder rules),
      Run (fun rules op rules' => perform rules op = some rules') {} ops rules →
        ∃ rules', loadRules {} (saveRules rules order) = some rules' ∧ SameRules rules' rules := by
  intro h
  obtain ⟨rules', hload, hsame⟩ := h [.blockDomain (ascii "evil.com..")]
    { blockedDomains := {ascii "evil.com."} } ⟨noWalk, noWalk, oneWalk _, noWalk⟩
    (.cons rfl (.nil _))
  have hdomains : (loadRules {} (saveRules { blockedDomains := {ascii "evil.com."} }
      ⟨noWalk, noWalk, oneWalk _, noWalk⟩)).map (·.blockedDomains) =
        some {ascii "evil.com"} := by decide
  rw [hload, Option.map_some, hsame.blockedDomains] at hdomains
  exact absurd hdomains (by decide)

end RuleManager

end DpiEngine
