import DpiEngine.Rules.Loading

/-! # The ports of a rules file

A line of the ports is read by its leading number, which is cut to 16 bits. The
loading ends in the middle of the file at a line without such a number, and at an
address that cannot be read.
-/

namespace DpiEngine

namespace RuleManager

variable {rules rules' : RuleManager} {line : LineKind × Name} {lines : List (LineKind × Name)}

structure Readable (line : LineKind × Name) : Prop where
  ip : line.1 = .ip → parseIPv4Address (latin1 line.2) ≠ none
  port : line.1 = .port → stoi line.2 ≠ none

def Names (line : LineKind × Name) (n : UInt16) : Prop :=
  line.1 = .port ∧ ∃ value, stoi line.2 = some value ∧ .ofInt value = n

def IsNumeral (line : LineKind × Name) (n : UInt16) : Prop :=
  line.1 = .port ∧ line.2 = ascii (toString n)

theorem IsNumeral.names {n : UInt16} (h : IsNumeral line n) : Names line n := by
  obtain ⟨hport, hline⟩ := h
  obtain ⟨value, hvalue, heq⟩ := Option.map_eq_some_iff.mp (stoi_port n)
  exact ⟨hport, value, hline ▸ hvalue, heq⟩

theorem applyLine_ports (h : applyLine rules line = some rules') :
    Readable line ∧ ∀ n, n ∈ rules'.blockedPorts ↔ n ∈ rules.blockedPorts ∨ Names line n := by
  obtain ⟨kind, line⟩ := line
  have hother (hkind : kind ≠ .port) (hports : rules'.blockedPorts = rules.blockedPorts)
      (n : UInt16) : n ∈ rules'.blockedPorts ↔ n ∈ rules.blockedPorts ∨ Names (kind, line) n := by
    rw [hports, or_iff_left]
    rintro ⟨hport, -⟩
    exact hkind hport
  cases kind with
  | ignored | header =>
    cases h
    exact ⟨⟨by simp, by simp⟩, hother (by decide) rfl⟩
  | ip =>
    obtain ⟨addr, haddr, rfl⟩ := Option.map_eq_some_iff.mp h
    exact ⟨⟨fun _ => by simp [haddr], by simp⟩, hother (by decide) rfl⟩
  | app =>
    cases h
    refine ⟨⟨by simp, by simp⟩, hother (by decide) ?_⟩
    split <;> rfl
  | domain =>
    cases h
    refine ⟨⟨by simp, by simp⟩, hother (by decide) ?_⟩
    rw [blockDomain]
    split_ifs <;> rfl
  | port =>
    obtain ⟨value, hvalue, rfl⟩ := Option.map_eq_some_iff.mp h
    refine ⟨⟨by simp, fun _ => by simp [hvalue]⟩, fun n => ?_⟩
    rw [blockPort, Finset.mem_insert, or_comm]
    refine or_congr_right ?_
    constructor
    · rintro rfl
      exact ⟨rfl, value, hvalue, rfl⟩
    · rintro ⟨-, value', hvalue', rfl⟩
      rw [hvalue, Option.some_inj] at hvalue'
      rw [hvalue']

theorem exists_applyLine (rules : RuleManager) (h : Readable line) :
    ∃ rules', applyLine rules line = some rules' := by
  obtain ⟨kind, line⟩ := line
  cases kind with
  | ignored | header | app | domain => exact ⟨_, rfl⟩
  | ip =>
    obtain ⟨addr, haddr⟩ := Option.ne_none_iff_exists'.mp (h.ip rfl)
    exact ⟨_, Option.map_eq_some_iff.mpr ⟨addr, haddr, rfl⟩⟩
  | port =>
    obtain ⟨value, hvalue⟩ := Option.ne_none_iff_exists'.mp (h.port rfl)
    exact ⟨_, Option.map_eq_some_iff.mpr ⟨value, hvalue, rfl⟩⟩

/-- Loading returns when all lines are read, and adds the ports that they name. -/
theorem foldlM_applyLine_ports (h : lines.foldlM applyLine rules = some rules') :
    (∀ l ∈ lines, Readable l) ∧
      ∀ n, n ∈ rules'.blockedPorts ↔ n ∈ rules.blockedPorts ∨ ∃ l ∈ lines, Names l n := by
  induction lines generalizing rules with
  | nil =>
    cases h
    simp
  | cons line lines ih =>
    obtain ⟨next, hnext, h⟩ := Option.bind_eq_some_iff.mp h
    obtain ⟨hread, hports⟩ := applyLine_ports hnext
    obtain ⟨hreads, hrest⟩ := ih h
    refine ⟨List.forall_mem_cons.mpr ⟨hread, hreads⟩, fun n => ?_⟩
    rw [hrest, hports, or_assoc, List.exists_mem_cons_iff]

theorem exists_foldlM_applyLine (rules : RuleManager) (h : ∀ l ∈ lines, Readable l) :
    ∃ rules', lines.foldlM applyLine rules = some rules' := by
  induction lines generalizing rules with
  | nil => exact ⟨rules, rfl⟩
  | cons line lines ih =>
    obtain ⟨hline, hlines⟩ := List.forall_mem_cons.mp h
    obtain ⟨next, hnext⟩ := exists_applyLine rules hline
    obtain ⟨rules', hrules'⟩ := ih next hlines
    exact ⟨rules', by rw [List.foldlM_cons, hnext]; exact hrules'⟩

/-- Loading a file returns and adds exactly the ports whose numerals are lines of the ports, if
and only if all its lines are read, and each line of the ports names a port that is blocked
before or whose numeral is a line. -/
theorem loadRules_ports_iff (rules : RuleManager) (file : List UInt8) :
    (∃ rules', loadRules rules file = some rules' ∧ ∀ n, n ∈ rules'.blockedPorts ↔
        n ∈ rules.blockedPorts ∨ ∃ l ∈ fileRules file, IsNumeral l n) ↔
      (∀ l ∈ fileRules file, Readable l) ∧ ∀ l ∈ fileRules file, ∀ n, Names l n →
        n ∈ rules.blockedPorts ∨ ∃ l ∈ fileRules file, IsNumeral l n := by
  rw [loadRules_eq]
  constructor
  · rintro ⟨rules', hload, hexact⟩
    obtain ⟨hreads, hports⟩ := foldlM_applyLine_ports hload
    refine ⟨hreads, fun l hl n hn => ?_⟩
    exact (hexact n).mp ((hports n).mpr (.inr ⟨l, hl, hn⟩))
  · rintro ⟨hreads, hnames⟩
    obtain ⟨rules', hload⟩ := exists_foldlM_applyLine rules hreads
    obtain ⟨-, hports⟩ := foldlM_applyLine_ports hload
    refine ⟨rules', hload, fun n => ?_⟩
    rw [hports]
    constructor
    · rintro (hold | ⟨l, hl, hn⟩)
      · exact .inl hold
      · exact hnames l hl n hn
    · rintro (hold | ⟨l, hl, hn⟩)
      · exact .inl hold
      · exact .inr ⟨l, hl, hn.names⟩

/-- A line of the ports that is no number ends the loading. -/
theorem not_loadRules_ports :
    ¬ ∀ (rules : RuleManager) (file : List UInt8), ∃ rules', loadRules rules file = some rules' ∧
      ∀ n, n ∈ rules'.blockedPorts ↔
        n ∈ rules.blockedPorts ∨ ∃ l ∈ fileRules file, IsNumeral l n := by
  intro h
  obtain ⟨rules', hload, -⟩ := h {} (ascii "[BLOCKED_PORTS]\nhttps\n")
  have hnone : loadRules {} (ascii "[BLOCKED_PORTS]\nhttps\n") = none := by rfl
  rw [hnone] at hload
  cases hload

example : (loadRules {} (ascii "[BLOCKED_PORTS]\n70000\n")).map blockedPorts = some {4464} := by
  rfl

end RuleManager

end DpiEngine
