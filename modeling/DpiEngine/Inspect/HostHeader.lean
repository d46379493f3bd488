import DpiEngine.Inspect.HostLine
import DpiEngine.Library.Lines

/-! # Requests are read back

A request has a request line, some headers and the line that names its host. The
extractor reads the host of every such request.
-/

namespace DpiEngine.HTTPHostExtractor

inductive LineEnd
  | lf | crlf
  deriving DecidableEq

def LineEnd.cr : LineEnd → Name
  | .lf => []
  | .crlf => [0x0D]

def LineEnd.text (e : LineEnd) : Name := e.cr ++ [0x0A]

/-- A request up to the line that names its host, with what follows on this line and behind it. -/
structure HostRequest where
  method : Name
  requestLine : Name
  requestEnd : LineEnd
  headers : List (Name × LineEnd)
  hostName : Name
  blanks : Name
  host : Name
  port : Option Name
  trailing : Name
  rest : Name
  method_mem : method ∈ methods
  requestLine_newline : 0x0A ∉ requestLine
  header_newline : ∀ l ∈ headers, 0x0A ∉ l.1
  header_host : ∀ l ∈ headers, ¬ StartsHost l.1
  hostName_lower : hostName.map toLower = ascii "host"
  blanks_blank : ∀ b ∈ blanks, isBlank b = true
  host_ne : host ≠ []
  host_colon : 0x3A ∉ host
  host_lineEnd : ∀ b ∈ host, isLineEnd b = false
  host_head : ∀ b, host.head? = some b → isBlank b = false
  host_last : ∀ b, host.getLast? = some b → isBlank b = false
  port_lineEnd : ∀ p ∈ port, ∀ b ∈ p, isLineEnd b = false
  trailing_blank : ∀ b ∈ trailing, isBlank b = true
  rest_lineEnd : ∀ b, rest.head? = some b → isLineEnd b = true

namespace HostRequest

variable (r : HostRequest)

def portText : Name := r.port.elim [] (0x3A :: ·)

def encode : List UInt8 :=
  r.method ++ r.requestLine ++ r.requestEnd.text ++ r.headers.flatMap (fun l => l.1 ++ l.2.text) ++
    r.hostName ++ [0x3A] ++ r.blanks ++ r.host ++ r.portText ++ r.trailing ++ r.rest

/-- The lines in front of the host, without their newlines. -/
def lines : List Name :=
  (r.method ++ r.requestLine ++ r.requestEnd.cr) :: r.headers.map fun l => l.1 ++ l.2.cr

def valueText : Name := r.blanks ++ (r.host ++ r.portText ++ r.trailing ++ r.rest)

theorem encode_eq :
    r.encode = Lines.unlines 0x0A r.lines ++ (r.hostName ++ 0x3A :: r.valueText) := by
  simp [encode, lines, valueText, Lines.unlines, LineEnd.text, List.flatMap_map]

/-! ### The value -/

theorem not_isLineEnd_of_isBlank {b : UInt8} (h : isBlank b = true) : isLineEnd b = false := by
  rw [isBlank, Bool.or_eq_true, decide_eq_true_eq, decide_eq_true_eq] at h
  rcases h with rfl | rfl <;> decide

theorem portText_lineEnd : ∀ b ∈ r.portText, isLineEnd b = false := by
  intro b hb
  rcases hport : r.port with _ | port
  · rw [portText, hport] at hb
    exact absurd hb List.not_mem_nil
  · rw [portText, hport, Option.elim_some] at hb
    rcases List.mem_cons.mp hb with rfl | hb
    · decide
    · exact r.port_lineEnd port hport b hb

theorem lineValue_valueText :
    lineValue r.valueText = (r.host ++ r.portText ++ r.trailing).rdropWhile isBlank := by
  have hhead : ∀ b, (r.host ++ r.portText ++ r.trailing ++ r.rest).head? = some b →
      isBlank b = false := by
    intro b hb
    obtain ⟨c, host, hhost⟩ := List.exists_cons_of_ne_nil r.host_ne
    rw [hhost] at hb
    exact r.host_head b (by rw [hhost]; exact hb)
  have hspan : ∀ b ∈ r.host ++ r.portText ++ r.trailing, (!isLineEnd b) = true := by
    intro b hb
    rw [Bool.not_eq_true']
    rcases List.mem_append.mp hb with hb | hb
    · rcases List.mem_append.mp hb with hb | hb
      · exact r.host_lineEnd b hb
      · exact r.portText_lineEnd b hb
    · exact not_isLineEnd_of_isBlank (r.trailing_blank b hb)
  have hrest : ∀ b, r.rest.head? = some b → (!isLineEnd b) = false := by
    intro b hb
    rw [r.rest_lineEnd b hb]
    rfl
  rw [lineValue, valueText, Spans.dropWhile_append_stop r.blanks_blank hhead,
    Spans.takeWhile_append_stop hspan hrest]

theorem exists_lineValue : ∃ port : Name, lineValue r.valueText = r.host ++ port ∧
    ∀ b, port.head? = some b → b = 0x3A := by
  rw [r.lineValue_valueText]
  rcases hport : r.port with _ | port
  · refine ⟨[], ?_, nofun⟩
    rw [portText, hport, Option.elim_none, List.append_nil,
      Spans.rdropWhile_append_stop r.trailing_blank r.host_last]
  · refine ⟨0x3A :: (port ++ r.trailing).rdropWhile isBlank, ?_, ?_⟩
    · rw [portText, hport, Option.elim_some, List.append_assoc, List.cons_append,
        Spans.rdropWhile_append_cons (by decide)]
    · rintro b hb
      exact (Option.some_inj.mp hb).symm

theorem lineValue_ne_nil : lineValue r.valueText ≠ [] := by
  obtain ⟨port, hvalue, -⟩ := r.exists_lineValue
  rw [hvalue]
  simp [r.host_ne]

theorem hostPart_valueText : hostPart r.valueText = r.host := by
  obtain ⟨port, hvalue, hport⟩ := r.exists_lineValue
  rw [hostPart, hvalue, Spans.takeWhile_append_stop]
  · intro b hb
    rw [decide_eq_true_eq]
    rintro rfl
    exact r.host_colon hb
  · intro b hb
    simp [hport b hb]

/-! ### The lines in front -/

/-- A line that ends inside the name is not the host line; neither is one that becomes it by what
follows its end. -/
theorem startsHost_of_append {line back : Name} {c : UInt8} (hc : isLineEnd c = true)
    (h : StartsHost (line ++ c :: back)) : StartsHost line := by
  obtain ⟨hname, hcolon⟩ := h
  have hno : c ≠ 0x3A ∧ toLower c ∉ ascii "host" := by
    rw [isLineEnd, Bool.or_eq_true, decide_eq_true_eq, decide_eq_true_eq] at hc
    rcases hc with rfl | rfl <;> decide
  have hlen : 5 ≤ line.length := by
    by_contra hlt
    rcases Nat.lt_or_ge line.length 4 with hshort | hfour
    · have hmem : c ∈ (line ++ c :: back).take 4 := by
        refine List.mem_of_getElem? (i := line.length) ?_
        rw [List.getElem?_take_of_lt hshort, List.getElem?_append_right le_rfl, Nat.sub_self]
        rfl
      exact hno.2 (hname ▸ List.mem_map_of_mem hmem)
    · have heq : line.length = 4 := by omega
      rw [List.getElem?_append_right (by omega), heq] at hcolon
      exact hno.1 (Option.some_inj.mp hcolon)
  rw [List.take_append_of_le_length (by omega)] at hname
  rw [List.getElem?_append_left (by omega)] at hcolon
  exact ⟨hname, hcolon⟩

theorem lines_newline : ∀ line ∈ r.lines, 0x0A ∉ line := by
  have hcr (e : LineEnd) : 0x0A ∉ e.cr := by cases e <;> decide
  have hmethod : ∀ method ∈ methods, 0x0A ∉ method := by decide
  refine List.forall_mem_cons.mpr ⟨?_, List.forall_mem_map.mpr fun l hl => ?_⟩
  · simp only [List.mem_append, not_or]
    exact ⟨⟨hmethod _ r.method_mem, r.requestLine_newline⟩, hcr r.requestEnd⟩
  · simp only [List.mem_append, not_or]
    exact ⟨r.header_newline l hl, hcr l.2⟩

theorem not_startsHost_lines : ∀ line ∈ r.lines.tail, ¬ StartsHost line := by
  refine List.forall_mem_map.mpr fun l hl hstarts => r.header_host l hl ?_
  cases hend : l.2 with
  | lf => rwa [hend, LineEnd.cr, List.append_nil] at hstarts
  | crlf =>
    rw [hend, LineEnd.cr] at hstarts
    exact startsHost_of_append (by decide) hstarts

def hostStart : ℕ := (Lines.unlines 0x0A r.lines).length

theorem drop_hostStart : r.encode.drop r.hostStart = r.hostName ++ 0x3A :: r.valueText := by
  rw [encode_eq, hostStart, List.drop_left]

theorem length_hostName : r.hostName.length = 4 := by
  have hlen := congrArg List.length r.hostName_lower
  rwa [List.length_map] at hlen

theorem drop_value : r.encode.drop (r.hostStart + 5) = r.valueText := by
  have hname : (r.hostName ++ 0x3A :: r.valueText).drop 5 = r.valueText := by
    have hfive : 5 = r.hostName.length + 1 := by rw [r.length_hostName]
    rw [hfive, ← List.drop_drop, List.drop_left]
    rfl
  rw [← List.drop_drop, drop_hostStart, hname]

theorem hostLine : HostLine r.encode r.hostStart where
  pos := by
    rw [hostStart, lines, Lines.length_unlines_cons]
    omega
  newline := by
    have hne : r.lines ≠ [] := List.cons_ne_nil _ _
    have hlast : (Lines.unlines 0x0A r.lines).getLast? = some 0x0A := Lines.getLast?_unlines hne
    have hpos : (Lines.unlines 0x0A r.lines) ≠ [] := by
      intro hnil
      rw [hnil] at hlast
      cases hlast
    have hlen := List.length_pos_iff.mpr hpos
    rw [encode_eq, hostStart, List.getElem?_append_left (by omega), ← List.getLast?_eq_getElem?,
      hlast]
  starts := by
    rw [drop_hostStart]
    constructor
    · rw [← r.length_hostName, List.take_left, r.hostName_lower]
    · rw [← r.length_hostName, List.getElem?_append_right le_rfl, Nat.sub_self]
      rfl
  value_ne := by
    rw [drop_value]
    exact r.lineValue_ne_nil

/-- No line before it names a host. -/
theorem isLeast_hostStart : IsLeast {p | HostLine r.encode p} r.hostStart := by
  refine ⟨r.hostLine, fun p hp => ?_⟩
  by_contra hlt
  obtain ⟨hpos, hnewline, hstarts, -⟩ := hp
  rw [encode_eq] at hnewline hstarts
  obtain ⟨line, hline, back, hdrop⟩ :=
    Lines.exists_line_behind r.lines_newline _ hpos hnewline (Nat.not_le.mp hlt)
  rw [hdrop] at hstarts
  exact r.not_startsHost_lines line hline (startsHost_of_append (by decide) hstarts)

theorem isRequest : IsRequest r.encode := by
  have hlength : ∀ method ∈ methods, method.length = 4 := by decide
  have htake : r.encode.take 4 = r.method := by
    rw [← hlength _ r.method_mem]
    simp [encode]
  rw [IsRequest, htake]
  exact r.method_mem

/-- The extractor reads the host of every request. -/
theorem extract_hostRequest : (extract r.encode).value = some (some r.host) := by
  refine extract_some_iff.mpr ⟨r.isRequest, r.hostStart, r.isLeast_hostStart, ?_⟩
  rw [drop_value, hostPart_valueText]

end HostRequest

end DpiEngine.HTTPHostExtractor
