import DpiEngine.Inspect.HostLine

/-! # The host stands in the header section

The scan for the host line does not stop at the empty line behind the headers. A
host that it returns stands in the header section unless a line of the body is the
first that names one.
-/

namespace DpiEngine.HTTPHostExtractor

/-- An empty line behind a newline. -/
def EmptyLineAt (payload : List UInt8) (q : ℕ) : Prop :=
  1 ≤ q ∧ payload[q - 1]? = some 0x0A ∧
    (payload[q]? = some 0x0A ∨ payload[q]? = some 0x0D ∧ payload[q + 1]? = some 0x0A)

/-- A line behind the request line, and in front of the first empty line. -/
structure HeaderLine (payload : List UInt8) (p : ℕ) : Prop where
  pos : 1 ≤ p
  newline : payload[p - 1]? = some 0x0A
  not_empty : ∀ q < p, ¬ EmptyLineAt payload q

/-- A header line starts with `Host:` and names the host, which is not empty. -/
def FromHeader (payload : List UInt8) (host : Name) : Prop :=
  host ≠ [] ∧ ∃ p, HeaderLine payload p ∧ StartsHost (payload.drop p) ∧
    host = hostPart (payload.drop (p + 5))

theorem hostPart_eq_nil_iff {t : Name} :
    hostPart t = [] ↔ lineValue t = [] ∨ (lineValue t).head? = some 0x3A := by
  rw [hostPart]
  cases lineValue t with
  | nil => simp
  | cons c value => by_cases hc : c = 0x3A <;> simp [hc]

/-- A returned host stands in the header section and is not empty, if and only if the first line
of a request that starts with `Host:` and has a value has no empty line before it, and its value
does not start with a colon. -/
theorem extract_fromHeader_iff (payload : List UInt8) :
    (∀ host, (extract payload).value = some (some host) → FromHeader payload host) ↔
      (IsRequest payload → ∀ p, IsLeast {p | HostLine payload p} p →
        (∀ q < p, ¬ EmptyLineAt payload q) ∧
          (lineValue (payload.drop (p + 5))).head? ≠ some 0x3A) := by
  constructor
  · intro hsound hrequest p hleast
    have hline : HostLine payload p := hleast.1
    obtain ⟨hne, p', hheader, hstarts, heq⟩ :=
      hsound _ (extract_some_iff.mpr ⟨hrequest, p, hleast, rfl⟩)
    have hvalue : lineValue (payload.drop (p' + 5)) ≠ [] := by
      intro hnil
      exact hne (heq.trans (hostPart_eq_nil_iff.mpr (.inl hnil)))
    have hle : p ≤ p' := hleast.2 ⟨hheader.pos, hheader.newline, hstarts, hvalue⟩
    constructor
    · intro q hq
      exact hheader.not_empty q (hq.trans_le hle)
    · intro hcolon
      exact hne (hostPart_eq_nil_iff.mpr (.inr hcolon))
  · intro hgood host hhost
    obtain ⟨hrequest, p, hleast, rfl⟩ := extract_some_iff.mp hhost
    have hline : HostLine payload p := hleast.1
    obtain ⟨hempty, hcolon⟩ := hgood hrequest p hleast
    refine ⟨?_, p, ⟨hline.pos, hline.newline, hempty⟩, hline.starts, rfl⟩
    rw [ne_eq, hostPart_eq_nil_iff, not_or]
    exact ⟨hline.value_ne, hcolon⟩

/-- A line of the body names the host. -/
theorem not_extract_fromHeader :
    ¬ ∀ payload host, (extract payload).value = some (some host) → FromHeader payload host := by
  intro h
  have hextract : (extract (ascii "POST / HTTP/1.1\r\n\r\nHost: evil")).value =
      some (some (ascii "evil")) := by rfl
  obtain ⟨-, p, hheader, hstarts, -⟩ := h _ _ hextract
  have hempty : EmptyLineAt (ascii "POST / HTTP/1.1\r\n\r\nHost: evil") 17 :=
    ⟨by decide, by decide, .inr (by decide)⟩
  have hle : p < 18 := by
    by_contra hlt
    exact hheader.not_empty 17 (by omega) hempty
  have hnone : ∀ p < 18, ¬ StartsHost ((ascii "POST / HTTP/1.1\r\n\r\nHost: evil").drop p) := by
    decide
  exact hnone p hle hstarts

end DpiEngine.HTTPHostExtractor
