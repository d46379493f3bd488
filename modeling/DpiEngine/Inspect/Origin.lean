import DpiEngine.Inspect.Confined
import DpiEngine.Inspect.HostLine
import DpiEngine.Inspect.Query

/-! # Where the names come from

The extractors copy names out of the payload. A server name or a host is one
contiguous part of it, and a domain name is joined from labels that are.
-/

namespace DpiEngine

open Traced

namespace SNIExtractor

variable {payload : List UInt8}

theorem yields_extract : Yields (· <:+: payload) (extract payload) := by
  rintro s hs
  obtain ⟨k, n, -, rfl⟩ := extract_some_iff.mp hs
  exact slice_infix _ _ _

end SNIExtractor

namespace QUICSNIExtractor

variable {payload : List UInt8}

theorem yields_extractFrom (fuel i : ℕ) :
    Yields (· <:+: payload) (extractFrom payload fuel i) := by
  induction fuel generalizing i with
  | zero => exact yields_none
  | succ fuel ih =>
    apply Yields.when; intro _
    apply Yields.bind; intro b _
    apply Yields.ite
    · intro _
      apply Yields.bind; intro name hname
      cases name with
      | some sni =>
        have hsuffix : sni <:+: payload.drop (i - 5) := SNIExtractor.yields_extract sni hname
        exact yields_some (hsuffix.trans (List.drop_suffix _ _).isInfix)
      | none => exact ih _
    · intro _; exact ih _

theorem yields_extract : Yields (· <:+: payload) (extract payload) := by
  apply Yields.bind; intro isInitial _
  apply Yields.guard; intro _
  exact yields_extractFrom _ _

end QUICSNIExtractor

namespace HTTPHostExtractor

variable {payload : List UInt8}

theorem hostPart_isInfix (t : Name) : hostPart t <:+: t := by
  have hspan : lineValue t <+: t.dropWhile isBlank :=
    (List.rdropWhile_prefix _ _).trans (List.takeWhile_prefix _)
  have hvalue : lineValue t <:+: t := hspan.isInfix.trans (List.dropWhile_suffix _).isInfix
  exact (List.takeWhile_prefix _).isInfix.trans hvalue

theorem yields_extract : Yields (· <:+: payload) (extract payload) := by
  rintro host hhost
  obtain ⟨-, p, -, rfl⟩ := extract_some_iff.mp hhost
  exact (hostPart_isInfix _).trans (List.drop_suffix _ _).isInfix

end HTTPHostExtractor

namespace DNSExtractor

variable {m : List UInt8}

/-- The name is joined by dots from labels that stand in the message. -/
def JoinedFrom (m : List UInt8) (name : Name) : Prop :=
  ∃ labels : List Name, (∀ l ∈ labels, l ≠ [] ∧ l <:+: m) ∧ name = [0x2E].intercalate labels

theorem NameAt.isInfix {o k : ℕ} {e : NameEnd} {labels : List Name} (h : NameAt m o e k labels) :
    ∀ l ∈ labels, l <:+: m := by
  induction h with
  | root | cut => exact fun _ hl => absurd hl List.not_mem_nil
  | label _ _ _ hl _ ih =>
    refine List.forall_mem_cons.mpr ⟨?_, ih⟩
    rw [hl]
    exact slice_infix _ _ _
  | pointer _ _ _ _ _ _ ih => exact ih

theorem extractQuery_joinedFrom :
    Yields (fun r => JoinedFrom m r.queryDomain) (extractQuery m) := by
  rintro r hr
  obtain ⟨-, e, k, labels, hname, -, -, rfl⟩ := extractQuery_some_iff.mp hr
  exact ⟨labels, fun l hl => ⟨hname.forall_ne_nil l hl, hname.isInfix l hl⟩, rfl⟩

end DNSExtractor

/-- The extractors read only inside the payload, however many rounds the pointers of a domain name
take, and return nothing that does not come from it. -/
structure ExtractorsConfined (payload : List UInt8) : Prop where
  sni_safe : (SNIExtractor.extract payload).Safe
  quic_safe : (QUICSNIExtractor.extract payload).Safe
  http_safe : (HTTPHostExtractor.extract payload).Safe
  dns_safe : (DNSExtractor.extractQuery payload).Safe
  rounds_safe : ∀ rounds c, (DNSExtractor.nameLoop payload rounds c).Safe
  sni_infix : ∀ s, (SNIExtractor.extract payload).value = some (some s) → s <:+: payload
  quic_infix : ∀ s, (QUICSNIExtractor.extract payload).value = some (some s) → s <:+: payload
  http_infix : ∀ s, (HTTPHostExtractor.extract payload).value = some (some s) → s <:+: payload
  dns_joined : ∀ r, (DNSExtractor.extractQuery payload).value = some (some r) →
    DNSExtractor.JoinedFrom payload r.queryDomain

/-- Whatever its bytes, a payload confines the extractors. -/
theorem extractors_confined (payload : List UInt8) : ExtractorsConfined payload where
  sni_safe := SNIExtractor.extract_safe payload
  quic_safe := QUICSNIExtractor.extract_safe payload
  http_safe := HTTPHostExtractor.extract_safe payload
  dns_safe := DNSExtractor.extractQuery_safe payload
  rounds_safe := DNSExtractor.nameLoop_safe payload
  sni_infix := SNIExtractor.yields_extract
  quic_infix := QUICSNIExtractor.yields_extract
  http_infix := HTTPHostExtractor.yields_extract
  dns_joined := DNSExtractor.extractQuery_joinedFrom

end DpiEngine
