import DpiEngine.Inspect.Safety
import DpiEngine.Library.Search
import DpiEngine.Library.Spans
import Mathlib.Order.Bounds.Defs

/-! # The line that names the host

The extractor takes the first line behind a newline that starts with `Host:` and
has a value. Its loops compute spans of the payload.
-/

namespace DpiEngine.HTTPHostExtractor

open Traced

/-- The text starts with `Host:`, the letters in any case. -/
def StartsHost (t : Name) : Prop := (t.take 4).map toLower = ascii "host" ∧ t[4]? = some 0x3A

instance (t : Name) : Decidable (StartsHost t) := inferInstanceAs (Decidable (_ ∧ _))

def lineValue (t : Name) : Name :=
  ((t.dropWhile isBlank).takeWhile fun b => !isLineEnd b).rdropWhile isBlank

def hostPart (t : Name) : Name := (lineValue t).takeWhile (· ≠ 0x3A)

section Loops

variable {payload : List UInt8}

theorem value_skipWhile {p : UInt8 → Bool} {fuel i : ℕ} (hfuel : payload.length ≤ i + fuel) :
    (skipWhile p payload fuel i).value = some (i + ((payload.drop i).takeWhile p).length) := by
  induction fuel generalizing i with
  | zero =>
    rw [List.drop_eq_nil_of_le (by omega)]
    rfl
  | succ fuel ih =>
    rw [skipWhile]
    by_cases hi : i < payload.length
    · rw [if_pos hi, value_read_bind_of_lt hi, drop_eq_byteAt hi]
      by_cases hp : p (byteAt payload i) = true
      · rw [if_pos hp, ih (by omega), List.takeWhile_cons_of_pos hp, List.length_cons]
        congr 1
        omega
      · rw [if_neg hp, List.takeWhile_cons_of_neg hp]
        rfl
    · rw [if_neg hi, List.drop_eq_nil_of_le (by omega)]
      rfl

theorem value_trimEnd {i n : ℕ} (h : i + n ≤ payload.length) :
    (trimEnd payload i (i + n)).value =
      some (i + (((payload.drop i).take n).rdropWhile isBlank).length) := by
  induction n with
  | zero =>
    cases i with
    | zero => rfl
    | succ i =>
      rw [Nat.add_zero, trimEnd, if_neg (Nat.lt_irrefl _)]
      simp
  | succ n ih =>
    have hlt : i + n < payload.length := by omega
    have hslice : (payload.drop i).take (n + 1) =
        (payload.drop i).take n ++ [byteAt payload (i + n)] := by
      rw [List.take_add_one, List.getElem?_drop, getElem?_of_lt hlt, Option.toList_some]
    rw [← Nat.add_assoc, trimEnd, if_pos (by omega), value_read_bind_of_lt hlt, hslice]
    by_cases hblank : isBlank (byteAt payload (i + n)) = true
    · rw [if_pos hblank, ih (by omega), List.rdropWhile_concat_pos _ _ _ hblank]
    · rw [if_neg hblank, List.rdropWhile_concat_neg _ _ _ hblank, List.length_append,
        List.length_singleton, List.length_take, List.length_drop]
      simp only [value_pure]
      congr 1
      omega

theorem value_matchesLower {text : Name} {i : ℕ} (h : i + text.length ≤ payload.length) :
    (matchesLower payload i text).value =
      some (decide (((payload.drop i).take text.length).map toLower = text)) := by
  induction text generalizing i with
  | nil => simp [matchesLower]
  | cons c text ih =>
    rw [List.length_cons] at h
    have hi : i < payload.length := by omega
    rw [matchesLower, value_read_bind_of_lt hi, drop_eq_byteAt hi, List.length_cons,
      List.take_succ_cons, List.map_cons]
    by_cases hc : toLower (byteAt payload i) = c
    · rw [if_pos hc, ih (by omega)]
      simp [hc]
    · rw [if_neg hc]
      simp [hc]

theorem value_isHostHeader (start : ℕ) :
    (isHostHeader payload start).value = some (decide (StartsHost (payload.drop start))) := by
  have hhost : (ascii "host").length = 4 := rfl
  rw [isHostHeader]
  by_cases hlen : start + 5 ≤ payload.length
  · have hcolon : (payload.drop start)[4]? = some (byteAt payload (start + 4)) := by
      rw [List.getElem?_drop, getElem?_of_lt (by omega)]
    rw [if_pos hlen, value_bind, value_matchesLower (by omega), hhost, Option.bind_some]
    by_cases hname : ((payload.drop start).take 4).map toLower = ascii "host"
    · rw [decide_eq_true hname, if_pos rfl, value_read_bind_of_lt (by omega)]
      simp only [StartsHost, hname, hcolon, Option.some.injEq, true_and]
      rfl
    · have hno : ¬ StartsHost (payload.drop start) := fun h => hname h.1
      rw [decide_eq_false hname, decide_eq_false hno]
      rfl
  · have hcolon : (payload.drop start)[4]? = none := by
      rw [List.getElem?_drop, List.getElem?_eq_none (by omega)]
    have hno : ¬ StartsHost (payload.drop start) := by
      rintro ⟨-, hsome⟩
      rw [hcolon] at hsome
      cases hsome
    rw [if_neg hlen, decide_eq_false hno]
    rfl

theorem value_hostValue {valStart : ℕ} (h : valStart ≤ payload.length) :
    (hostValue payload valStart).value = some
      (if lineValue (payload.drop valStart) = [] then none
      else some (hostPart (payload.drop valStart))) := by
  obtain ⟨t, ht⟩ : ∃ t, t = payload.drop valStart := ⟨_, rfl⟩
  obtain ⟨a, ha⟩ : ∃ a, a = valStart + (t.takeWhile isBlank).length := ⟨_, rfl⟩
  obtain ⟨w, hw⟩ : ∃ w, w = (t.dropWhile isBlank).takeWhile fun b => !isLineEnd b := ⟨_, rfl⟩
  have hdrop : payload.drop a = t.dropWhile isBlank := by
    rw [ha, ← List.drop_drop, ← ht, Spans.drop_length_takeWhile]
  have hwpre : w <+: payload.drop a := by
    rw [hdrop, hw]
    exact List.takeWhile_prefix _
  have hvpre : lineValue t <+: payload.drop a := by
    rw [lineValue, ← hw]
    exact (List.rdropWhile_prefix _ _).trans hwpre
  have hale : a ≤ payload.length := by
    have hlen := (List.takeWhile_prefix isBlank (l := t)).length_le
    rw [ht, List.length_drop, ← ht] at hlen
    omega
  have hwle : a + w.length ≤ payload.length := by
    have hlen := hwpre.length_le
    rw [List.length_drop] at hlen
    omega
  have hvalue : (((payload.drop a).take w.length).rdropWhile isBlank) = lineValue t := by
    rw [Spans.take_length_of_isPrefix hwpre, lineValue, ← hw]
  rw [← ht, hostValue, value_bind, value_skipWhile (by omega), Option.bind_some, ← ht, ← ha,
    value_bind, value_skipWhile (by omega), Option.bind_some, hdrop, ← hw, value_bind,
    value_trimEnd hwle, Option.bind_some, hvalue]
  by_cases hnil : lineValue t = []
  · rw [if_pos hnil, if_neg (by simp [hnil])]
    rfl
  · have hpos := List.length_pos_iff.mpr hnil
    have hvle := hvpre.length_le
    rw [List.length_drop] at hvle
    rw [if_neg hnil, if_pos (by omega), Nat.add_sub_cancel_left,
      value_readBytes_bind_of_le (by omega), Spans.take_length_of_isPrefix hvpre]
    rfl

end Loops

/-- A line at `p` behind a newline that starts with `Host:` and has a value. -/
structure HostLine (payload : List UInt8) (p : ℕ) : Prop where
  pos : 1 ≤ p
  newline : payload[p - 1]? = some 0x0A
  starts : StartsHost (payload.drop p)
  value_ne : lineValue (payload.drop (p + 5)) ≠ []

def IsRequest (payload : List UInt8) : Prop := payload.take 4 ∈ methods

section Search

variable {payload : List UInt8} {fuel i p : ℕ}

theorem lineValue_nil : lineValue [] = [] := rfl

theorem HostLine.lt (h : HostLine payload p) : p + 5 < payload.length := by
  by_contra hlen
  have hne := h.value_ne
  rw [List.drop_eq_nil_of_le (Nat.not_lt.mp hlen)] at hne
  exact hne lineValue_nil

theorem extractFrom_next (hlen : i + 6 < payload.length) (h : ¬ HostLine payload (i + 1)) :
    (extractFrom payload (fuel + 1) i).value = (extractFrom payload fuel (i + 1)).value := by
  rw [extractFrom, if_pos hlen, value_read_bind_of_lt (by omega)]
  by_cases hnewline : byteAt payload i = 0x0A
  · rw [if_pos hnewline, value_bind, value_isHostHeader, Option.bind_some]
    by_cases hstarts : StartsHost (payload.drop (i + 1))
    · have hnil : lineValue (payload.drop (i + 6)) = [] := by
        by_contra hne
        refine h ⟨Nat.succ_pos _, ?_, hstarts, hne⟩
        rw [Nat.add_sub_cancel, getElem?_of_lt (by omega), hnewline]
      rw [decide_eq_true hstarts, if_pos rfl, value_bind, value_hostValue (by omega),
        Option.bind_some, if_pos hnil]
    · rw [decide_eq_false hstarts]
      rfl
  · rw [if_neg hnewline]

theorem extractFrom_stop (hlen : payload.length ≤ i + 6) :
    (extractFrom payload fuel i).value = some none := by
  cases fuel with
  | zero => rfl
  | succ fuel =>
    rw [extractFrom, if_neg (by omega)]
    rfl

theorem extractFrom_found (h : HostLine payload (i + 1)) :
    (extractFrom payload (fuel + 1) i).value = some (some (hostPart (payload.drop (i + 6)))) := by
  have hlen := h.lt
  have hnewline := h.newline
  rw [Nat.add_sub_cancel, getElem?_of_lt (by omega), Option.some_inj] at hnewline
  rw [extractFrom, if_pos (by omega), value_read_bind_of_lt (by omega), if_pos hnewline, value_bind,
    value_isHostHeader, decide_eq_true h.starts, Option.bind_some, if_pos rfl, value_bind,
    value_hostValue (by omega), Option.bind_some, if_neg h.value_ne]
  rfl

theorem extractFrom_least (hleast : IsLeast {p | HostLine payload p} p) :
    (extractFrom payload payload.length 0).value =
      some (some (hostPart (payload.drop (p + 5)))) := by
  have hline : HostLine payload p := hleast.1
  have hlen := hline.lt
  obtain ⟨j, rfl⟩ := Nat.exists_eq_add_of_le' hline.pos
  have hnext (fuel k : ℕ) (_ : 0 ≤ k) (hk : k < j) :
      (extractFrom payload (fuel + 1) k).value = (extractFrom payload fuel (k + 1)).value := by
    refine extractFrom_next (by omega) fun h => ?_
    have hle : j + 1 ≤ k + 1 := hleast.2 h
    omega
  have hlast : j < 0 + payload.length := by omega
  obtain ⟨fuel', heq⟩ := Search.exists_scan
    (f := fun fuel k => (extractFrom payload fuel k).value) hnext (Nat.zero_le _) hlast
  exact heq.trans (extractFrom_found hline)

theorem extractFrom_none (hnone : ∀ p, ¬ HostLine payload p) :
    (extractFrom payload fuel i).value = some none := by
  refine Search.scan_end (f := fun fuel k => (extractFrom payload fuel k).value)
    (fun _ => rfl) fun fuel k _ => ?_
  rcases Nat.lt_or_ge (k + 6) payload.length with hlt | hge
  · exact .inl (extractFrom_next hlt (hnone _))
  · exact .inr (extractFrom_stop hge)

theorem value_isHTTPRequest :
    (isHTTPRequest payload).value = some (methods.contains (payload.take 4)) := by
  have hlength : ∀ method ∈ methods, method.length = 4 := by decide
  rw [isHTTPRequest]
  by_cases hlen : payload.length < 4
  · have hno : methods.contains (payload.take 4) = false := by
      rw [List.contains_eq_mem, decide_eq_false_iff_not]
      intro hmem
      have := hlength _ hmem
      rw [List.length_take] at this
      omega
    rw [if_pos hlen, hno]
    rfl
  · rw [if_neg hlen, value_readBytes_bind_of_le (by omega)]
    rfl

/-- The extractor returns the host of the first line that names one in a request. -/
theorem extract_some_iff {host : Name} : (extract payload).value = some (some host) ↔
    IsRequest payload ∧ ∃ p, IsLeast {p | HostLine payload p} p ∧
      host = hostPart (payload.drop (p + 5)) := by
  rw [extract, value_bind, value_isHTTPRequest, Option.bind_some, IsRequest]
  by_cases hrequest : payload.take 4 ∈ methods
  · rw [List.contains_eq_mem, decide_eq_true hrequest, if_neg (by simp), and_iff_right hrequest]
    by_cases hline : ∃ p, HostLine payload p
    · classical
      have hleast : IsLeast {p | HostLine payload p} (Nat.find hline) :=
        ⟨Nat.find_spec hline, fun q hq => Nat.find_min' hline hq⟩
      rw [extractFrom_least hleast, Option.some_inj, Option.some_inj]
      constructor
      · rintro rfl
        exact ⟨_, hleast, rfl⟩
      · rintro ⟨p, hp, rfl⟩
        rw [hp.unique hleast]
    · rw [extractFrom_none (not_exists.mp hline)]
      refine iff_of_false (by simp) ?_
      rintro ⟨p, hp, -⟩
      exact hline ⟨p, hp.1⟩
  · rw [List.contains_eq_mem, decide_eq_false hrequest]
    exact iff_of_false (by simp) fun h => hrequest h.1

end Search

end DpiEngine.HTTPHostExtractor
