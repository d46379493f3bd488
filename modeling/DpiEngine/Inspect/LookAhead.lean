import DpiEngine.Inspect.Confined
import DpiEngine.Inspect.Safety
import DpiEngine.Library.Search
import Mathlib.Order.Bounds.Defs

/-! # The look-ahead of the QUIC extractor

The search for a ClientHello tries only handshake bytes that have enough bytes
behind them. It finds what a search at every offset would find first.
-/

namespace DpiEngine.QUICSNIExtractor

open Traced

/-- A ClientHello with a server name starts at offset `j`. -/
def NamedAt (payload : List UInt8) (j : ℕ) : Prop :=
  j < payload.length ∧ ∃ s, (SNIExtractor.extract (payload.drop j)).value = some (some s)

variable {payload : List UInt8} {fuel i j : ℕ}

/-- The handshake byte of a ClientHello with a server name has at least the bytes behind it that the
search asks for. -/
theorem NamedAt.le (h : NamedAt payload j) :
    j + 58 ≤ payload.length ∧ byteAt payload (j + 5) = 0x01 := by
  obtain ⟨hlt, s, hs⟩ := h
  obtain ⟨k, n, hname, -⟩ := SNIExtractor.extract_some_iff.mp hs
  have hge := SNIExtractor.nameStart_ge (payload.drop j) k
  have hle := hname.le
  have htype := hname.hello.handshakeType
  rw [List.length_drop] at hle
  rw [byteAt_drop] at htype
  exact ⟨by omega, htype⟩

theorem value_extract_of_not_namedAt (hj : j < payload.length) (h : ¬ NamedAt payload j) :
    (SNIExtractor.extract (payload.drop j)).value = some none := by
  obtain ⟨r, hr⟩ := (SNIExtractor.extract_safe (payload.drop j)).exists_value
  cases r with
  | none => exact hr
  | some s => exact absurd ⟨hj, s, hr⟩ h

theorem extractFrom_stop (h : payload.length < i + 50) :
    (extractFrom payload fuel i).value = some none := by
  cases fuel with
  | zero => rfl
  | succ fuel =>
    rw [extractFrom, if_neg (by omega)]
    rfl

theorem extractFrom_next (hi : 5 ≤ i) (hlen : i + 50 ≤ payload.length)
    (h : ¬ NamedAt payload (i - 5)) :
    (extractFrom payload (fuel + 1) i).value = (extractFrom payload fuel (i + 1)).value := by
  rw [extractFrom, if_pos (by omega), value_read_bind_of_lt (by omega)]
  split_ifs
  · rw [value_bind, value_extract_of_not_namedAt (by omega) h]
    rfl
  · rfl

theorem extractFrom_found (h : NamedAt payload j) :
    (extractFrom payload (fuel + 1) (j + 5)).value =
      (SNIExtractor.extract (payload.drop j)).value := by
  obtain ⟨hlen, hbyte⟩ := h.le
  obtain ⟨-, s, hs⟩ := h
  rw [extractFrom, if_pos (by omega), value_read_bind_of_lt (by omega), if_pos hbyte, value_bind,
    Nat.add_sub_cancel, hs]
  rfl

/-- The search reaches the least offset with a name. -/
theorem extractFrom_least (hleast : IsLeast {j | NamedAt payload j} j) (hi : 5 ≤ i)
    (hij : i ≤ j + 5) (hfuel : payload.length ≤ i + fuel) :
    (extractFrom payload fuel i).value = (SNIExtractor.extract (payload.drop j)).value := by
  have hnamed : NamedAt payload j := hleast.1
  obtain ⟨hlen, -⟩ := hnamed.le
  have hnext (fuel k : ℕ) (hik : i ≤ k) (hk : k < j + 5) :
      (extractFrom payload (fuel + 1) k).value = (extractFrom payload fuel (k + 1)).value := by
    refine extractFrom_next (by omega) (by omega) fun h => ?_
    have hle : j ≤ k - 5 := hleast.2 h
    omega
  have hlast : j + 5 < i + fuel := by omega
  obtain ⟨fuel', heq⟩ := Search.exists_scan
    (f := fun fuel k => (extractFrom payload fuel k).value) hnext hij hlast
  exact heq.trans (extractFrom_found hnamed)

theorem extractFrom_none (hnone : ∀ j, ¬ NamedAt payload j) (hi : 5 ≤ i) :
    (extractFrom payload fuel i).value = some none := by
  refine Search.scan_end (f := fun fuel k => (extractFrom payload fuel k).value)
    (fun _ => rfl) fun fuel k hk => ?_
  rcases Nat.lt_or_ge payload.length (k + 50) with hlt | hge
  · exact .inr (extractFrom_stop hlt)
  · exact .inl (extractFrom_next (by omega) hge (hnone _))

theorem value_extract_long (hlen : 5 ≤ payload.length) (hlong : byteAt payload 0 &&& 0x80 ≠ 0) :
    (extract payload).value = (extractFrom payload payload.length 5).value := by
  have hinitial : (isQUICInitial payload).value = some true := by
    obtain ⟨version, hversion⟩ : ∃ v, (read32 payload 1).value = some v :=
      (safe_read32.mpr (by omega)).exists_value
    rw [isQUICInitial, if_neg (by omega), value_read_bind_of_lt (by omega), if_neg hlong,
      value_bind, hversion]
    rfl
  rw [extract, value_bind, hinitial]
  rfl

/-- The extractor returns what the server name extractor returns at the least offset where it finds
a name, and nothing if there is none. -/
theorem extract_lookAhead (hlen : 5 ≤ payload.length) (hlong : byteAt payload 0 &&& 0x80 ≠ 0) :
    (∀ j, IsLeast {j | NamedAt payload j} j →
      (extract payload).value = (SNIExtractor.extract (payload.drop j)).value) ∧
    ((∀ j, ¬ NamedAt payload j) → (extract payload).value = some none) := by
  rw [value_extract_long hlen hlong]
  constructor
  · rintro j hleast
    exact extractFrom_least hleast le_rfl (by omega) (by omega)
  · intro hnone
    exact extractFrom_none hnone le_rfl

/-- A ClientHello behind one byte with a long header. -/
theorem extract_lookAhead_strayHello :
    (extract (0xC0 :: SNIExtractor.strayHello)).value = some (some [0x61]) := by
  have hleast : IsLeast {j | NamedAt (0xC0 :: SNIExtractor.strayHello) j} 1 := by
    constructor
    · exact ⟨by decide, [0x61], SNIExtractor.value_extract_strayHello⟩
    · rintro j ⟨-, s, hs⟩
      by_contra hlt
      obtain rfl : j = 0 := by omega
      exact absurd (SNIExtractor.hasHello_of_extract hs).contentType (by decide)
  rw [(extract_lookAhead (by decide) (by decide)).1 1 hleast]
  exact SNIExtractor.value_extract_strayHello

end DpiEngine.QUICSNIExtractor
