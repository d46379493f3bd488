import DpiEngine.Inspect.Hello
import Mathlib.Order.Interval.Set.Basic

/-! # Where a server name stands

The extractor takes the host name of the first server name extension. The vectors
in front of it are kept inside the payload, but not inside the handshake message
and the record that declare them.
-/

namespace DpiEngine.SNIExtractor

open Traced

section Walk

/-- A server name extension of `len` bytes starts with a host name of `n` bytes. -/
structure HostNameAt (payload : List UInt8) (p len n : ℕ) : Prop where
  header_le : 5 ≤ len
  list_ge : 3 ≤ wordAt payload p
  hostname : byteAt payload (p + 2) = 0
  length_eq : n = wordAt payload (p + 3)
  fits : n + 5 ≤ len

/-- From `offset` on, the first server name extension stands behind `k` bytes of others and starts
with a host name of `n` bytes. No extension on the way goes beyond `last`. -/
inductive ServerNameAfter (payload : List UInt8) (last : ℕ) : ℕ → ℕ → ℕ → Prop
  | here {offset n : ℕ} : wordAt payload offset = 0 →
      offset + 4 + wordAt payload (offset + 2) ≤ last →
      HostNameAt payload (offset + 4) (wordAt payload (offset + 2)) n →
      ServerNameAfter payload last offset 0 n
  | later {offset k n : ℕ} : wordAt payload offset ≠ 0 →
      offset + 4 + wordAt payload (offset + 2) ≤ last →
      ServerNameAfter payload last (offset + 4 + wordAt payload (offset + 2)) k n →
      ServerNameAfter payload last offset (4 + wordAt payload (offset + 2) + k) n

variable {payload : List UInt8} {last offset k k' n n' : ℕ} {s : Name}

theorem extractServerName_some_iff {p len : ℕ} (h : p + len ≤ payload.length) :
    (extractServerName payload p len).value = some (some s) ↔
      ∃ n, HostNameAt payload p len n ∧ s = (payload.drop (p + 5)).take n := by
  constructor
  · intro hs
    have hne {s : Name} : (none : Option Name) ≠ some s := nofun
    obtain ⟨hlen, hs⟩ := value_guard hne hs
    obtain ⟨-, hs⟩ := value_read16_bind hs
    obtain ⟨hlist, hs⟩ := value_guard hne hs
    obtain ⟨-, hs⟩ := value_read_bind hs
    obtain ⟨-, hs⟩ := value_read16_bind hs
    obtain ⟨htype, hs⟩ := value_guard hne hs
    obtain ⟨hfits, hs⟩ := value_guard hne hs
    obtain ⟨sni, hsni, hs⟩ := value_bind_some hs
    cases hs
    exact ⟨wordAt payload (p + 3), ⟨not_lt.mp hlen, not_lt.mp hlist, not_not.mp htype, rfl,
      by omega⟩, value_readBytes hsni⟩
  · rintro ⟨n, ⟨hlen, hlist, htype, rfl, hfits⟩, rfl⟩
    rw [extractServerName, if_neg (by omega), value_read16_bind_of_lt (by omega), if_neg (by omega),
      value_read_bind_of_lt (by omega), value_read16_bind_of_lt (by omega),
      if_neg (not_not.mpr htype), if_neg (by omega), value_bind, value_readBytes_of_le (by omega)]
    rfl

theorem ServerNameAfter.le (h : ServerNameAfter payload last offset k n) :
    offset + k + 9 + n ≤ last := by
  induction h with
  | here _ hend hname =>
    have hfits := hname.fits
    omega
  | later _ _ _ ih => omega

theorem ServerNameAfter.unique (h : ServerNameAfter payload last offset k n)
    (h' : ServerNameAfter payload last offset k' n') : k = k' ∧ n = n' := by
  induction h generalizing k' n' with
  | here hzero _ hname =>
    cases h' with
    | here _ _ hname' => exact ⟨rfl, hname.length_eq.trans hname'.length_eq.symm⟩
    | later hne => exact absurd hzero hne
  | later hne _ _ ih =>
    cases h' with
    | here hzero => exact absurd hzero hne
    | later _ _ h' =>
      obtain ⟨rfl, rfl⟩ := ih h'
      exact ⟨rfl, rfl⟩

/-- What the loop returns is the host name that the walk finds. -/
theorem serverNameAfter_of_extensionLoop {fuel : ℕ} (hlast : last ≤ payload.length)
    (h : (extensionLoop payload last fuel offset).value = some (some s)) :
    ∃ k n, ServerNameAfter payload last offset k n ∧
      s = (payload.drop (offset + k + 9)).take n := by
  have hne {s : Name} : (none : Option Name) ≠ some s := nofun
  induction fuel generalizing offset with
  | zero => cases h
  | succ fuel ih =>
    rw [extensionLoop] at h
    obtain ⟨-, h⟩ := value_guard hne h
    obtain ⟨-, h⟩ := value_read16_bind h
    obtain ⟨-, h⟩ := value_read16_bind h
    obtain ⟨hend, h⟩ := value_guard hne h
    by_cases hzero : wordAt payload offset = 0
    · rw [if_pos hzero] at h
      obtain ⟨n, hname, rfl⟩ := (extractServerName_some_iff (by omega)).mp h
      exact ⟨0, n, .here hzero (not_lt.mp hend) hname, rfl⟩
    · rw [if_neg hzero] at h
      obtain ⟨k, n, hafter, rfl⟩ := ih h
      refine ⟨_, n, .later hzero (not_lt.mp hend) hafter, ?_⟩
      rw [show offset + (4 + wordAt payload (offset + 2) + k) + 9 =
        offset + 4 + wordAt payload (offset + 2) + k + 9 by omega]

/-- The induction is on the walk; every extension on the way leaves enough fuel. -/
theorem ServerNameAfter.extensionLoop (h : ServerNameAfter payload last offset k n)
    (hlast : last ≤ payload.length) {fuel : ℕ} (hfuel : last ≤ offset + fuel) :
    (extensionLoop payload last fuel offset).value =
      some (some ((payload.drop (offset + k + 9)).take n)) := by
  induction h generalizing fuel with
  | @here offset n hzero hend hname =>
    obtain ⟨fuel, rfl⟩ := Nat.exists_eq_succ_of_ne_zero (by omega : fuel ≠ 0)
    rw [SNIExtractor.extensionLoop, if_neg (by omega), value_read16_bind_of_lt (by omega),
      value_read16_bind_of_lt (by omega), if_neg (by omega), if_pos hzero]
    exact (extractServerName_some_iff (by omega)).mpr ⟨n, hname, rfl⟩
  | @later offset k n hne hend hafter ih =>
    obtain ⟨fuel, rfl⟩ := Nat.exists_eq_succ_of_ne_zero (by omega : fuel ≠ 0)
    rw [SNIExtractor.extensionLoop, if_neg (by omega), value_read16_bind_of_lt (by omega),
      value_read16_bind_of_lt (by omega), if_neg (by omega), if_neg hne, ih (by omega)]
    rw [show offset + (4 + wordAt payload (offset + 2) + k) + 9 =
      offset + 4 + wordAt payload (offset + 2) + k + 9 by omega]

end Walk

section Confinement

variable {payload : List UInt8} {k k' n n' : ℕ} {s : Name}

/-- The record is laid out inside the payload, and its first server name extension starts with a
host name of `n` bytes behind `k` bytes of other extensions. -/
structure AnnouncesName (payload : List UInt8) (k n : ℕ) : Prop where
  hello : HasHello payload
  found : ServerNameAfter payload (extensionsEnd payload) (extensionsStart payload) k n

def nameStart (payload : List UInt8) (k : ℕ) : ℕ := extensionsStart payload + k + 9

theorem AnnouncesName.unique (h : AnnouncesName payload k n) (h' : AnnouncesName payload k' n') :
    k = k' ∧ n = n' := h.found.unique h'.found

theorem AnnouncesName.le (h : AnnouncesName payload k n) :
    nameStart payload k + n ≤ payload.length := h.found.le.trans h.hello.extensions_le

/-- The extractor returns the announced host name. -/
theorem extract_some_iff : (extract payload).value = some (some s) ↔
    ∃ k n, AnnouncesName payload k n ∧ s = (payload.drop (nameStart payload k)).take n := by
  constructor
  · intro hs
    have hhello := hasHello_of_extract hs
    rw [value_extract hhello] at hs
    obtain ⟨k, n, hafter, hs⟩ := serverNameAfter_of_extensionLoop hhello.extensions_le hs
    exact ⟨k, n, ⟨hhello, hafter⟩, hs⟩
  · rintro ⟨k, n, ⟨hhello, hafter⟩, rfl⟩
    rw [value_extract hhello]
    exact hafter.extensionLoop hhello.extensions_le (by omega)

/-- The declared bytes of the message from the client version through the host name. -/
def bytesThroughName (payload : List UInt8) (k n : ℕ) : ℕ :=
  2 + 32 + (1 + (byteAt payload 43).toNat) + (2 + wordAt payload (sessionIdEnd payload)) +
    (1 + (byteAt payload (cipherSuitesEnd payload)).toNat) + 2 + k + 9 + n

theorem nameStart_add (payload : List UInt8) (k n : ℕ) :
    nameStart payload k + n = 9 + bytesThroughName payload k n := by
  unfold nameStart bytesThroughName extensionsStart compressionMethodsEnd cipherSuitesEnd
    sessionIdEnd
  omega

theorem nameStart_ge (payload : List UInt8) (k : ℕ) : 58 ≤ nameStart payload k := by
  unfold nameStart extensionsStart compressionMethodsEnd cipherSuitesEnd sessionIdEnd
  omega

/-- The bytes of a returned name lie inside the handshake message and inside the record, both as
the payload declares them. -/
def NameConfined (payload : List UInt8) : Prop :=
  ∀ s, (extract payload).value = some (some s) →
    ∃ k n, AnnouncesName payload k n ∧ s = (payload.drop (nameStart payload k)).take n ∧
      Set.Ico (nameStart payload k) (nameStart payload k + n) ⊆
        Set.Ico 9 (9 + handshakeLength payload) ∩ Set.Ico 5 (5 + wordAt payload 3)

theorem AnnouncesName.confined_iff (h : AnnouncesName payload k n) :
    NameConfined payload ↔ n = 0 ∨ (bytesThroughName payload k n ≤ handshakeLength payload ∧
      4 + bytesThroughName payload k n ≤ wordAt payload 3) := by
  have hadd := nameStart_add payload k n
  have hge := nameStart_ge payload k
  have hvalue : (extract payload).value =
      some (some ((payload.drop (nameStart payload k)).take n)) :=
    extract_some_iff.mpr ⟨k, n, h, rfl⟩
  constructor
  · intro hconfined
    obtain ⟨k', n', h', -, hsub⟩ := hconfined _ hvalue
    obtain ⟨rfl, rfl⟩ := h.unique h'
    rcases Nat.eq_zero_or_pos n with hzero | hpos
    · exact .inl hzero
    · -- the last byte of the name
      obtain ⟨⟨-, hhandshake⟩, -, hrecord⟩ :=
        hsub (Set.mem_Ico.mpr ⟨(by omega : _ ≤ nameStart payload k + n - 1), by omega⟩)
      exact .inr ⟨by omega, by omega⟩
  · rintro hfits s hs
    obtain rfl : (payload.drop (nameStart payload k)).take n = s := by
      rw [hvalue, Option.some.injEq, Option.some.injEq] at hs
      exact hs
    refine ⟨k, n, h, rfl, ?_⟩
    rintro x ⟨hx, hx'⟩
    rcases hfits with rfl | ⟨hhandshake, hrecord⟩
    · omega
    · exact ⟨⟨by omega, by omega⟩, by omega, by omega⟩

/-- Names are confined exactly when the declared bytes through a name of at least one byte fit into
the handshake message, and with its header into the record. -/
theorem extract_confined_iff (payload : List UInt8) : NameConfined payload ↔
    ∀ k n, AnnouncesName payload k n → n = 0 ∨
      (bytesThroughName payload k n ≤ handshakeLength payload ∧
        4 + bytesThroughName payload k n ≤ wordAt payload 3) := by
  constructor
  · intro h k n hname
    exact hname.confined_iff.mp h
  · rintro h s hs
    obtain ⟨k, n, hname, -⟩ := extract_some_iff.mp hs
    exact hname.confined_iff.mpr (h k n hname) s hs

/-- A record that ends behind its handshake header, of an empty message, and the bytes of a
ClientHello behind it. -/
def strayHello : List UInt8 :=
  [0x16, 3, 1, 0, 4, 1, 0, 0, 0, 3, 3] ++ List.replicate 32 0 ++ [0, 0, 0, 0, 0, 10] ++
    [0, 0, 0, 6, 0, 4, 0, 0, 1, 0x61]

theorem announcesName_strayHello : AnnouncesName strayHello 0 1 where
  hello := ⟨by decide, by decide, by decide, by decide, by decide, by decide⟩
  found := .here (by decide) (by decide)
    ⟨by decide, by decide, by decide, by decide, by decide⟩

theorem value_extract_strayHello : (extract strayHello).value = some (some [0x61]) :=
  extract_some_iff.mpr ⟨0, 1, announcesName_strayHello, by decide⟩

/-- The name is taken from behind the message and the record. -/
theorem extract_strayHello_not_confined : (extract strayHello).value = some (some [0x61]) ∧
    ¬ NameConfined strayHello := by
  refine ⟨value_extract_strayHello, ?_⟩
  rw [announcesName_strayHello.confined_iff]
  decide

end Confinement

end DpiEngine.SNIExtractor
