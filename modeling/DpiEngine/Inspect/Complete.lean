import DpiEngine.Inspect.Query

/-! # Names that are complete

The loop over a name also stops where the message ends, and reads labels of more
than 63 bytes. Names that end in a zero byte and have short labels are encodings.
-/

namespace DpiEngine.DNSExtractor

open Traced

section Unique

variable {m : List UInt8} {o k k' : ℕ} {e e' : NameEnd} {labels labels' : List Name}

theorem NameAt.unique (h : NameAt m o e k labels) (h' : NameAt m o e' k' labels') :
    e = e' ∧ labels = labels' := by
  induction h generalizing k' labels' with
  | root hlt hzero =>
    cases h' with
    | root => exact ⟨rfl, rfl⟩
    | cut hend => exact absurd hlt (Nat.not_lt.mpr hend)
    | label hne => exact absurd hzero hne
    | pointer _ hmask => exact absurd hzero (not_pointer_zero hmask)
  | cut hend =>
    cases h' with
    | cut => exact ⟨rfl, rfl⟩
    | root hlt => omega
    | label _ _ hfits => omega
    | pointer hlow => omega
  | label hne hmask hfits hl _ ih =>
    cases h' with
    | root _ hzero => exact absurd hzero hne
    | cut hend => omega
    | pointer _ hmask' => exact absurd hmask' hmask
    | label _ _ _ hl' hrest =>
      obtain ⟨he, hlabels⟩ := ih hrest
      exact ⟨he, by rw [hl, hl', hlabels]⟩
  | pointer hlow hmask htarget _ _ _ ih =>
    cases h' with
    | root _ hzero => exact absurd hzero (not_pointer_zero hmask)
    | cut hend => omega
    | label _ hmask' => exact absurd hmask hmask'
    | pointer _ _ htarget' _ _ hrest =>
      rw [← htarget] at htarget'
      subst htarget'
      exact ih hrest

end Unique

theorem bytes16_pointer {high : UInt8} (h : high &&& 0xC0 = 0xC0) (low : UInt8) :
    be16 (high &&& 0x3F) low < 2 ^ 14 ∧
      bytes16 (0xC000 + be16 (high &&& 0x3F) low) = [high, low] := by
  have hall : ∀ n : Fin 256, UInt8.ofNat n.val &&& 0xC0 = 0xC0 →
      n.val = 0xC0 + (UInt8.ofNat n.val &&& 0x3F).toNat := by decide +kernel
  have hhigh := hall ⟨high.toNat, high.toNat_lt⟩ (by simpa using h)
  rw [UInt8.ofNat_toNat] at hhigh
  have hlt := high.toNat_lt
  have hlow := low.toNat_lt
  simp only at hhigh
  rw [be16_eq]
  refine ⟨by omega, ?_⟩
  have hdiv : (0xC000 + ((high &&& 0x3F).toNat * 256 + low.toNat)) / 256 = high.toNat := by omega
  have hmod : (0xC000 + ((high &&& 0x3F).toNat * 256 + low.toNat)) % 256 = low.toNat := by omega
  have hbyte : UInt8.ofNat (0xC000 + ((high &&& 0x3F).toNat * 256 + low.toNat)) = low := by
    apply UInt8.toNat_inj.mp
    rw [UInt8.toNat_ofNat', hmod]
  rw [bytes16, hdiv, hbyte, UInt8.ofNat_toNat]

theorem NameAt.encodesAt {m : List UInt8} {o k : ℕ} {labels : List Name}
    (h : NameAt m o .root k labels) (hshort : ∀ l ∈ labels, l.length ≤ 63) :
    EncodesAt m o k labels := by
  generalize he : NameEnd.root = e at h
  induction h with
  | root hlt hzero =>
    refine .root ?_
    rw [drop_eq_byteAt hlt, hzero]
    exact List.prefix_append [0] _
  | cut => cases he
  | @label o k e l labels hne hmask hfits hl _ ih =>
    rw [List.forall_mem_cons] at hshort
    have hlen : l.length = (byteAt m o).toNat := by
      rw [hl, List.length_take, List.length_drop]
      omega
    have hpos : (byteAt m o).toNat ≠ 0 := fun h => hne (UInt8.toNat_inj.mp h)
    refine .label (by omega) hshort.1 ?_ (hlen ▸ ih hshort.2 he)
    rw [drop_eq_byteAt (by omega), hlen, UInt8.ofNat_toNat, List.singleton_append,
      List.prefix_cons_inj, hl]
    exact List.take_prefix _ _
  | @pointer o k target e labels hlow hmask htarget hmin hlt _ ih =>
    obtain ⟨hmax, hbytes⟩ := bytes16_pointer hmask (byteAt m (o + 1))
    rw [← htarget] at hmax hbytes
    refine .pointer hmin hlt hmax ?_ (ih hshort he)
    rw [hbytes, drop_eq_byteAt (by omega), drop_eq_byteAt hlow]
    exact List.prefix_append [byteAt m o, byteAt m (o + 1)] _

/-! ### Queries -/

/-- The name of the first question runs to the end of the message or has a label of more than 63
bytes, through at most ten pointers. -/
structure Incomplete (m : List UInt8) (e : NameEnd) (k : ℕ) (labels : List Name) : Prop where
  name : NameAt m 12 e k labels
  jumps_le : k ≤ maxJumps
  labels_ne : labels ≠ []
  bad : e = .cut ∨ ∃ l ∈ labels, 63 < l.length

variable {m : List UInt8}

theorem Incomplete.not_encodesAt {e : NameEnd} {k k' : ℕ} {labels labels' : List Name}
    (h : Incomplete m e k labels) : ¬ EncodesAt m 12 k' labels' := by
  intro hencodes
  obtain ⟨hname, hshort⟩ := hencodes.nameAt
  obtain ⟨rfl, rfl⟩ := h.name.unique hname
  rcases h.bad with hcut | ⟨l, hl, hlong⟩
  · cases hcut
  · exact absurd (hshort l hl) (Nat.not_le.mpr hlong)

/-- A name that is returned stands in the payload as a complete encoding, if and only if the name
of the question does not run to the end of the payload and has no label of more than 63 bytes. -/
theorem extractQuery_complete_iff (m : List UInt8) :
    (∀ r, (extractQuery m).value = some (some r) →
        ∃ k labels, EncodesAt m 12 k labels ∧ r.queryDomain = [0x2E].intercalate labels) ↔
      (IsQuery m → ∀ e k labels, ¬ Incomplete m e k labels) := by
  constructor
  · intro hcomplete hquery e k labels hbad
    have hresult := extractQuery_some_iff.mpr
      ⟨hquery, e, k, labels, hbad.name, hbad.jumps_le, hbad.labels_ne, rfl⟩
    obtain ⟨k', labels', hencodes, -⟩ := hcomplete _ hresult
    exact hbad.not_encodesAt hencodes
  · intro hgood r hr
    obtain ⟨hquery, e, k, labels, hname, hk, hne, rfl⟩ := extractQuery_some_iff.mp hr
    have hbad : ¬ (e = .cut ∨ ∃ l ∈ labels, 63 < l.length) := fun h =>
      hgood hquery e k labels ⟨hname, hk, hne, h⟩
    obtain ⟨hcut, hshort⟩ := not_or.mp hbad
    cases e with
    | cut => exact absurd rfl hcut
    | root =>
      refine ⟨k, labels, hname.encodesAt fun l hl => ?_, rfl⟩
      exact Nat.not_lt.mp fun hlong => hshort ⟨l, hl, hlong⟩

/-- A query that is cut behind a label is read as if the name ended there. -/
theorem not_extractQuery_complete :
    ¬ ∀ m r, (extractQuery m).value = some (some r) →
      ∃ k labels, EncodesAt m 12 k labels ∧ r.queryDomain = [0x2E].intercalate labels := by
  intro h
  let m : List UInt8 := [0x12, 0x34, 1, 0, 0, 1, 0, 0, 0, 0, 0, 0, 1, 0x61]
  have hcut : NameAt m 12 .cut 0 [[0x61]] :=
    .label (by decide) (by decide) (by decide) (by decide) (.cut (by decide))
  have hquery : IsQuery m := ⟨by decide, by decide, by decide⟩
  obtain ⟨k, labels, hencodes, -⟩ := h m _ (extractQuery_some_iff.mpr
    ⟨hquery, .cut, 0, [[0x61]], hcut, by decide, by decide, rfl⟩)
  have hbad : Incomplete m .cut 0 [[0x61]] := ⟨hcut, by decide, by decide, .inl rfl⟩
  exact hbad.not_encodesAt hencodes

end DpiEngine.DNSExtractor
