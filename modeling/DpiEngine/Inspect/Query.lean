import DpiEngine.Inspect.Rounds
import DpiEngine.Library.Bytes
import DpiEngine.Library.Labels

/-! # DNS queries are read back

The name of a question is a run of labels that ends in a zero byte or goes on at
the target of a pointer. The extractor joins the labels of every such encoding
that goes through at most ten pointers.
-/

namespace DpiEngine.DNSExtractor

open Traced

/-- At offset `o` of the message `m` stands an encoding of the labels that goes through `k`
pointers. Pointers lead behind the header and into the message. -/
inductive EncodesAt (m : List UInt8) : ℕ → ℕ → List Name → Prop
  | root {o : ℕ} : [0] <+: m.drop o → EncodesAt m o 0 []
  | label {o k : ℕ} {l : Name} {labels : List Name} : 1 ≤ l.length → l.length ≤ 63 →
      [.ofNat l.length] ++ l <+: m.drop o → EncodesAt m (o + 1 + l.length) k labels →
      EncodesAt m o k (l :: labels)
  | pointer {o k target : ℕ} {labels : List Name} : 12 ≤ target → target < m.length →
      target < 2 ^ 14 → bytes16 (0xC000 + target) <+: m.drop o → EncodesAt m target k labels →
      EncodesAt m o (k + 1) labels

theorem appendLabels_append {domain : Name} (h : domain ≠ []) (labels : List Name) :
    appendLabels domain labels = [0x2E].intercalate (domain :: labels) := by
  induction labels generalizing domain with
  | nil => simp [appendLabels]
  | cons l labels ih =>
    have hstep : appendLabels domain (l :: labels) = appendLabels (domain ++ 0x2E :: l) labels := by
      simp [appendLabels, h]
    rw [hstep, ih (by simp)]
    cases labels with
    | nil => simp
    | cons l' labels => simp

theorem appendLabels_nil {labels : List Name} (h : ∀ l ∈ labels, l ≠ []) :
    appendLabels [] labels = [0x2E].intercalate labels := by
  cases labels with
  | nil => rfl
  | cons l labels => exact appendLabels_append (h l List.mem_cons_self) labels

section Bytes

variable {m front : List UInt8} {o i : ℕ}

theorem byteAt_of_isPrefix (h : front <+: m.drop o) (hi : i < front.length) :
    byteAt m (o + i) = byteAt front i := by
  have hget : m[o + i]? = front[i]? := by
    rw [← List.getElem?_drop, List.prefix_iff_getElem?.mp h i hi, List.getElem?_eq_getElem hi]
  simp only [byteAt, List.getD_eq_getElem?_getD, hget]

theorem length_of_isPrefix (h : front <+: m.drop o) (hne : front ≠ []) :
    o + front.length ≤ m.length := by
  have hlen := h.length_le
  have hpos := List.length_pos_iff.mpr hne
  rw [List.length_drop] at hlen
  omega

end Bytes

theorem label_byte {n : ℕ} (hn : 1 ≤ n) (hmax : n ≤ 63) :
    UInt8.ofNat n ≠ 0 ∧ UInt8.ofNat n &&& 0xC0 ≠ 0xC0 ∧ (UInt8.ofNat n).toNat = n := by
  have hall : ∀ n : Fin 64, 1 ≤ n.val → UInt8.ofNat n.val ≠ 0 ∧
      UInt8.ofNat n.val &&& 0xC0 ≠ 0xC0 ∧ (UInt8.ofNat n.val).toNat = n.val := by decide
  exact hall ⟨n, by omega⟩ hn

theorem pointer_bytes {target : ℕ} (h : target < 2 ^ 14) :
    UInt8.ofNat ((0xC000 + target) / 256) ≠ 0 ∧
      UInt8.ofNat ((0xC000 + target) / 256) &&& 0xC0 = 0xC0 ∧
      be16 (UInt8.ofNat ((0xC000 + target) / 256) &&& 0x3F) (.ofNat (0xC000 + target)) =
        target := by
  have hall : ∀ n : Fin 64, UInt8.ofNat (0xC0 + n.val) ≠ 0 ∧
      UInt8.ofNat (0xC0 + n.val) &&& 0xC0 = 0xC0 ∧
      UInt8.ofNat (0xC0 + n.val) &&& 0x3F = .ofNat n.val := by decide
  obtain ⟨hne, hmask, hrest⟩ := hall ⟨target / 256, by omega⟩
  have hhigh : (0xC000 + target) / 256 = 0xC0 + target / 256 := by omega
  have hlow : UInt8.ofNat (0xC000 + target) = .ofNat target := by
    apply UInt8.toNat_inj.mp
    rw [UInt8.toNat_ofNat', UInt8.toNat_ofNat']
    omega
  rw [hhigh, hlow]
  exact ⟨hne, hmask, by rw [hrest, be16_bytes (by omega)]⟩

section Encodings

variable {m : List UInt8} {o : ℕ}

theorem root_of_isPrefix (h : [0] <+: m.drop o) : o < m.length ∧ byteAt m o = 0 :=
  ⟨length_of_isPrefix h (by simp), byteAt_of_isPrefix (i := 0) h (by simp)⟩

theorem label_of_isPrefix {l : Name} (hpos : 1 ≤ l.length) (hmax : l.length ≤ 63)
    (h : [.ofNat l.length] ++ l <+: m.drop o) :
    byteAt m o ≠ 0 ∧ byteAt m o &&& 0xC0 ≠ 0xC0 ∧ (byteAt m o).toNat = l.length ∧
      o + 1 + (byteAt m o).toNat ≤ m.length ∧
      l = (m.drop (o + 1)).take (byteAt m o).toNat := by
  have hlen := length_of_isPrefix h (by simp)
  rw [List.length_append, List.length_singleton] at hlen
  have hbyte : byteAt m o = .ofNat l.length := byteAt_of_isPrefix (i := 0) h (by simp)
  obtain ⟨hne, hmask, hvalue⟩ := label_byte hpos hmax
  have hslice : (m.drop (o + 1)).take l.length = l := by
    obtain ⟨t, ht⟩ := h
    rw [← List.drop_drop, ← ht]
    simp
  rw [← hbyte] at hne hmask hvalue
  exact ⟨hne, hmask, hvalue, by omega, by rw [hvalue, hslice]⟩

theorem pointer_of_isPrefix {target : ℕ} (hmax : target < 2 ^ 14)
    (h : bytes16 (0xC000 + target) <+: m.drop o) :
    o + 1 < m.length ∧ byteAt m o &&& 0xC0 = 0xC0 ∧
      target = be16 (byteAt m o &&& 0x3F) (byteAt m (o + 1)) := by
  have hlen : o + 2 ≤ m.length := length_of_isPrefix h (by simp [bytes16])
  have hhigh : byteAt m o = .ofNat ((0xC000 + target) / 256) :=
    byteAt_of_isPrefix (i := 0) h (by simp [bytes16])
  have hlow : byteAt m (o + 1) = .ofNat (0xC000 + target) :=
    byteAt_of_isPrefix (i := 1) h (by simp [bytes16])
  obtain ⟨-, hmask, htarget⟩ := pointer_bytes hmax
  rw [← hhigh] at hmask htarget
  rw [← hlow] at htarget
  exact ⟨by omega, hmask, htarget.symm⟩

end Encodings

theorem EncodesAt.nameAt {m : List UInt8} {o k : ℕ} {labels : List Name}
    (h : EncodesAt m o k labels) : NameAt m o .root k labels ∧ ∀ l ∈ labels, l.length ≤ 63 := by
  induction h with
  | root hroot =>
    obtain ⟨hlt, hzero⟩ := root_of_isPrefix hroot
    exact ⟨.root hlt hzero, fun _ hl => absurd hl List.not_mem_nil⟩
  | label hpos hmax hlabel _ ih =>
    obtain ⟨hne, hmask, hvalue, hfits, hslice⟩ := label_of_isPrefix hpos hmax hlabel
    rw [← hvalue] at ih
    exact ⟨.label hne hmask hfits hslice ih.1, List.forall_mem_cons.mpr ⟨hmax, ih.2⟩⟩
  | pointer hmin hlt hmax hpointer _ ih =>
    obtain ⟨hlow, hmask, htarget⟩ := pointer_of_isPrefix hmax hpointer
    exact ⟨.pointer hlow hmask htarget hmin hlt ih.1, ih.2⟩

/-! ### Reading a query -/

/-- The payload has the header of a query with a question. -/
structure IsQuery (m : List UInt8) : Prop where
  length_ge : 12 ≤ m.length
  query : byteAt m 2 &&& 0x80 = 0
  count_pos : 0 < wordAt m 4

variable {m : List UInt8}

theorem NameAt.forall_ne_nil {o k : ℕ} {e : NameEnd} {labels : List Name}
    (h : NameAt m o e k labels) : ∀ l ∈ labels, l ≠ [] := by
  induction h with
  | root | cut => exact fun _ hl => absurd hl List.not_mem_nil
  | @label o _ _ l _ hne _ hfits hl _ ih =>
    refine List.forall_mem_cons.mpr ⟨?_, ih⟩
    rintro rfl
    have hlen := congrArg List.length hl
    rw [List.length_nil, List.length_take, List.length_drop] at hlen
    have hpos : (byteAt m o).toNat ≠ 0 := fun h => hne (UInt8.toNat_inj.mp h)
    omega
  | pointer _ _ _ _ _ _ ih => exact ih

theorem readDomainName_nameAt {o k : ℕ} {e : NameEnd} {labels : List Name}
    (h : NameAt m o e k labels) (hk : k ≤ maxJumps) (hne : labels ≠ []) :
    ∃ next, (readDomainName m o).value = some (some ([0x2E].intercalate labels, next)) := by
  have hfuel : k * (m.length + 1) + (m.length - o) < nameFuel m := by
    have hmul : k * (m.length + 1) ≤ maxJumps * (m.length + 1) := Nat.mul_le_mul_right _ hk
    have hsucc : (maxJumps + 1) * (m.length + 1) = maxJumps * (m.length + 1) + (m.length + 1) :=
      Nat.succ_mul _ _
    rw [nameFuel]
    omega
  obtain ⟨c, hc, hdomain⟩ := nameLoop_nameAt h
    (c := { offset := o, originalOffset := o }) rfl (by simpa using hk) _ hfuel
  rw [appendLabels_nil h.forall_ne_nil] at hdomain
  have hdomain_ne : c.domain.isEmpty = false := by
    rw [hdomain, List.isEmpty_eq_false_iff]
    exact Labels.intercalate_ne_nil hne fun hnil => h.forall_ne_nil _ hnil rfl
  refine ⟨if c.jumped then c.originalOffset else c.offset, ?_⟩
  rw [readDomainName, value_bind, hc, Option.bind_some, ← hdomain]
  simp [hdomain_ne]

theorem nameLoop_of_readDomainName {o next : ℕ} {name : Name}
    (h : (readDomainName m o).value = some (some (name, next))) :
    ∃ c, (nameLoop m (nameFuel m) { offset := o, originalOffset := o }).value = some (some c) ∧
      c.domain ≠ [] ∧ name = c.domain ∧
      next = if c.jumped then c.originalOffset else c.offset := by
  rw [readDomainName] at h
  obtain ⟨c, hc, h⟩ := value_bind_some h
  cases c with
  | none => cases h
  | some c =>
    by_cases hempty : c.domain.isEmpty = true
    · simp [hempty] at h
    · simp only [hempty, Bool.false_eq_true, if_false] at h
      cases h
      exact ⟨c, hc, by simpa using hempty, rfl, rfl⟩

/-- What `readDomainName` returns is a name with labels. -/
theorem exists_nameAt_of_readDomainName {o next : ℕ} {name : Name}
    (h : (readDomainName m o).value = some (some (name, next))) :
    ∃ e k labels, NameAt m o e k labels ∧ k ≤ maxJumps ∧ labels ≠ [] ∧
      name = [0x2E].intercalate labels := by
  obtain ⟨c, hc, hne, rfl, -⟩ := nameLoop_of_readDomainName h
  obtain ⟨e, k, labels, hname, hk, hdomain⟩ := nameAt_of_nameLoop hc
  rw [appendLabels_nil hname.forall_ne_nil] at hdomain
  refine ⟨e, k, labels, hname, hk, ?_, hdomain⟩
  rintro rfl
  exact hne hdomain

theorem isDNSQuery_iff : (isDNSQuery m).value = some true ↔ IsQuery m := by
  rw [isDNSQuery]
  by_cases hlen : m.length < 12
  · rw [if_pos hlen]
    refine iff_of_false (by simp) fun h => ?_
    exact absurd hlen (Nat.not_lt.mpr h.length_ge)
  rw [if_neg hlen, value_read_bind_of_lt (by omega)]
  by_cases hquery : byteAt m 2 &&& 0x80 = 0
  · rw [if_neg (by simpa using hquery), value_read16_bind_of_lt (by omega)]
    constructor
    · intro h
      exact ⟨Nat.not_lt.mp hlen, hquery, by simpa using h⟩
    · intro h
      simpa using h.count_pos
  · rw [if_pos hquery]
    exact iff_of_false (by simp) fun h => hquery h.query

def resultOf (m : List UInt8) (labels : List Name) : DnsResult where
  transactionId := wordAt m 0
  flags := wordAt m 2
  questionCount := wordAt m 4
  answerCount := wordAt m 6
  queryDomain := [0x2E].intercalate labels

/-- The extractor returns the first question of a query, where a name with labels is read through
at most ten pointers. -/
theorem extractQuery_some_iff {r : DnsResult} : (extractQuery m).value = some (some r) ↔
    IsQuery m ∧ ∃ e k labels, NameAt m 12 e k labels ∧ k ≤ maxJumps ∧ labels ≠ [] ∧
      r = resultOf m labels := by
  rw [extractQuery]
  constructor
  · intro h
    obtain ⟨isQuery, hisQuery, h⟩ := value_bind_some h
    cases isQuery with
    | false => cases h
    | true =>
      have hquery := isDNSQuery_iff.mp hisQuery
      have hlen := hquery.length_ge
      rw [if_neg (by simp), value_read16_bind_of_lt (by omega),
        value_read16_bind_of_lt (by omega), value_read16_bind_of_lt (by omega),
        value_read16_bind_of_lt (by omega)] at h
      obtain ⟨name, hname, h⟩ := value_bind_some h
      cases name with
      | none => cases h
      | some name =>
        obtain ⟨e, k, labels, hat, hk, hne, heq⟩ := exists_nameAt_of_readDomainName hname
        cases h
        exact ⟨hquery, e, k, labels, hat, hk, hne, by rw [heq, resultOf]⟩
  · rintro ⟨hquery, e, k, labels, hname, hk, hne, rfl⟩
    have hlen := hquery.length_ge
    obtain ⟨next, hread⟩ := readDomainName_nameAt hname hk hne
    rw [value_bind, isDNSQuery_iff.mpr hquery, Option.bind_some, if_neg (by simp),
      value_read16_bind_of_lt (by omega), value_read16_bind_of_lt (by omega),
      value_read16_bind_of_lt (by omega), value_read16_bind_of_lt (by omega), value_bind, hread]
    rfl

/-- A query whose question is any encoding of a list of labels is read as these labels, joined by
dots, with the numbers of its header. -/
theorem extractQuery_encodesAt {m : List UInt8} {k : ℕ} {labels : List Name}
    (hlen : 12 ≤ m.length) (hquery : byteAt m 2 &&& 0x80 = 0) (hcount : 0 < wordAt m 4)
    (h : EncodesAt m 12 k labels) (hk : k ≤ maxJumps) (hne : labels ≠ []) :
    (extractQuery m).value = some (some {
      transactionId := wordAt m 0
      flags := wordAt m 2
      questionCount := wordAt m 4
      answerCount := wordAt m 6
      queryDomain := [0x2E].intercalate labels }) := by
  exact extractQuery_some_iff.mpr
    ⟨⟨hlen, hquery, hcount⟩, .root, k, labels, h.nameAt.1, hk, hne, rfl⟩

/-- A name that goes on behind a pointer. -/
theorem extractQuery_encodesAt_pointer :
    (extractQuery [0x12, 0x34, 1, 0, 0, 1, 0, 0, 0, 0, 0, 0, 1, 0x61, 0xC0, 0x10, 1, 0x62, 0]).value
      = some (some ⟨0x1234, 0x100, 1, 0, [0x61, 0x2E, 0x62]⟩) := by
  have hrest : EncodesAt
      [0x12, 0x34, 1, 0, 0, 1, 0, 0, 0, 0, 0, 0, 1, 0x61, 0xC0, 0x10, 1, 0x62, 0] 16 0 [[0x62]] :=
    .label (by decide) (by decide) (by decide) (.root (by decide))
  have h : EncodesAt
      [0x12, 0x34, 1, 0, 0, 1, 0, 0, 0, 0, 0, 0, 1, 0x61, 0xC0, 0x10, 1, 0x62, 0] 12 1
        [[0x61], [0x62]] :=
    .label (by decide) (by decide) (by decide)
      (.pointer (by decide) (by decide) (by decide) (by decide) hrest)
  exact extractQuery_encodesAt (by decide) (by decide) (by decide) h (by decide) (by decide)

end DpiEngine.DNSExtractor
