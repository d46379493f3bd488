import DpiEngine.Library.Lines
import DpiEngine.Rules.Address
import Mathlib.Data.Nat.Digits.Defs
import Mathlib.Tactic.IntervalCases

/-! # Which texts are read as addresses

The parser looks at the digits of a text and at its dots, and skips what else it
finds. Texts that are no addresses are read as some number then, not as zero.
-/

namespace DpiEngine

namespace AddressText

def groups (ip : String) : List (List Char) := ip.toList.splitOn '.'

def number (g : List Char) : ℕ := Nat.ofDigitChars 10 (g.filter Char.isDigit) 0

structure IsOctet (g : List Char) : Prop where
  ne : g ≠ []
  digits : ∀ c ∈ g, c.isDigit = true
  le : number g ≤ 255

def IsAddress (ip : String) : Prop := (groups ip).length = 4 ∧ ∀ g ∈ groups ip, IsOctet g

def value (ip : String) : UInt32 := .ofNat (Nat.ofDigits 256 ((groups ip).map number))

theorem isOctet_iff {g : List Char} :
    IsOctet g ↔ g.isEmpty = false ∧ g.all Char.isDigit = true ∧ number g ≤ 255 := by
  rw [List.isEmpty_eq_false_iff, List.all_eq_true]
  exact ⟨fun h => ⟨h.ne, h.digits, h.le⟩, fun h => ⟨h.1, h.2.1, h.2.2⟩⟩

instance (g : List Char) : Decidable (IsOctet g) := decidable_of_iff' _ isOctet_iff

instance (ip : String) : Decidable (IsAddress ip) := inferInstanceAs (Decidable (_ ∧ _))

/-! ### Reading the parts -/

def part (p : List Char × ℕ) : UInt32 := .ofNat (number p.1) <<< .ofNat (8 * p.2)

/-- The number of a part is an `int`, and its shift is less than the width of the address. -/
def Fits (p : List Char × ℕ) : Prop := number p.1 < 2 ^ 31 ∧ p.2 < 4

instance (p : List Char × ℕ) : Decidable (Fits p) := inferInstanceAs (Decidable (_ ∧ _))

theorem foldlM_part {g : List Char} (hg : '.' ∉ g) (r : UInt32) (k : ℕ) :
    g.foldlM AddressScan.next ⟨r, 0, k⟩ =
      if number g < 2 ^ 31 then some ⟨r, number g, k⟩ else none :=
  AddressScan.foldlM_octet_from hg r (by decide) k

/-- The text of the parts from the `i`th on, each behind a dot. -/
theorem foldlM_parts {gs : List (List Char)} (hgs : ∀ g ∈ gs, '.' ∉ g) (r : UInt32) (i : ℕ) :
    (Lines.unlines '.' gs).foldlM AddressScan.next ⟨r, 0, 8 * i⟩ =
      if ∀ p ∈ gs.zipIdx i, Fits p then
        some ⟨(gs.zipIdx i).foldl (fun r p => r ||| part p) r, 0, 8 * (i + gs.length)⟩
      else none := by
  induction gs generalizing r i with
  | nil => simp [Lines.unlines]
  | cons g gs ih =>
    rw [List.forall_mem_cons] at hgs
    have hcons : Lines.unlines '.' (g :: gs) = g ++ '.' :: Lines.unlines '.' gs := by
      simp [Lines.unlines]
    rw [hcons, List.foldlM_append, foldlM_part hgs.1, List.zipIdx_cons]
    simp only [List.forall_mem_cons, List.foldl_cons]
    by_cases hnumber : number g < 2 ^ 31
    · rw [if_pos hnumber, Option.bind_eq_bind, Option.bind_some, List.foldlM_cons,
        AddressScan.next, if_pos rfl, AddressScan.addOctet]
      by_cases hi : i < 4
      · have hfits : Fits (g, i) := ⟨hnumber, hi⟩
        have hlen : i + (g :: gs).length = i + 1 + gs.length := by
          rw [List.length_cons]
          omega
        rw [if_pos (show 8 * i < 32 by omega)]
        simp only [hfits, true_and, hlen]
        exact ih hgs.2 _ (i + 1)
      · have hfits : ¬ Fits (g, i) := fun h => hi h.2
        rw [if_neg (show ¬ 8 * i < 32 by omega)]
        simp [hfits]
    · have hfits : ¬ Fits (g, i) := fun h => hnumber h.1
      rw [if_neg hnumber]
      simp [hfits]

/-- The parser joins the parts of the text. -/
theorem parseIPv4Address_eq (ip : String) : parseIPv4Address ip =
    if ∀ p ∈ (groups ip).zipIdx, Fits p then
      some ((groups ip).zipIdx.foldl (fun r p => r ||| part p) 0)
    else none := by
  have hdot (s : AddressScan) : s.addOctet =
      (['.'].foldlM AddressScan.next s).map AddressScan.result := by
    rw [List.foldlM_cons, AddressScan.next, if_pos rfl]
    cases s.addOctet <;> rfl
  have hparse : parseIPv4Address ip =
      ((Lines.unlines '.' (groups ip)).foldlM AddressScan.next {}).map AddressScan.result := by
    rw [groups, Lines.unlines_splitOn, List.foldlM_append, parseIPv4Address]
    cases ip.toList.foldlM AddressScan.next {} with
    | none => rfl
    | some s => exact hdot s
  have hgs : ∀ g ∈ groups ip, '.' ∉ g := fun g hg => Lines.not_mem_of_mem_splitOn hg
  rw [hparse, foldlM_parts hgs 0 0]
  split_ifs <;> rfl

/-! ### Zero and addresses -/

theorem foldl_or_eq_zero_iff {l : List (List Char × ℕ)} {r : UInt32} :
    l.foldl (fun r p => r ||| part p) r = 0 ↔ r = 0 ∧ ∀ p ∈ l, part p = 0 := by
  induction l generalizing r with
  | nil => simp
  | cons p l ih =>
    rw [List.foldl_cons, ih, UInt32.or_eq_zero_iff, List.forall_mem_cons, and_assoc]

theorem part_eq_zero_iff {p : List Char × ℕ} (h : Fits p) :
    part p = 0 ↔ 2 ^ (32 - 8 * p.2) ∣ number p.1 := by
  obtain ⟨g, i⟩ := p
  obtain ⟨hnumber, hi⟩ := h
  simp only at hnumber hi
  have hn : number g < 4294967296 := by omega
  rw [part, ← UInt32.toNat_inj]
  simp only [UInt32.toNat_shiftLeft, UInt32.toNat_ofNat', UInt32.toNat_zero, Nat.shiftLeft_eq]
  interval_cases i <;> simp <;> omega

theorem part_of_isOctet {g : List Char} (h : IsOctet g) (i : ℕ) :
    part (g, i) = (UInt8.ofNat (number g)).toUInt32 <<< .ofNat (8 * i) := by
  have hle := h.le
  have hbyte : UInt32.ofNat (number g) = (UInt8.ofNat (number g)).toUInt32 := by
    apply UInt32.toNat_inj.mp
    rw [UInt32.toNat_ofNat', UInt8.toNat_toUInt32, UInt8.toNat_ofNat']
    omega
  rw [part, hbyte]

theorem foldl_parts_eq_value {ip : String} (h : IsAddress ip) :
    (∀ p ∈ (groups ip).zipIdx, Fits p) ∧
      (groups ip).zipIdx.foldl (fun r p => r ||| part p) 0 = value ip := by
  obtain ⟨hlen, hoctets⟩ := h
  unfold value
  generalize groups ip = gs at *
  obtain ⟨a, b, c, d, rfl⟩ := List.length_eq_four.mp hlen
  simp only [List.forall_mem_cons] at hoctets
  obtain ⟨ha, hb, hc, hd, -⟩ := hoctets
  have hle (g : List Char) (hg : IsOctet g) (i : ℕ) (hi : i < 4) : Fits (g, i) :=
    ⟨hg.le.trans_lt (by decide), hi⟩
  constructor
  · simp only [List.zipIdx_cons, List.zipIdx_nil, List.forall_mem_cons]
    exact ⟨hle a ha _ (by decide), hle b hb _ (by decide), hle c hc _ (by decide),
      hle d hd _ (by decide), fun _ h => absurd h List.not_mem_nil⟩
  · have hor : (0 : UInt32) ||| part (a, 0) ||| part (b, 1) ||| part (c, 2) ||| part (d, 3) =
        Traced.be32 (.ofNat (number d)) (.ofNat (number c)) (.ofNat (number b))
          (.ofNat (number a)) := by
      rw [part_of_isOctet ha, part_of_isOctet hb, part_of_isOctet hc, part_of_isOctet hd,
        Traced.be32, UInt32.zero_or]
      have hreverse (w x y z : UInt32) : w ||| x ||| y ||| z = z ||| y ||| x ||| w := by ac_rfl
      have hzero : UInt32.ofNat (8 * 0) = 0 := rfl
      rw [hreverse, hzero, UInt32.shiftLeft_zero]
      rfl
    have hvalue : (Nat.ofDigits 256 [number a, number b, number c, number d]) =
        number a + 256 * (number b + 256 * (number c + 256 * number d)) := by
      simp [Nat.ofDigits_cons]
    have hbytes := And.intro (And.intro ha.le hb.le) (And.intro hc.le hd.le)
    apply UInt32.toNat_inj.mp
    simp only [List.zipIdx_cons, List.zipIdx_nil, List.foldl_cons, List.foldl_nil, Nat.zero_add,
      Nat.reduceAdd, hor, Traced.toNat_be32, List.map_cons, List.map_nil, hvalue,
      UInt32.toNat_ofNat', UInt8.toNat_ofNat']
    omega

/-- The parser returns the address of a text that is one and zero for the others, if and only if
the text is an address, or its digits make at most four numbers that fit an `int` and lose all
their bits in the shifts. -/
theorem parseIPv4Address_exact_iff (ip : String) :
    parseIPv4Address ip = some (if IsAddress ip then value ip else 0) ↔
      IsAddress ip ∨ ∀ p ∈ (groups ip).zipIdx,
        number p.1 < 2 ^ 31 ∧ p.2 < 4 ∧ 2 ^ (32 - 8 * p.2) ∣ number p.1 := by
  rw [parseIPv4Address_eq]
  by_cases h : IsAddress ip
  · obtain ⟨hfits, hvalue⟩ := foldl_parts_eq_value h
    rw [if_pos hfits, hvalue, if_pos h]
    exact iff_of_true rfl (.inl h)
  rw [if_neg h, or_iff_right h]
  constructor
  · intro hparse
    split_ifs at hparse with hfits
    obtain ⟨-, hparts⟩ := foldl_or_eq_zero_iff.mp (Option.some_inj.mp hparse)
    intro p hp
    exact ⟨(hfits p hp).1, (hfits p hp).2, (part_eq_zero_iff (hfits p hp)).mp (hparts p hp)⟩
  · intro hparts
    have hfits : ∀ p ∈ (groups ip).zipIdx, Fits p := fun p hp =>
      ⟨(hparts p hp).1, (hparts p hp).2.1⟩
    rw [if_pos hfits, foldl_or_eq_zero_iff.mpr ⟨rfl, fun p hp => ?_⟩]
    exact (part_eq_zero_iff (hfits p hp)).mpr (hparts p hp).2.2

/-- A length of a net is read as digits of the last octet. -/
theorem not_parseIPv4Address_exact :
    ¬ ∀ ip, parseIPv4Address ip = some (if IsAddress ip then value ip else 0) := by
  intro h
  have hgroups : groups "10.0.0.1/24" = [['1', '0'], ['0'], ['0'], ['1', '/', '2', '4']] := by rfl
  have hno : ¬ IsAddress "10.0.0.1/24" := by
    rintro ⟨-, hoctets⟩
    have hoctet := hoctets ['1', '/', '2', '4'] (by simp [hgroups])
    exact absurd (hoctet.digits '/' (by simp)) (by decide)
  have hparse := h "10.0.0.1/24"
  rw [if_neg hno, parseIPv4Address_eq] at hparse
  split_ifs at hparse with hfits
  obtain ⟨-, hparts⟩ := foldl_or_eq_zero_iff.mp (Option.some_inj.mp hparse)
  have hmem : (['1', '0'], 0) ∈ (groups "10.0.0.1/24").zipIdx := by simp [hgroups]
  have hdvd := (part_eq_zero_iff (hfits _ hmem)).mp (hparts _ hmem)
  exact absurd hdvd (by decide)

end AddressText

end DpiEngine
