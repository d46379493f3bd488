import Mathlib.Data.Set.Lattice
import Mathlib.Tactic.Ring

/-! # Machine arithmetic

Size counters wrap modulo `2 ^ 64`. Points on the 32-bit number circle are
compared by their signed distance, which is exact between points that lie less
than half the circle after a common base.
-/

namespace Machine

/-- Addition of two size counters. -/
def sizeAdd (a b : ℕ) : ℕ := (a + b) % 2 ^ 64

def sizeSub (a b : ℕ) : ℕ := if b ≤ a then a - b else a + 2 ^ 64 - b

def sizeOfInt32 (d : Int32) : ℕ := (d.toInt % 2 ^ 64).toNat

/-- Signed distance from `t` to `s` on the 32-bit circle. -/
def serialDiff (s t : UInt32) : Int32 := (s - t).toInt32

theorem sizeAdd_eq {a b : ℕ} (h : a + b < 2 ^ 64) : sizeAdd a b = a + b :=
  Nat.mod_eq_of_lt h

theorem sizeSub_eq {a b : ℕ} (h : b ≤ a) : sizeSub a b = a - b := if_pos h

theorem sizeOfInt32_of_nonneg {d : Int32} (h : 0 ≤ d.toInt) : sizeOfInt32 d = d.toInt.toNat := by
  have := d.toInt_lt
  unfold sizeOfInt32
  rw [Int.emod_eq_of_lt h (by omega)]

theorem toInt_neg_of_nonpos {d : Int32} (h : d.toInt ≤ 0) (hd : d.toInt ≠ -2 ^ 31) :
    (-d).toInt = -d.toInt := by
  have := d.le_toInt
  rw [Int32.toInt_neg]
  exact Int.bmod_eq_of_le (by omega) (by omega)

theorem toInt_toInt32_ofNat {n : ℕ} (h : n < 2 ^ 31) :
    (UInt32.ofNat n).toInt32.toInt = n := by
  rw [UInt32.toInt32_ofNat', Int32.toInt_ofNat_of_lt h]

theorem serialDiff_add (b : UInt32) {m n : ℕ} (hm : m < 2 ^ 31) (hn : n < 2 ^ 31) :
    (serialDiff (b + .ofNat m) (b + .ofNat n)).toInt = (m : ℤ) - n := by
  have h : b + .ofNat m - (b + .ofNat n) = UInt32.ofNat m - UInt32.ofNat n := by grind
  rw [serialDiff, h, UInt32.toInt32_sub, Int32.toInt_sub, toInt_toInt32_ofNat hm,
    toInt_toInt32_ofNat hn]
  exact Int.bmod_eq_of_le (by omega) (by omega)

theorem sizeOfInt32_neg_serialDiff (b : UInt32) {m n : ℕ} (hmn : m ≤ n) (hn : n < 2 ^ 31) :
    sizeOfInt32 (-serialDiff (b + .ofNat m) (b + .ofNat n)) = n - m := by
  have hd := serialDiff_add b (show m < 2 ^ 31 by omega) hn
  have hneg := toInt_neg_of_nonpos (d := serialDiff (b + .ofNat m) (b + .ofNat n))
    (by omega) (by omega)
  rw [sizeOfInt32_of_nonneg (by omega)]
  omega

theorem toNat_eq_toInt_toInt32 {x : UInt32} (h : 0 ≤ x.toInt32.toInt) :
    (x.toNat : ℤ) = x.toInt32.toInt := by
  have hx := x.toNat_lt
  rw [Int32.toInt, UInt32.toBitVec_toInt32, BitVec.toInt_eq_toNat_bmod, UInt32.toNat_toBitVec,
    Int.bmod] at *
  split_ifs at * <;> omega

theorem sizeOfInt32_neg {d : Int32} (h : d.toInt ≤ 0) (hd : d.toInt ≠ -2 ^ 31) :
    (sizeOfInt32 (-d) : ℤ) = -d.toInt := by
  have hneg := toInt_neg_of_nonpos h hd
  rw [sizeOfInt32_of_nonneg (by omega), hneg]
  exact Int.toNat_of_nonneg (by omega)

theorem add_sizeOfInt32_neg_serialDiff {s t : UInt32} (h : (serialDiff s t).toInt ≤ 0)
    (hlt : sizeOfInt32 (-serialDiff s t) < 2 ^ 31) :
    s + .ofNat (sizeOfInt32 (-serialDiff s t)) = t := by
  have hne : (serialDiff s t).toInt ≠ -2 ^ 31 := by
    intro he
    have : -serialDiff s t = serialDiff s t := by
      rw [← Int32.toInt_inj, Int32.toInt_neg, he]; decide
    rw [this, sizeOfInt32, he] at hlt
    exact absurd hlt (by decide)
  have hneg := toInt_neg_of_nonpos h hne
  have hsub : -serialDiff s t = (t - s).toInt32 := by
    rw [serialDiff, UInt32.toInt32_sub, UInt32.toInt32_sub]; grind
  rw [hsub] at hneg ⊢
  have hnat := toNat_eq_toInt_toInt32 (x := t - s) (by omega)
  rw [sizeOfInt32_of_nonneg (by omega), ← hnat, Int.toNat_natCast, UInt32.ofNat_toNat]
  grind

theorem sizeOfInt32_neg_of_eq_zero {d : Int32} (h : d.toInt = 0) : sizeOfInt32 (-d) = 0 := by
  have hd : d = 0 := Int32.toInt_inj.mp (h.trans (by decide))
  rw [hd]; decide

theorem eq_of_serialDiff_eq_zero {s t : UInt32} (h : (serialDiff s t).toInt = 0) : s = t := by
  have hz := sizeOfInt32_neg_of_eq_zero h
  have he := add_sizeOfInt32_neg_serialDiff h.le (by omega)
  rw [hz] at he
  exact (UInt32.add_zero s).symm.trans he

theorem serialDiff_add_right (s t k : UInt32) : serialDiff (s + k) (t + k) = serialDiff s t := by
  have h : s + k - (t + k) = s - t := by grind
  rw [serialDiff, h, serialDiff]

theorem add_ofNat_add (b : UInt32) (m n : ℕ) : b + .ofNat m + .ofNat n = b + .ofNat (m + n) := by
  rw [UInt32.add_assoc, UInt32.ofNat_add]

theorem add_ofNat_inj (b : UInt32) {m n : ℕ} (hm : m < 2 ^ 31) (hn : n < 2 ^ 31) :
    b + .ofNat m = b + .ofNat n ↔ m = n := by
  constructor
  · intro h
    have hd := serialDiff_add b hm hn
    rw [h, serialDiff_add b hn hn] at hd
    omega
  · rintro rfl; rfl

def offset (e s : UInt32) : ℕ := (s - e).toNat

theorem offset_lt (e s : UInt32) : offset e s < 2 ^ 32 := UInt32.toNat_lt _

theorem add_offset (e s : UInt32) : e + .ofNat (offset e s) = s := by
  rw [offset, UInt32.ofNat_toNat]
  grind

theorem offset_add (e : UInt32) {n : ℕ} (hn : n < 2 ^ 32) : offset e (e + .ofNat n) = n := by
  have h : e + .ofNat n - e = .ofNat n := by grind
  rw [offset, h, UInt32.toNat_ofNat_of_lt' hn]

@[simp] theorem offset_self (e : UInt32) : offset e e = 0 := by
  rw [offset, UInt32.sub_self]
  rfl

theorem offset_symm {e s : UInt32} (h : 0 < offset e s) : offset s e = 2 ^ 32 - offset e s := by
  have hlt := offset_lt e s
  have hsum : (UInt32.ofNat (offset e s) + .ofNat (2 ^ 32 - offset e s)) = 0 := by
    rw [← UInt32.ofNat_add, Nat.add_sub_cancel' hlt.le]
    rfl
  have he : s + .ofNat (2 ^ 32 - offset e s) = e := by
    calc s + .ofNat (2 ^ 32 - offset e s)
        = e + .ofNat (offset e s) + .ofNat (2 ^ 32 - offset e s) := by rw [add_offset]
      _ = e := by rw [UInt32.add_assoc, hsum, UInt32.add_zero]
  have h := offset_add s (n := 2 ^ 32 - offset e s) (by omega)
  rwa [he] at h

theorem offset_add_left {e s : UInt32} {n : ℕ} (h : n ≤ offset e s) :
    offset (e + .ofNat n) s = offset e s - n := by
  have hlt := offset_lt e s
  have hs : s = e + .ofNat n + .ofNat (offset e s - n) := by
    rw [add_ofNat_add, Nat.add_sub_cancel' h, add_offset]
  nth_rewrite 1 [hs]
  exact offset_add _ (by omega)

/-- Points less than half the circle after `e` are compared by their distances from `e`. -/
theorem serialDiff_eq_offset {e s t : UInt32} (hs : offset e s < 2 ^ 31)
    (ht : offset e t < 2 ^ 31) : (serialDiff s t).toInt = (offset e s : ℤ) - offset e t := by
  have h := serialDiff_add e hs ht
  rwa [add_offset, add_offset] at h

theorem serialDiff_opposite {s e : UInt32} (h : offset s e = 2 ^ 31) :
    (serialDiff s e).toInt = -2 ^ 31 ∧ sizeOfInt32 (-serialDiff s e) = 2 ^ 64 - 2 ^ 31 := by
  have hsub : s - (s + .ofNat (2 ^ 31)) = -.ofNat (2 ^ 31) := by grind
  have hd : serialDiff s e = (-UInt32.ofNat (2 ^ 31)).toInt32 := by
    rw [serialDiff, ← add_offset s e, h, hsub]
  rw [hd]
  decide

theorem serialDiff_eq_min_iff {s e : UInt32} :
    (serialDiff s e).toInt = -2 ^ 31 ↔ s = e + .ofNat (2 ^ 31) := by
  constructor
  · intro h
    have hmin : (UInt32.ofNat (2 ^ 31)).toInt32.toInt = -2 ^ 31 := by decide
    have hsub : s - e = .ofNat (2 ^ 31) := by
      have hsame := Int32.toInt_inj.mp (h.trans hmin.symm)
      rw [← UInt32.toUInt32_toInt32 (s - e), ← serialDiff, hsame, UInt32.toUInt32_toInt32]
    rw [← hsub]
    grind
  · rintro rfl
    have hsub : e + .ofNat (2 ^ 31) - e = .ofNat (2 ^ 31) := by grind
    rw [serialDiff, hsub]
    decide

/-- From a later base the distance is shorter by what lies between, down to the opposite point. -/
theorem serialDiff_advance {s e : UInt32} {k : ℕ} (hk : k < 2 ^ 31)
    (h : -2 ^ 31 ≤ (serialDiff s e).toInt - k) :
    (serialDiff s (e + .ofNat k)).toInt = (serialDiff s e).toInt - k := by
  have hlt := (serialDiff s e).toInt_lt
  have hsub : s - (e + .ofNat k) = s - e - .ofNat k := by grind
  rw [serialDiff, hsub, UInt32.toInt32_sub, Int32.toInt_sub, toInt_toInt32_ofNat hk]
  exact Int.bmod_eq_of_le (by rw [serialDiff] at h; omega) (by rw [serialDiff] at hlt; omega)

theorem serialDiff_pos_iff {s e : UInt32} :
    0 < (serialDiff s e).toInt ↔ 0 < offset e s ∧ offset e s < 2 ^ 31 := by
  have hsigned : (serialDiff s e).toInt = ((s - e).toNat : ℤ).bmod (2 ^ 32) := by
    rw [serialDiff, Int32.toInt, UInt32.toBitVec_toInt32, BitVec.toInt_eq_toNat_bmod,
      UInt32.toNat_toBitVec]
  have hlt := offset_lt e s
  rw [hsigned, offset, Int.bmod] at *
  split_ifs <;> omega

end Machine
