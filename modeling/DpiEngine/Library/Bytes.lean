import DpiEngine.Library.Traced

/-! # Bytes of numbers

Encodings of fixed-width numbers, and what the reads of a buffer return behind
a known prefix. A number is read back from its bytes.
-/

namespace Traced

def bytes16 (n : ℕ) : List UInt8 := [.ofNat (n / 256), .ofNat n]

def bytes24 (n : ℕ) : List UInt8 := [.ofNat (n / 65536), .ofNat (n / 256), .ofNat n]

def bytes32 (n : UInt32) : List UInt8 :=
  [(n >>> 24).toUInt8, (n >>> 16).toUInt8, (n >>> 8).toUInt8, n.toUInt8]

def bytes32LE (n : UInt32) : List UInt8 :=
  [n.toUInt8, (n >>> 8).toUInt8, (n >>> 16).toUInt8, (n >>> 24).toUInt8]

def bytes16LE (n : UInt16) : List UInt8 := [n.toUInt8, (n >>> 8).toUInt8]

theorem be16_bytes {n : ℕ} (h : n < 2 ^ 16) : be16 (.ofNat (n / 256)) (.ofNat n) = n := by
  rw [be16_eq, UInt8.toNat_ofNat', UInt8.toNat_ofNat']
  omega

@[simp] theorem be16_bytes_toNat (n : UInt16) :
    be16 (.ofNat (n.toNat / 256)) n.toUInt8 = n.toNat := be16_bytes n.toNat_lt

theorem shiftLeft_or {x y : ℕ} (k : ℕ) (h : y < 2 ^ k) : x <<< k ||| y = x * 2 ^ k + y := by
  rw [← Nat.shiftLeft_add_eq_or_of_lt h, Nat.shiftLeft_eq]

theorem be24_bytes {n : ℕ} (h : n < 2 ^ 24) :
    (UInt8.ofNat (n / 65536)).toNat <<< 16 ||| (UInt8.ofNat (n / 256)).toNat <<< 8 |||
      (UInt8.ofNat n).toNat = n := by
  rw [UInt8.toNat_ofNat', UInt8.toNat_ofNat', UInt8.toNat_ofNat', Nat.or_assoc,
    shiftLeft_or 8 (by omega), shiftLeft_or 16 (by omega)]
  omega

theorem toNat_be32 (a b c d : UInt8) :
    (be32 a b c d).toNat = a.toNat * 2 ^ 24 + b.toNat * 2 ^ 16 + c.toNat * 2 ^ 8 + d.toNat := by
  have ha := a.toNat_lt
  have hb := b.toNat_lt
  have hc := c.toNat_lt
  have hd := d.toNat_lt
  have hshift {x : UInt8} {k : UInt32} (hx : x.toNat * 2 ^ (k.toNat % 32) < 2 ^ 32) :
      (x.toUInt32 <<< k).toNat = x.toNat <<< (k.toNat % 32) := by
    rw [UInt32.toNat_shiftLeft, UInt8.toNat_toUInt32, Nat.shiftLeft_eq, Nat.mod_eq_of_lt hx]
  have h24 : (a.toUInt32 <<< 24).toNat = a.toNat <<< 24 := hshift (k := 24) (by simp; omega)
  have h16 : (b.toUInt32 <<< 16).toNat = b.toNat <<< 16 := hshift (k := 16) (by simp; omega)
  have h8 : (c.toUInt32 <<< 8).toNat = c.toNat <<< 8 := hshift (k := 8) (by simp; omega)
  rw [be32, UInt32.toNat_or, UInt32.toNat_or, UInt32.toNat_or, h24, h16, h8, UInt8.toNat_toUInt32,
    Nat.or_assoc, Nat.or_assoc, shiftLeft_or 8 hd, shiftLeft_or 16 (by omega),
    shiftLeft_or 24 (by omega)]
  omega

theorem be32_bytes (n : UInt32) :
    be32 (n >>> 24).toUInt8 (n >>> 16).toUInt8 (n >>> 8).toUInt8 n.toUInt8 = n := by
  have h := n.toNat_lt
  apply UInt32.toNat_inj.mp
  rw [toNat_be32]
  simp only [UInt32.toNat_toUInt8, UInt32.toNat_shiftRight, Nat.shiftRight_eq_div_pow,
    UInt32.reduceToNat, Nat.reduceMod]
  omega

theorem be16_bytesLE (n : UInt16) : .ofNat (be16 (n >>> 8).toUInt8 n.toUInt8) = n := by
  have h := n.toNat_lt
  apply UInt16.toNat_inj.mp
  rw [be16_eq]
  simp [Nat.shiftRight_eq_div_pow]
  omega

section Cons

variable (a b c d : UInt8) (l : List UInt8) (i : ℕ)

@[simp] theorem value_read16_succ : (read16 (a :: l) (i + 1)).value = (read16 l i).value := by
  simp [read16]

@[simp] theorem value_read16_zero : (read16 (a :: b :: l) 0).value = some (be16 a b) := by
  simp [read16]

@[simp] theorem value_read32_succ : (read32 (a :: l) (i + 1)).value = (read32 l i).value := by
  simp [read32]

@[simp] theorem value_read32_zero :
    (read32 (a :: b :: c :: d :: l) 0).value = some (be32 a b c d) := by
  simp [read32]

@[simp] theorem value_read32LE_succ :
    (read32LE (a :: l) (i + 1)).value = (read32LE l i).value := by
  simp [read32LE]

@[simp] theorem value_read32LE_zero :
    (read32LE (a :: b :: c :: d :: l) 0).value = some (be32 d c b a) := by
  simp [read32LE]

end Cons

section Prefix

variable (pre l : List UInt8) (i : ℕ)

@[simp] theorem getElem?_append_add : (pre ++ l)[pre.length + i]? = l[i]? := by
  rw [List.getElem?_append_right (Nat.le_add_right _ _), Nat.add_sub_cancel_left]

theorem value_read_append : (read (pre ++ l) (pre.length + i)).value = (read l i).value :=
  getElem?_append_add pre l i

@[simp] theorem value_read16_append :
    (read16 (pre ++ l) (pre.length + i)).value = (read16 l i).value := by
  simp only [read16, Nat.add_assoc, value_bind, value_read_append]

@[simp] theorem value_read16_length : (read16 (pre ++ l) pre.length).value = (read16 l 0).value :=
  value_read16_append pre l 0

@[simp] theorem value_read32_append :
    (read32 (pre ++ l) (pre.length + i)).value = (read32 l i).value := by
  simp only [read32, Nat.add_assoc, value_bind, value_read_append]

@[simp] theorem value_read32LE_append :
    (read32LE (pre ++ l) (pre.length + i)).value = (read32LE l i).value := by
  simp only [read32LE, Nat.add_assoc, value_bind, value_read_append]

variable {data : List UInt8} {n k : ℕ} {b : UInt8}

theorem byteAt_eq (h : data = pre ++ ([b] ++ l)) (hk : pre.length = k) : byteAt data k = b := by
  subst h hk
  simp [byteAt]

theorem wordAt_eq (h : data = pre ++ (bytes16 n ++ l)) (hk : pre.length = k) (hn : n < 2 ^ 16) :
    wordAt data k = n := by
  subst h hk
  simp [wordAt, byteAt, bytes16, be16_bytes hn]

theorem byteAt_append_left {i : ℕ} (h : i < pre.length) : byteAt (pre ++ l) i = byteAt pre i := by
  simp [byteAt, List.getElem?_append_left h]

theorem wordAt_append_left {i : ℕ} (h : i + 1 < pre.length) :
    wordAt (pre ++ l) i = wordAt pre i := by
  rw [wordAt, wordAt, byteAt_append_left pre l (by omega), byteAt_append_left pre l h]

theorem wordAtLE_eq {w : UInt32} (h : data = pre ++ (bytes32LE w ++ l)) (hk : pre.length = k) :
    wordAtLE data k = w := by
  subst h hk
  simp [wordAtLE, byteAt, bytes32LE, be32_bytes]

theorem halfAtLE_eq {w : UInt16} (h : data = pre ++ (bytes16LE w ++ l)) (hk : pre.length = k) :
    halfAtLE data k = w := by
  subst h hk
  simp [halfAtLE, byteAt, bytes16LE, be16_bytesLE]

end Prefix

end Traced
