import DpiEngine.Library.Machine
import Mathlib.Data.List.Infix
import Mathlib.Tactic.Ring

/-! # Traced memory access

Computations over byte buffers that record every indexed read and every
subtraction of size counters. A computation has no value only when it has read
outside its buffer, so a computation whose trace stays in range is defined.
-/

/-- What a traced computation does to memory and to its unsigned counters. -/
inductive Event
  | read (index size : ℕ)
  | sub (minuend subtrahend : ℕ)
  deriving DecidableEq, Repr

namespace Event

/-- Reads stay inside the buffer and subtractions do not wrap. -/
def InRange : Event → Prop
  | read i n => i < n
  | sub a b => b ≤ a

instance : DecidablePred InRange
  | read i n => inferInstanceAs (Decidable (i < n))
  | sub a b => inferInstanceAs (Decidable (b ≤ a))

end Event

/-- A computation with its trace. It is undefined only after a read out of range. -/
structure Traced (α : Type*) where
  trace : List Event
  value : Option α
  undefined : value = none → ∃ e ∈ trace, ¬ e.InRange

namespace Traced

universe u

variable {α β : Type u}

/-- Every event of the computation is in range. -/
def Safe (x : Traced α) : Prop := ∀ e ∈ x.trace, e.InRange

instance (x : Traced α) : Decidable x.Safe := inferInstanceAs (Decidable (∀ e ∈ x.trace, _))

theorem Safe.exists_value {x : Traced α} (h : x.Safe) : ∃ a, x.value = some a := by
  refine Option.ne_none_iff_exists'.mp fun hn => ?_
  obtain ⟨e, he, hr⟩ := x.undefined hn
  exact hr (h e he)

instance : Monad Traced where
  pure a := ⟨[], some a, nofun⟩
  bind x f := {
    trace := x.trace ++ (x.value.map fun a => (f a).trace).getD []
    value := x.value.bind fun a => (f a).value
    undefined := fun h => by
      cases hx : x.value with
      | none =>
        obtain ⟨e, he, hr⟩ := x.undefined hx
        exact ⟨e, List.mem_append_left _ he, hr⟩
      | some a =>
        obtain ⟨e, he, hr⟩ := (f a).undefined (by simpa [hx] using h)
        exact ⟨e, List.mem_append_right _ (by simpa [hx] using he), hr⟩ }

@[simp] theorem value_pure (a : α) : (pure a : Traced α).value = some a := rfl

@[simp] theorem value_bind (x : Traced α) (f : α → Traced β) :
    (x >>= f).value = x.value.bind fun a => (f a).value := rfl

@[simp] theorem safe_pure (a : α) : (pure a : Traced α).Safe := nofun

theorem safe_bind {x : Traced α} {f : α → Traced β} :
    (x >>= f).Safe ↔ x.Safe ∧ ∀ a, x.value = some a → (f a).Safe := by
  change (∀ e ∈ x.trace ++ (x.value.map fun a => (f a).trace).getD [], e.InRange) ↔ _
  simp only [List.mem_append, or_imp, forall_and]
  cases hx : x.value <;> simp [Safe]

theorem safe_ite {c : Prop} [Decidable c] {x y : Traced α} :
    (if c then x else y).Safe ↔ (c → x.Safe) ∧ (¬ c → y.Safe) := by
  by_cases h : c <;> simp [h]

theorem Safe.andThen {x : Traced α} {f : α → Traced β} (hx : x.Safe)
    (hf : ∀ a, x.value = some a → (f a).Safe) : (x >>= f).Safe := safe_bind.mpr ⟨hx, hf⟩

theorem safe_guard {c : Prop} [Decidable c] {a : α} {x : Traced α} (h : ¬ c → x.Safe) :
    (if c then pure a else x).Safe :=
  safe_ite.mpr ⟨fun _ => safe_pure a, h⟩

theorem safe_when {c : Prop} [Decidable c] {a : α} {x : Traced α} (h : c → x.Safe) :
    (if c then x else pure a).Safe :=
  safe_ite.mpr ⟨h, fun _ => safe_pure a⟩

/-- Read one byte. -/
def read (buf : List UInt8) (i : ℕ) : Traced UInt8 where
  trace := [.read i buf.length]
  value := buf[i]?
  undefined h := ⟨_, List.mem_singleton_self _, Nat.not_lt.mpr (List.getElem?_eq_none_iff.mp h)⟩

def sub (a b : ℕ) : Traced ℕ where
  trace := [.sub a b]
  value := some (Machine.sizeSub a b)
  undefined := nofun

@[simp] theorem value_read (buf : List UInt8) (i : ℕ) : (read buf i).value = buf[i]? := rfl

@[simp] theorem safe_read {buf : List UInt8} {i : ℕ} : (read buf i).Safe ↔ i < buf.length := by
  simp [Safe, read, Event.InRange]

@[simp] theorem value_sub (a b : ℕ) : (sub a b).value = some (Machine.sizeSub a b) := rfl

@[simp] theorem safe_sub {a b : ℕ} : (sub a b).Safe ↔ b ≤ a := by
  simp [Safe, sub, Event.InRange]

theorem value_sub_of_le {a b : ℕ} (h : b ≤ a) : (sub a b).value = some (a - b) := by
  rw [value_sub, Machine.sizeSub_eq h]

def be16 (a b : UInt8) : ℕ := a.toNat <<< 8 ||| b.toNat

theorem be16_eq (a b : UInt8) : be16 a b = a.toNat * 256 + b.toNat := by
  rw [be16, ← Nat.shiftLeft_add_eq_or_of_lt b.toNat_lt, Nat.shiftLeft_eq]

theorem be16_lt (a b : UInt8) : be16 a b < 2 ^ 16 := by
  have := a.toNat_lt; have := b.toNat_lt; rw [be16_eq]; omega

def read16 (buf : List UInt8) (i : ℕ) : Traced ℕ := do
  let a ← read buf i
  let b ← read buf (i + 1)
  pure (be16 a b)

def readBytes (buf : List UInt8) : ℕ → ℕ → Traced (List UInt8)
  | _, 0 => pure []
  | i, n + 1 => do
    let a ← read buf i
    let l ← readBytes buf (i + 1) n
    pure (a :: l)

def be32 (a b c d : UInt8) : UInt32 :=
  a.toUInt32 <<< 24 ||| b.toUInt32 <<< 16 ||| c.toUInt32 <<< 8 ||| d.toUInt32

def read32 (buf : List UInt8) (i : ℕ) : Traced UInt32 := do
  let a ← read buf i
  let b ← read buf (i + 1)
  let c ← read buf (i + 2)
  let d ← read buf (i + 3)
  pure (be32 a b c d)

/-- Copy four bytes into a 32-bit number of a little-endian host. -/
def read32LE (buf : List UInt8) (i : ℕ) : Traced UInt32 := do
  let a ← read buf i
  let b ← read buf (i + 1)
  let c ← read buf (i + 2)
  let d ← read buf (i + 3)
  pure (be32 d c b a)

def byteAt (buf : List UInt8) (i : ℕ) : UInt8 := buf.getD i 0

def wordAt (buf : List UInt8) (i : ℕ) : ℕ := be16 (byteAt buf i) (byteAt buf (i + 1))

theorem byteAt_drop (buf : List UInt8) (j i : ℕ) : byteAt (buf.drop j) i = byteAt buf (j + i) := by
  simp only [byteAt, List.getD_eq_getElem?_getD, List.getElem?_drop]

theorem getElem?_of_lt {buf : List UInt8} {i : ℕ} (h : i < buf.length) :
    buf[i]? = some (byteAt buf i) := by
  simp [byteAt, h]

theorem drop_eq_byteAt {buf : List UInt8} {i : ℕ} (h : i < buf.length) :
    buf.drop i = byteAt buf i :: buf.drop (i + 1) := by
  have hbyte := getElem?_of_lt h
  rw [List.getElem?_eq_getElem h, Option.some_inj] at hbyte
  rw [List.drop_eq_getElem_cons h, hbyte]

theorem wordAt_lt (buf : List UInt8) (i : ℕ) : wordAt buf i < 2 ^ 16 := be16_lt _ _

theorem value_read_of_lt {buf : List UInt8} {i : ℕ} (h : i < buf.length) :
    (read buf i).value = some (byteAt buf i) := getElem?_of_lt h

theorem value_read16_of_lt {buf : List UInt8} {i : ℕ} (h : i + 1 < buf.length) :
    (read16 buf i).value = some (wordAt buf i) := by
  have h' : i < buf.length := by omega
  simp [read16, wordAt, byteAt, h, h']

def wordAtLE (buf : List UInt8) (i : ℕ) : UInt32 :=
  be32 (byteAt buf (i + 3)) (byteAt buf (i + 2)) (byteAt buf (i + 1)) (byteAt buf i)

def halfAtLE (buf : List UInt8) (i : ℕ) : UInt16 :=
  .ofNat (be16 (byteAt buf (i + 1)) (byteAt buf i))

theorem value_read32LE_of_lt {buf : List UInt8} {i : ℕ} (h : i + 3 < buf.length) :
    (read32LE buf i).value = some (wordAtLE buf i) := by
  simp (disch := omega) only [read32LE, wordAtLE, value_bind, value_read_of_lt, Option.bind_some,
    value_pure]

@[simp] theorem safe_read16 {buf : List UInt8} {i : ℕ} :
    (read16 buf i).Safe ↔ i + 1 < buf.length := by
  simp only [read16, safe_bind, safe_read, value_read, safe_pure, implies_true, and_true]
  constructor
  · rintro ⟨h, h'⟩; exact h' _ (List.getElem?_eq_getElem h)
  · exact fun h => ⟨by omega, fun _ _ => h⟩

@[simp] theorem safe_read32 {buf : List UInt8} {i : ℕ} :
    (read32 buf i).Safe ↔ i + 3 < buf.length := by
  simp only [read32, safe_bind, safe_read, value_read, safe_pure, implies_true, and_true]
  constructor
  · rintro ⟨h₀, h⟩
    obtain ⟨h₁, h⟩ := h _ (List.getElem?_eq_getElem h₀)
    obtain ⟨h₂, h⟩ := h _ (List.getElem?_eq_getElem h₁)
    exact h _ (List.getElem?_eq_getElem h₂)
  · exact fun h => ⟨by omega, fun _ _ => ⟨by omega, fun _ _ => ⟨by omega, fun _ _ => h⟩⟩⟩

section Steps

variable {γ : Type} {buf : List UInt8} {i n : ℕ}

theorem safe_read_bind {f : UInt8 → Traced γ} (h : i < buf.length) (hf : ∀ b, (f b).Safe) :
    (read buf i >>= f).Safe :=
  (safe_read.mpr h).andThen fun b _ => hf b

theorem safe_read16_bind {f : ℕ → Traced γ} (h : i + 1 < buf.length) (hf : ∀ n, (f n).Safe) :
    (read16 buf i >>= f).Safe :=
  (safe_read16.mpr h).andThen fun n _ => hf n

theorem safe_readBytes (h : i + n ≤ buf.length) : (readBytes buf i n).Safe := by
  induction n generalizing i with
  | zero => exact safe_pure _
  | succ n ih =>
    apply safe_read_bind (by omega)
    intro a
    exact (ih (by omega)).andThen fun _ _ => safe_pure _

theorem safe_readBytes_bind {f : List UInt8 → Traced γ} (h : i + n ≤ buf.length)
    (hf : ∀ l, (f l).Safe) : (readBytes buf i n >>= f).Safe :=
  (safe_readBytes h).andThen fun l _ => hf l

theorem value_guard {c : Prop} [Decidable c] {x : Traced γ} {a b : γ} (hab : a ≠ b)
    (h : (if c then pure a else x).value = some b) : ¬ c ∧ x.value = some b := by
  split_ifs at h with hc
  · exact absurd (Option.some.inj h) hab
  · exact ⟨hc, h⟩

theorem value_bind_some {β : Type} {x : Traced β} {f : β → Traced γ} {b : γ}
    (h : (x >>= f).value = some b) : ∃ a, x.value = some a ∧ (f a).value = some b :=
  Option.bind_eq_some_iff.mp h

theorem value_read_bind {f : UInt8 → Traced γ} {b : γ} (h : (read buf i >>= f).value = some b) :
    i < buf.length ∧ (f (byteAt buf i)).value = some b := by
  obtain ⟨a, ha, hf⟩ := value_bind_some h
  have hi : i < buf.length := (List.getElem?_eq_some_iff.mp ha).1
  rw [value_read_of_lt hi, Option.some.injEq] at ha
  exact ⟨hi, ha ▸ hf⟩

theorem value_read16_bind {f : ℕ → Traced γ} {b : γ} (h : (read16 buf i >>= f).value = some b) :
    i + 1 < buf.length ∧ (f (wordAt buf i)).value = some b := by
  obtain ⟨n, hn, hf⟩ := value_bind_some h
  obtain ⟨hi, hn⟩ := value_read_bind hn
  obtain ⟨hi', hn⟩ := value_read_bind hn
  obtain rfl : wordAt buf i = n := Option.some.inj hn
  exact ⟨hi', hf⟩

theorem value_read_bind_of_lt {f : UInt8 → Traced γ} (h : i < buf.length) :
    (read buf i >>= f).value = (f (byteAt buf i)).value := by
  rw [value_bind, value_read_of_lt h]
  rfl

theorem value_read16_bind_of_lt {f : ℕ → Traced γ} (h : i + 1 < buf.length) :
    (read16 buf i >>= f).value = (f (wordAt buf i)).value := by
  rw [value_bind, value_read16_of_lt h]
  rfl

theorem value_sub_bind_of_le {f : ℕ → Traced γ} {a b : ℕ} (h : b ≤ a) :
    (sub a b >>= f).value = (f (a - b)).value := by
  rw [value_bind, value_sub_of_le h]
  rfl

end Steps

section Yields

variable {γ δ : Type} {P : γ → Prop}

/-- Every result that the computation returns has the property. -/
def Yields (P : γ → Prop) (x : Traced (Option γ)) : Prop := ∀ a, x.value = some (some a) → P a

theorem yields_none : Yields P (pure none) := by
  rintro a h
  cases h

theorem yields_some {a : γ} (h : P a) : Yields P (pure (some a)) := by
  rintro b hb
  cases hb
  exact h

/-- The rest of a computation may use what came before it. -/
theorem Yields.bind {x : Traced δ} {f : δ → Traced (Option γ)}
    (h : ∀ b, x.value = some b → Yields P (f b)) : Yields P (x >>= f) := by
  rintro a ha
  obtain ⟨b, hb, ha⟩ := value_bind_some ha
  exact h b hb a ha

theorem Yields.ite {c : Prop} [Decidable c] {x y : Traced (Option γ)} (hx : c → Yields P x)
    (hy : ¬ c → Yields P y) : Yields P (if c then x else y) := by
  split_ifs with hc
  · exact hx hc
  · exact hy hc

theorem Yields.guard {c : Prop} [Decidable c] {x : Traced (Option γ)} (h : ¬ c → Yields P x) :
    Yields P (if c then pure none else x) := .ite (fun _ => yields_none) h

theorem Yields.when {c : Prop} [Decidable c] {x : Traced (Option γ)} (h : c → Yields P x) :
    Yields P (if c then x else pure none) := .ite h fun _ => yields_none

end Yields

theorem value_readBytes {buf l : List UInt8} {i n : ℕ} (h : (readBytes buf i n).value = some l) :
    l = (buf.drop i).take n := by
  induction n generalizing i l with
  | zero => simpa [readBytes, eq_comm] using h
  | succ n ih =>
    simp only [readBytes, value_bind, value_read, value_pure, Option.bind_eq_some_iff,
      Option.some.injEq] at h
    obtain ⟨a, ha, l', hl', rfl⟩ := h
    obtain ⟨hi, rfl⟩ := List.getElem?_eq_some_iff.mp ha
    rw [ih hl', List.drop_eq_getElem_cons hi, List.take_succ_cons]

theorem value_readBytes_of_le {buf : List UInt8} {i n : ℕ} (h : i + n ≤ buf.length) :
    (readBytes buf i n).value = some ((buf.drop i).take n) := by
  obtain ⟨l, hl⟩ := (safe_readBytes h).exists_value
  rw [hl, value_readBytes hl]

theorem value_readBytes_bind_of_le {γ : Type} {buf : List UInt8} {i n : ℕ}
    {f : List UInt8 → Traced γ} (h : i + n ≤ buf.length) :
    (readBytes buf i n >>= f).value = (f ((buf.drop i).take n)).value := by
  rw [value_bind, value_readBytes_of_le h]
  rfl

theorem slice_infix (buf : List UInt8) (i n : ℕ) : (buf.drop i).take n <:+: buf :=
  (List.take_prefix _ _).isInfix.trans (List.drop_suffix _ _).isInfix

/-- What consecutive reads return is a contiguous part of the buffer. -/
theorem infix_of_readBytes {buf l : List UInt8} {i n : ℕ}
    (h : (readBytes buf i n).value = some l) : l <:+: buf := by
  rw [value_readBytes h]
  exact slice_infix buf i n

end Traced
