import Mathlib.Data.Vector.Basic
import Mathlib.Tactic.Ring

/-! # Flow keys

A five-tuple routes a packet to a worker, a flow key identifies its connection.
Both have a canonical direction, so that the two directions of a flow agree.
-/

namespace DpiEngine

structure FiveTuple where
  srcIp : UInt32 := 0
  dstIp : UInt32 := 0
  srcPort : UInt16 := 0
  dstPort : UInt16 := 0
  protocol : UInt8 := 0
  deriving DecidableEq, Repr

namespace FiveTuple

def reverse (t : FiveTuple) : FiveTuple := ⟨t.dstIp, t.srcIp, t.dstPort, t.srcPort, t.protocol⟩

def canonical (t : FiveTuple) : FiveTuple :=
  if t.srcIp < t.dstIp ∨ t.srcIp = t.dstIp ∧ t.srcPort ≤ t.dstPort then t else t.reverse

end FiveTuple

/-- The integer hashes of the standard library, which the standard leaves open. -/
structure StdHash where
  hash32 : UInt32 → UInt64
  hash16 : UInt16 → UInt64
  hash8 : UInt8 → UInt64

/-- One step of the hash combiners: `h ^= v + 0x9e3779b9 + (h << 6) + (h >> 2)`. -/
def mixHash (h v : UInt64) : UInt64 :=
  h ^^^ (v + 0x9e3779b9 + (h <<< (6 : UInt64)) + (h >>> (2 : UInt64)))

/-- `FiveTupleHash`. -/
def FiveTuple.hash (H : StdHash) (t : FiveTuple) : UInt64 :=
  let c := t.canonical
  [H.hash32 c.srcIp, H.hash32 c.dstIp, H.hash16 c.srcPort, H.hash16 c.dstPort,
    H.hash8 c.protocol].foldl mixHash 0

abbrev IPv6Address := Vector UInt8 16

inductive IPAddress
  | v4 (addr : UInt32)
  | v6 (addr : IPv6Address)
  deriving DecidableEq, Repr

instance : Inhabited IPAddress := ⟨.v4 0⟩

structure FlowKey where
  srcAddr : IPAddress := default
  dstAddr : IPAddress := default
  srcPort : UInt16 := 0
  dstPort : UInt16 := 0
  protocol : UInt8 := 0
  deriving DecidableEq, Repr

/-- IPv4 sorts before IPv6, addresses of one family sort lexicographically. -/
def ipAddrLess : IPAddress → IPAddress → Bool
  | .v4 a, .v4 b => a < b
  | .v4 _, .v6 _ => true
  | .v6 _, .v4 _ => false
  | .v6 a, .v6 b => decide (a.toList < b.toList)

theorem ipAddrLess_trichotomy (a b : IPAddress) : ipAddrLess a b ∨ a = b ∨ ipAddrLess b a := by
  cases a with
  | v4 a =>
    cases b with
    | v4 b =>
      rcases Std.lt_trichotomy a b with h | rfl | h
      · exact .inl (decide_eq_true h)
      · exact .inr (.inl rfl)
      · exact .inr (.inr (decide_eq_true h))
    | v6 b => exact .inl rfl
  | v6 a =>
    cases b with
    | v4 b => exact .inr (.inr rfl)
    | v6 b =>
      rcases Std.lt_trichotomy a.toList b.toList with h | h | h
      · exact .inl (decide_eq_true h)
      · rw [Vector.toList_inj] at h
        exact .inr (.inl (congrArg _ h))
      · exact .inr (.inr (decide_eq_true h))

theorem ipAddrLess_asymm {a b : IPAddress} (h : ipAddrLess a b) : ¬ ipAddrLess b a := by
  intro h'
  cases a with
  | v4 a =>
    cases b with
    | v4 b => exact UInt32.lt_asymm (of_decide_eq_true h) (of_decide_eq_true h')
    | v6 b => cases h'
  | v6 a =>
    cases b with
    | v4 b => cases h
    | v6 b => exact List.lt_asymm (of_decide_eq_true h) (of_decide_eq_true h')

def IPAddress.index : IPAddress → UInt64
  | .v4 _ => 0
  | .v6 _ => 1

def addressChunk (a : IPv6Address) (i : ℕ) : UInt32 :=
  let byte (j : ℕ) : UInt32 := (a.toList.getD (i * 4 + j) 0).toUInt32
  byte 0 ||| byte 1 <<< (8 : UInt32) ||| byte 2 <<< (16 : UInt32) ||| byte 3 <<< (24 : UInt32)

/-- The integers that are hashed for an address. -/
def IPAddress.words : IPAddress → List UInt32
  | .v4 a => [a]
  | .v6 a => (List.range 4).map (addressChunk a)

namespace FlowKey

def isIPv6 (k : FlowKey) : Bool :=
  match k.srcAddr with
  | .v4 _ => false
  | .v6 _ => true

def fromFiveTuple (t : FiveTuple) : FlowKey :=
  ⟨.v4 t.srcIp, .v4 t.dstIp, t.srcPort, t.dstPort, t.protocol⟩

def fromIPv6 (src dst : IPv6Address) (sport dport : UInt16) (proto : UInt8) : FlowKey :=
  ⟨.v6 src, .v6 dst, sport, dport, proto⟩

def reverse (k : FlowKey) : FlowKey := ⟨k.dstAddr, k.srcAddr, k.dstPort, k.srcPort, k.protocol⟩

def canonical (k : FlowKey) : FlowKey :=
  if ipAddrLess k.srcAddr k.dstAddr ∨ k.srcAddr = k.dstAddr ∧ k.srcPort ≤ k.dstPort then k
  else k.reverse

@[simp] theorem reverse_reverse (k : FlowKey) : k.reverse.reverse = k := rfl

theorem canonical_or_reverse (k : FlowKey) : k.canonical = k ∨ k.reverse.canonical = k.reverse := by
  unfold canonical
  by_cases h : ipAddrLess k.srcAddr k.dstAddr ∨ k.srcAddr = k.dstAddr ∧ k.srcPort ≤ k.dstPort
  · exact .inl (if_pos h)
  · refine .inr (if_pos ?_)
    rw [not_or, not_and] at h
    rcases ipAddrLess_trichotomy k.srcAddr k.dstAddr with hlt | heq | hgt
    · exact absurd hlt h.1
    · exact .inr ⟨heq.symm, (UInt16.le_total k.srcPort k.dstPort).resolve_left (h.2 heq)⟩
    · exact .inl hgt

theorem canonical_cases (k : FlowKey) : k.canonical = k ∨ k.canonical = k.reverse := by
  unfold canonical
  split_ifs
  · exact .inl rfl
  · exact .inr rfl

@[simp] theorem canonical_canonical (k : FlowKey) : k.canonical.canonical = k.canonical := by
  by_cases h : k.canonical = k
  · rw [h, h]
  · rw [(canonical_cases k).resolve_left h, (canonical_or_reverse k).resolve_left h]

theorem protocol_canonical (k : FlowKey) : k.canonical.protocol = k.protocol := by
  rcases canonical_cases k with h | h
  · rw [h]
  · rw [h, reverse]

theorem canonical_reverse (k : FlowKey) : k.reverse.canonical = k.canonical := by
  by_cases hk : k.canonical = k
  · by_cases hr : k.reverse.canonical = k.reverse
    · -- both directions are canonical, so that they are equal
      rw [hk, hr]
      obtain ⟨a, b, p, q, proto⟩ := k
      by_contra hne
      have hab : ipAddrLess a b ∨ a = b ∧ p ≤ q := by
        by_contra h
        rw [canonical, if_neg h] at hk
        exact hne hk
      have hba : ipAddrLess b a ∨ b = a ∧ q ≤ p := by
        by_contra h
        rw [canonical, reverse, if_neg h] at hr
        exact hne hr.symm
      rcases hab with hab | ⟨rfl, hpq⟩
      · rcases hba with hba | ⟨rfl, -⟩
        · exact ipAddrLess_asymm hab hba
        · exact ipAddrLess_asymm hab hab
      · rcases hba with hba | ⟨-, hqp⟩
        · exact ipAddrLess_asymm hba hba
        · cases UInt16.le_antisymm hpq hqp
          exact hne rfl
    · rw [(canonical_cases k.reverse).resolve_left hr, hk, reverse_reverse]
  · rw [(canonical_or_reverse k).resolve_left hk, (canonical_cases k).resolve_left hk]

/-- Equal canonical keys come from equal or opposite keys. -/
theorem eq_or_eq_reverse {k k' : FlowKey} (h : k.canonical = k'.canonical) :
    k = k' ∨ k = k'.reverse := by
  rcases canonical_cases k with hk | hk <;> rcases canonical_cases k' with hk' | hk' <;>
    rw [hk, hk'] at h
  · exact .inl h
  · exact .inr h
  · exact .inr (congrArg reverse h)
  · exact .inl (congrArg reverse h)

theorem canonical_eq_iff {k k' : FlowKey} :
    k.canonical = k'.canonical ↔ k = k' ∨ k = k'.reverse := by
  constructor
  · exact eq_or_eq_reverse
  · rintro (rfl | rfl)
    · rfl
    · exact canonical_reverse k'

/-- `FlowKeyHash`. -/
def hash (H : StdHash) (k : FlowKey) : UInt64 :=
  let c := k.canonical
  ([c.srcAddr.index] ++ c.srcAddr.words.map H.hash32 ++ c.dstAddr.words.map H.hash32 ++
    [H.hash16 c.srcPort, H.hash16 c.dstPort, H.hash8 c.protocol]).foldl mixHash 0

theorem hash_eq (H : StdHash) {k k' : FlowKey} (h : k.canonical = k'.canonical) :
    k.hash H = k'.hash H := by
  unfold hash
  rw [h]

theorem canonical_fromFiveTuple (t : FiveTuple) :
    (fromFiveTuple t).canonical = fromFiveTuple t.canonical := by
  have hcond : (ipAddrLess (.v4 t.srcIp) (.v4 t.dstIp) = true ∨
      IPAddress.v4 t.srcIp = .v4 t.dstIp ∧ t.srcPort ≤ t.dstPort) ↔
      (t.srcIp < t.dstIp ∨ t.srcIp = t.dstIp ∧ t.srcPort ≤ t.dstPort) := by
    simp [ipAddrLess]
  simp only [canonical, FiveTuple.canonical, fromFiveTuple, hcond]
  split_ifs <;> rfl

theorem fromFiveTuple_injective {t t' : FiveTuple} (h : fromFiveTuple t = fromFiveTuple t') :
    t = t' := by
  cases t
  cases t'
  cases h
  rfl

theorem canonical_fromIPv6_ne {src dst : IPv6Address} {sport dport : UInt16} {proto : UInt8}
    {t : FiveTuple} :
    (fromIPv6 src dst sport dport proto).canonical ≠ (fromFiveTuple t).canonical := by
  intro h
  rcases eq_or_eq_reverse h with h | h <;> cases h

end FlowKey

namespace FiveTuple

theorem canonical_eq {t t' : FiveTuple}
    (h : (FlowKey.fromFiveTuple t).canonical = (FlowKey.fromFiveTuple t').canonical) :
    t.canonical = t'.canonical := by
  rw [FlowKey.canonical_fromFiveTuple, FlowKey.canonical_fromFiveTuple] at h
  exact FlowKey.fromFiveTuple_injective h

theorem canonical_reverse (t : FiveTuple) : t.reverse.canonical = t.canonical :=
  canonical_eq (FlowKey.canonical_reverse (.fromFiveTuple t))

theorem hash_eq (H : StdHash) {t t' : FiveTuple} (h : t.canonical = t'.canonical) :
    t.hash H = t'.hash H := by
  unfold hash
  rw [h]

end FiveTuple

end DpiEngine
