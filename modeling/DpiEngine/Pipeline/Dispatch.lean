import DpiEngine.Pipeline.Engine
import Mathlib.Data.Fintype.Card
import Mathlib.Data.Fintype.Prod
import Mathlib.Data.Nat.ModEq

/-! # Dispatching to the processors

The load balancer of a packet and its processor are residues of one hash. The
frames of a flow share the hash, so that they meet in one processor. The two
residues are not independent, so that some processors may get no packet.
-/

namespace DpiEngine

namespace DPIEngine

open PacketParser

variable {cfg : Config} {H : StdHash}

/-- The tuples are dispatched to one load balancer and one of its processors. -/
def SameWorker (cfg : Config) (H : StdHash) (t t' : FiveTuple) : Prop :=
  getLBForPacket cfg H t = getLBForPacket cfg H t' ∧ selectFP cfg H t = selectFP cfg H t'

theorem sameWorker_of_hash_eq {t t' : FiveTuple} (h : t.hash H = t'.hash H) :
    SameWorker cfg H t t' := by
  unfold SameWorker getLBForPacket selectFP
  simp only [h, and_self]

theorem sameWorker_of_canonical_eq {t t' : FiveTuple} (h : t.canonical = t'.canonical) :
    SameWorker cfg H t t' := sameWorker_of_hash_eq (FiveTuple.hash_eq H h)

/-- Frames of one flow meet in one processor, in particular those of its two directions. -/
theorem flow_affinity (cfg : Config) (H : StdHash) (f f' : ParsedFrame)
    (h : f.key.canonical = f'.key.canonical ∨ f.key = f'.key.reverse) :
    SameWorker cfg H f.tuple f'.tuple := by
  rcases h with hflow | hkey
  · exact sameWorker_of_canonical_eq (ParsedFrame.canonical_tuple_eq hflow)
  · apply sameWorker_of_canonical_eq
    apply ParsedFrame.canonical_tuple_eq
    rw [hkey, FlowKey.canonical_reverse]

/-- An IPv6 datagram of one byte between two ports of addresses that end in the given bytes. -/
def datagram (src dst sport dport : UInt8) : List UInt8 :=
  List.replicate 12 0 ++ [0x86, 0xDD, 0x60, 0, 0, 0, 0, 9, 17, 64] ++ List.replicate 15 0 ++
    [src] ++ List.replicate 15 0 ++ [dst, 0, sport, 0, dport, 0, 9, 0, 0, 1]

def addressOf (last : UInt8) : IPv6Address := Vector.ofFn fun i => if i.val = 15 then last else 0

def datagramPacket (src dst sport dport : UInt8) : ParsedPacket where
  etherType := EtherType.IPv6
  hasIp := true
  ipVersion := 6
  hasIpv6 := true
  srcIpv6 := addressOf src
  dstIpv6 := addressOf dst
  ipHopLimit := 64
  ttl := 64
  protocol := Protocol.UDP
  hasUdp := true
  srcPort := .ofNat sport.toNat
  destPort := .ofNat dport.toNat
  payloadLength := 1
  payloadData := some 62

theorem flow_affinity_reply :
    let f : ParsedFrame := ⟨{ data := datagram 1 2 7 9 }, datagramPacket 1 2 7 9, rfl⟩
    let f' : ParsedFrame := ⟨{ data := datagram 2 1 9 7 }, datagramPacket 2 1 9 7, rfl⟩
    SameWorker {} identityHash f.tuple f'.tuple :=
  flow_affinity {} identityHash _ _ (.inr rfl)

def dispatch (cfg : Config) (h : UInt64) : Fin cfg.numLoadBalancers × Fin cfg.fpsPerLb :=
  (⟨h.toNat % cfg.numLoadBalancers, Nat.mod_lt _ cfg.numLoadBalancers_pos⟩,
    ⟨h.toNat % cfg.fpsPerLb, Nat.mod_lt _ cfg.fpsPerLb_pos⟩)

theorem dispatch_hash (t : FiveTuple) :
    dispatch cfg (t.hash H) = (getLBForPacket cfg H t, selectFP cfg H t) := rfl

/-- A number below the bound with two given residues exists if they agree modulo the divisor. -/
theorem exists_residues_iff {m n a b N : ℕ} (ha : a < m) (hb : b < n) (hN : m.lcm n ≤ N) :
    (∃ h < N, h % m = a ∧ h % n = b) ↔ a ≡ b [MOD m.gcd n] := by
  constructor
  · rintro ⟨h, -, rfl, rfl⟩
    have hm : h % m ≡ h [MOD m.gcd n] := (Nat.mod_modEq h m).of_dvd (Nat.gcd_dvd_left m n)
    have hn : h % n ≡ h [MOD m.gcd n] := (Nat.mod_modEq h n).of_dvd (Nat.gcd_dvd_right m n)
    exact hm.trans hn.symm
  · intro h
    obtain ⟨hm, hn⟩ := (Nat.chineseRemainder' h).property
    refine ⟨Nat.chineseRemainder' h, ?_, ?_, ?_⟩
    · exact (Nat.chineseRemainder'_lt_lcm h (by omega) (by omega)).trans_le hN
    · rw [hm, Nat.mod_eq_of_lt ha]
    · rw [hn, Nat.mod_eq_of_lt hb]

theorem dispatch_eq_iff {h : UInt64} {l : Fin cfg.numLoadBalancers} {j : Fin cfg.fpsPerLb} :
    dispatch cfg h = (l, j) ↔
      h.toNat % cfg.numLoadBalancers = l ∧ h.toNat % cfg.fpsPerLb = j := by
  rw [dispatch, Prod.mk.injEq, Fin.ext_iff, Fin.ext_iff]

theorem exists_hash_iff {p : ℕ → Prop} : (∃ h : UInt64, p h.toNat) ↔ ∃ n < 2 ^ 64, p n := by
  constructor
  · rintro ⟨h, hp⟩
    exact ⟨h.toNat, h.toNat_lt, hp⟩
  · rintro ⟨n, hn, hp⟩
    refine ⟨.ofNat n, ?_⟩
    rwa [UInt64.toNat_ofNat_of_lt' hn]

theorem reachable_iff (hlcm : cfg.numLoadBalancers.lcm cfg.fpsPerLb ≤ 2 ^ 64)
    (l : Fin cfg.numLoadBalancers) (j : Fin cfg.fpsPerLb) :
    (∃ h, dispatch cfg h = (l, j)) ↔
      (l : ℕ) ≡ j [MOD cfg.numLoadBalancers.gcd cfg.fpsPerLb] := by
  simp only [dispatch_eq_iff]
  rw [exists_hash_iff (p := fun n => n % cfg.numLoadBalancers = l ∧ n % cfg.fpsPerLb = j)]
  exact exists_residues_iff l.isLt j.isLt hlcm

/-- Every processor of every load balancer is the one of some hash value. -/
def EveryFPReachable (cfg : Config) : Prop := ∀ l j, ∃ h, dispatch cfg h = (l, j)

theorem EveryFPReachable.mul_le (h : EveryFPReachable cfg) :
    cfg.numLoadBalancers * cfg.fpsPerLb ≤ 2 ^ 64 := by
  have hsurjective : Function.Surjective fun n : Fin (2 ^ 64) => dispatch cfg (.ofNat n) := by
    rintro ⟨l, j⟩
    obtain ⟨x, hx⟩ := h l j
    refine ⟨⟨x.toNat, x.toNat_lt⟩, ?_⟩
    change dispatch cfg (.ofNat x.toNat) = (l, j)
    rw [UInt64.ofNat_toNat, hx]
  simpa using Fintype.card_le_of_surjective _ hsurjective

/-- All processors get packets if the two numbers share no divisor. -/
theorem everyFPReachable_iff (cfg : Config) :
    EveryFPReachable cfg ↔ cfg.numLoadBalancers.Coprime cfg.fpsPerLb ∧
      cfg.numLoadBalancers * cfg.fpsPerLb ≤ 2 ^ 64 := by
  have hlcm (h : cfg.numLoadBalancers * cfg.fpsPerLb ≤ 2 ^ 64) :
      cfg.numLoadBalancers.lcm cfg.fpsPerLb ≤ 2 ^ 64 :=
    (Nat.le_of_dvd (Nat.mul_pos cfg.numLoadBalancers_pos cfg.fpsPerLb_pos)
      (Nat.lcm_dvd_mul _ _)).trans h
  constructor
  · intro h
    refine ⟨?_, h.mul_le⟩
    obtain ⟨j, hj⟩ : ∃ j : Fin cfg.fpsPerLb, (j : ℕ) = 1 % cfg.fpsPerLb :=
      ⟨⟨_, Nat.mod_lt _ cfg.fpsPerLb_pos⟩, rfl⟩
    have hzero := (reachable_iff (hlcm h.mul_le) ⟨0, cfg.numLoadBalancers_pos⟩ j).mp (h _ j)
    have hone : (j : ℕ) ≡ 1 [MOD cfg.numLoadBalancers.gcd cfg.fpsPerLb] :=
      hj ▸ (Nat.mod_modEq 1 cfg.fpsPerLb).of_dvd (Nat.gcd_dvd_right _ _)
    exact Nat.dvd_one.mp ((Nat.modEq_zero_iff_dvd).mp (hzero.trans hone).symm)
  · rintro ⟨hcoprime, hle⟩ l j
    rw [reachable_iff (hlcm hle), hcoprime.gcd_eq_one]
    exact Nat.modEq_one

/-- With two load balancers of two processors, the second processor of the first gets nothing. -/
theorem idle_processor : ¬ EveryFPReachable {} := by
  intro h
  obtain ⟨x, hx⟩ := h (0 : Fin 2) (1 : Fin 2)
  obtain ⟨hzero, hone⟩ := dispatch_eq_iff.mp hx
  exact absurd (hzero.symm.trans hone) (by decide)

end DPIEngine

end DpiEngine
