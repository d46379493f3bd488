import DpiEngine.Packet.Bounds

/-! # Chains of extension headers

The extension headers of an IPv6 frame form a chain: each names the kind of the
next and determines where it starts. The walk follows the chain to the transport
header. It stops at a cut header and at a later fragment, which it reports, and
after ten headers, which it does not.
-/

namespace DpiEngine

open Traced

namespace PacketParser

variable {data : List UInt8} {parsed p : ParsedPacket} {n o o' : ℕ} {nextHdr nextHdr' : UInt8}

/-- The length of an extension header of the kind `nextHdr` at `o`. -/
def extHeaderLength (data : List UInt8) (o : ℕ) (nextHdr : UInt8) : ℕ :=
  if nextHdr = Protocol.fragment then 8 else extHdrTotal nextHdr (byteAt data (o + 1))

def fragmentOffset (data : List UInt8) (o : ℕ) : ℕ := (wordAt data (o + 2) &&& 0xFFF8) >>> 3

/-- A whole extension header that does not belong to a later fragment. -/
structure ExtHeaderAt (data : List UInt8) (o : ℕ) (nextHdr : UInt8) : Prop where
  isExtHeader : isExtHeader nextHdr = true
  fits : o + extHeaderLength data o nextHdr ≤ data.length
  first : nextHdr = Protocol.fragment → fragmentOffset data o = 0

/-- A chain of `n` extension headers, from the kind and offset of the first to behind the last. -/
inductive ExtChain (data : List UInt8) : ℕ → ℕ → UInt8 → ℕ → UInt8 → Prop
  | nil (o : ℕ) (nextHdr : UInt8) : ExtChain data 0 o nextHdr o nextHdr
  | cons {n o o' : ℕ} {nextHdr nextHdr' : UInt8} : ExtHeaderAt data o nextHdr →
      ExtChain data n (o + extHeaderLength data o nextHdr) (byteAt data o) o' nextHdr' →
      ExtChain data (n + 1) o nextHdr o' nextHdr'

theorem eight_le_extHdrTotal (nextHdr hdrExtLen : UInt8) : 8 ≤ extHdrTotal nextHdr hdrExtLen := by
  unfold extHdrTotal
  split_ifs <;> omega

theorem markExtHeader_unsupported (parsed : ParsedPacket) (nextHdr : UInt8) :
    (markExtHeader parsed nextHdr).ipv6ExtUnsupported = parsed.ipv6ExtUnsupported := by
  unfold markExtHeader
  split_ifs <;> rfl

theorem walkHeader_cases (data : List UInt8) (o : ℕ) (parsed : ParsedPacket)
    (hext : isExtHeader nextHdr = true) :
    (ExtHeaderAt data o nextHdr ∧ (walkHeader data o nextHdr parsed).value =
        some (.next (o + extHeaderLength data o nextHdr) (byteAt data o)
          (markExtHeader parsed nextHdr))) ∨
      ¬ ExtHeaderAt data o nextHdr ∧ ∃ o' p, (walkHeader data o nextHdr parsed).value =
        some (.stop o' p) ∧ p.ipv6ExtUnsupported = true := by
  unfold walkHeader
  by_cases hfrag : nextHdr = Protocol.fragment
  · have hlen : extHeaderLength data o nextHdr = 8 := if_pos hfrag
    rw [if_pos hfrag, value_walkFragment, hlen]
    split_ifs with hfit hlater
    · refine .inr ⟨fun h => ?_, _, _, rfl, rfl⟩
      have := h.fits
      omega
    · refine .inr ⟨fun h => ?_, _, _, rfl, rfl⟩
      exact hlater.ne' (h.first hfrag)
    · exact .inl ⟨⟨hext, by omega, fun _ => Nat.eq_zero_of_not_pos hlater⟩, rfl⟩
  · have hlen : extHeaderLength data o nextHdr = extHdrTotal nextHdr (byteAt data (o + 1)) :=
      if_neg hfrag
    have hmin := eight_le_extHdrTotal nextHdr (byteAt data (o + 1))
    rw [if_neg hfrag, value_walkVariable, hlen]
    split_ifs with hshort hfit
    · refine .inr ⟨fun h => ?_, _, _, rfl, rfl⟩
      have := h.fits
      omega
    · refine .inr ⟨fun h => ?_, _, _, rfl, rfl⟩
      have := h.fits
      omega
    · exact .inl ⟨⟨hext, by omega, fun h => absurd h hfrag⟩, rfl⟩

/-- The walk follows a chain, and the packet stays without a report. -/
theorem walkIPv6ExtHeaders_chain (h : ExtChain data n o nextHdr o' nextHdr') (count : ℕ)
    (parsed : ParsedPacket) : ∃ parsed',
      parsed'.ipv6ExtUnsupported = parsed.ipv6ExtUnsupported ∧
      (walkIPv6ExtHeaders data (n + count) o nextHdr parsed).value =
        (walkIPv6ExtHeaders data count o' nextHdr' parsed').value := by
  induction h generalizing parsed with
  | nil o nextHdr => exact ⟨parsed, rfl, by rw [Nat.zero_add]⟩
  | @cons n o o' nextHdr nextHdr' hat _ ih =>
    obtain ⟨parsed', hsame, hwalk⟩ := ih (markExtHeader parsed nextHdr)
    refine ⟨parsed', hsame.trans (markExtHeader_unsupported parsed nextHdr), ?_⟩
    rw [← hwalk, Nat.add_right_comm, walkIPv6ExtHeaders, if_pos hat.isExtHeader, value_bind]
    rcases walkHeader_cases data o parsed hat.isExtHeader with ⟨-, hstep⟩ | ⟨hnot, -⟩
    · rw [hstep]
      rfl
    · exact absurd hat hnot

theorem walkIPv6ExtHeaders_unsupported {count : ℕ} (hp : parsed.ipv6ExtUnsupported = true)
    (h : (walkIPv6ExtHeaders data count o nextHdr parsed).value = some (nextHdr', o', p)) :
    p.ipv6ExtUnsupported = true := by
  refine walkIPv6ExtHeaders_keeps (P := fun _ q => q.ipv6ExtUnsupported = true) ?_ hp h
  rintro o nextHdr q step hext hq hstep
  rcases walkHeader_cases data o q hext with ⟨-, hcase⟩ | ⟨-, offset, q', hcase, hreport⟩
  · rw [hcase] at hstep
    cases hstep
    exact (markExtHeader_unsupported q nextHdr).trans hq
  · rw [hcase] at hstep
    cases hstep
    exact hreport

/-- The walk reports that it stopped, or it is behind a chain; at a further header the rounds
are used up. -/
theorem walkIPv6ExtHeaders_ends {count : ℕ}
    (h : (walkIPv6ExtHeaders data count o nextHdr parsed).value = some (nextHdr', o', p)) :
    p.ipv6ExtUnsupported = true ∨ ∃ n, ExtChain data n o nextHdr o' nextHdr' ∧
      (isExtHeader nextHdr' = true → n = count) := by
  induction count generalizing o nextHdr parsed with
  | zero =>
    cases h
    exact .inr ⟨0, .nil _ _, fun _ => rfl⟩
  | succ count ih =>
    unfold walkIPv6ExtHeaders at h
    split_ifs at h with hext
    · rcases walkHeader_cases data o parsed hext with
        ⟨hat, hstep⟩ | ⟨-, offset, q, hstep, hreport⟩
      · rw [value_bind, hstep, Option.bind_some] at h
        rcases ih h with hreport | ⟨n, hchain, hcount⟩
        · exact .inl hreport
        · exact .inr ⟨n + 1, .cons hat hchain, fun hmore => congrArg (· + 1) (hcount hmore)⟩
      · rw [value_bind, hstep, Option.bind_some] at h
        cases h
        exact .inl hreport
    · cases h
      exact .inr ⟨0, .nil _ _, fun hmore => absurd hmore hext⟩

/--
The walk from `o` either reports, or it has the kind of something else than an extension header
and the offset behind the chain of extension headers.
-/
def Resolves (data : List UInt8) (o : ℕ) (nextHdr : UInt8)
    (x : Traced (UInt8 × ℕ × ParsedPacket)) : Prop :=
  ∃ nextHdr' o' p, x.value = some (nextHdr', o', p) ∧ (p.ipv6ExtUnsupported = true ∨
    isExtHeader nextHdr' = false ∧ ∃ n, ExtChain data n o nextHdr o' nextHdr')

/-- Another extension header follows ten whole ones. -/
def Overlong (data : List UInt8) (o : ℕ) (nextHdr : UInt8) : Prop :=
  ∃ o' nextHdr', ExtChain data maxExtHeaders o nextHdr o' nextHdr' ∧ isExtHeader nextHdr' = true

/-- The walk resolves the transport protocol or reports that it did not, but for overlong chains. -/
theorem walkIPv6ExtHeaders_resolves_iff (data : List UInt8) (o : ℕ) (nextHdr : UInt8)
    (parsed : ParsedPacket) :
    Resolves data o nextHdr (walkIPv6ExtHeaders data maxExtHeaders o nextHdr parsed) ↔
      parsed.ipv6ExtUnsupported = true ∨ ¬ Overlong data o nextHdr := by
  constructor
  · rintro ⟨nextHdr', o', p, hwalk, hres⟩
    by_contra hn
    rw [not_or, not_not] at hn
    obtain ⟨hreport, offset, nh, hchain, hmore⟩ := hn
    obtain ⟨parsed', hsame, hend⟩ := walkIPv6ExtHeaders_chain hchain 0 parsed
    rw [Nat.add_zero, hwalk] at hend
    cases hend
    rcases hres with hp | ⟨hdone, -⟩
    · exact hreport (hsame.symm.trans hp)
    · exact absurd (hmore.symm.trans hdone) (by decide)
  · intro hcond
    obtain ⟨⟨nextHdr', o', p⟩, hwalk⟩ :=
      (walkIPv6ExtHeaders_safe data maxExtHeaders o nextHdr parsed).exists_value
    refine ⟨nextHdr', o', p, hwalk, ?_⟩
    rcases hcond with hreport | hshort
    · exact .inl (walkIPv6ExtHeaders_unsupported hreport hwalk)
    · rcases walkIPv6ExtHeaders_ends hwalk with hreport | ⟨n, hchain, hcount⟩
      · exact .inl hreport
      · refine .inr ⟨?_, n, hchain⟩
        by_contra hmore
        rw [Bool.not_eq_false] at hmore
        exact hshort ⟨o', nextHdr', hcount hmore ▸ hchain, hmore⟩

/-- Ten hop-by-hop headers before an eleventh: the walk returns it without a report. -/
theorem walkIPv6ExtHeaders_silent : ∃ p,
    (walkIPv6ExtHeaders (List.replicate 88 0) maxExtHeaders 0 Protocol.hopByHop {}).value =
      some (Protocol.hopByHop, 80, p) ∧ p.ipv6ExtUnsupported = false :=
  ⟨_, rfl, rfl⟩

end PacketParser

end DpiEngine
