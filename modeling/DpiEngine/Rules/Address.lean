import DpiEngine.Library.Bytes
import DpiEngine.Rules.Manager

/-! # Addresses in dotted decimal

A rule names an address by its text. The parser of such texts and the printer
agree with the order in which the packet parser copies the bytes of an address:
the first byte of the wire is the lowest of the number.
-/

namespace DpiEngine

open Traced

structure AddressScan where
  result : UInt32 := 0
  octet : ℕ := 0
  shift : ℕ := 0

namespace AddressScan

/-- Add the octet read so far; a shift by the width of the number is undefined. -/
def addOctet (s : AddressScan) : Option UInt32 :=
  if s.shift < 32 then some (s.result ||| .ofNat s.octet <<< .ofNat s.shift) else none

/-- One character of the text; an octet that overflows `int` is undefined. -/
def next (s : AddressScan) (c : Char) : Option AddressScan :=
  if c = '.' then s.addOctet.map fun result => ⟨result, 0, s.shift + 8⟩
  else if c.isDigit then
    if s.octet * 10 + (c.toNat - 48) < 2 ^ 31 then
      some { s with octet := s.octet * 10 + (c.toNat - 48) }
    else none
  else some s

end AddressScan

def parseIPv4Address (ip : String) : Option UInt32 := do
  let s ← ip.toList.foldlM AddressScan.next {}
  s.addOctet

namespace RuleManager

/-- `blockIP` with the text of an address. -/
def blockIP (rules : RuleManager) (ip : String) : Option RuleManager :=
  (parseIPv4Address ip).map fun addr => { rules with blockedIps := insert addr rules.blockedIps }

def blockIPs (rules : RuleManager) (ips : List String) : Option RuleManager :=
  ips.foldlM blockIP rules

end RuleManager

def dottedDecimal (a b c d : UInt8) : String := s!"{a}.{b}.{c}.{d}"

/-- The text is the canonical one of an address. -/
def IsDottedDecimal (ip : String) : Prop := ∃ a b c d, ip = dottedDecimal a b c d

section Printing

variable (a b c d : UInt8)

theorem be32_octets : be32 d c b a &&& 0xFF = a.toUInt32 ∧
    be32 d c b a >>> 8 &&& 0xFF = b.toUInt32 ∧ be32 d c b a >>> 16 &&& 0xFF = c.toUInt32 ∧
    be32 d c b a >>> 24 &&& 0xFF = d.toUInt32 := by
  have ha := a.toNat_lt
  have hb := b.toNat_lt
  have hc := c.toNat_lt
  have hd := d.toNat_lt
  have hmask (n : ℕ) : n &&& 255 = n % 256 := Nat.and_two_pow_sub_one_eq_mod n 8
  refine ⟨?_, ?_, ?_, ?_⟩ <;> apply UInt32.toNat_inj.mp <;>
    simp only [UInt32.toNat_and, UInt32.toNat_shiftRight, UInt32.reduceToNat, Nat.reduceMod,
      Nat.shiftRight_eq_div_pow, hmask, toNat_be32, UInt8.toNat_toUInt32] <;>
    omega

theorem ipv4ToString_be32 : ipv4ToString (be32 d c b a) = dottedDecimal a b c d := by
  obtain ⟨ha, hb, hc, hd⟩ := be32_octets a b c d
  have hprint (x : UInt8) : toString x.toUInt32 = toString x :=
    congrArg toString x.toNat_toUInt32
  rw [ipv4ToString, ha, hb, hc, hd, hprint, hprint, hprint, hprint]
  rfl

end Printing

namespace AddressScan

theorem le_ofDigitChars (l : List Char) (n : ℕ) : n ≤ Nat.ofDigitChars 10 l n := by
  rw [Nat.ofDigitChars_eq_ofDigitChars_zero]
  exact (Nat.le_mul_of_pos_left _ (Nat.pow_pos (by decide))).trans (Nat.le_add_right _ _)

theorem foldlM_octet_from {g : List Char} (hg : '.' ∉ g) (r : UInt32) {n : ℕ} (hn : n < 2 ^ 31)
    (k : ℕ) :
    g.foldlM next ⟨r, n, k⟩ =
      if Nat.ofDigitChars 10 (g.filter Char.isDigit) n < 2 ^ 31 then
        some ⟨r, Nat.ofDigitChars 10 (g.filter Char.isDigit) n, k⟩
      else none := by
  induction g generalizing n with
  | nil =>
    rw [List.filter_nil, Nat.ofDigitChars_nil, if_pos hn]
    rfl
  | cons c g ih =>
    rw [List.mem_cons, not_or] at hg
    rw [List.foldlM_cons, next, if_neg (Ne.symm hg.1)]
    by_cases hc : c.isDigit = true
    · have hcons : Nat.ofDigitChars 10 ((c :: g).filter Char.isDigit) n =
          Nat.ofDigitChars 10 (g.filter Char.isDigit) (n * 10 + (c.toNat - 48)) := by
        rw [List.filter_cons_of_pos hc, Nat.ofDigitChars_cons, Nat.mul_comm]
        rfl
      rw [if_pos hc, hcons]
      by_cases hlt : n * 10 + (c.toNat - 48) < 2 ^ 31
      · rw [if_pos hlt]
        exact ih hg.2 hlt
      · have hle := le_ofDigitChars (g.filter Char.isDigit) (n * 10 + (c.toNat - 48))
        rw [if_neg hlt, if_neg (by omega)]
        rfl
    · rw [if_neg hc, List.filter_cons_of_neg hc]
      exact ih hg.2 hn

theorem foldlM_octet (r : UInt32) (k : ℕ) (a : UInt8) (l : List Char) :
    ((toString a).toList ++ l).foldlM next ⟨r, 0, k⟩ = l.foldlM next ⟨r, a.toNat, k⟩ := by
  have htext : (toString a).toList = Nat.toDigits 10 a.toNat := Nat.toList_repr
  have hdigits : ∀ c ∈ (toString a).toList, c.isDigit = true := by
    intro c hc
    rw [htext] at hc
    exact Nat.isDigit_of_mem_toDigits (by decide) le_rfl hc
  have hvalue : Nat.ofDigitChars 10 ((toString a).toList.filter Char.isDigit) 0 = a.toNat := by
    rw [List.filter_eq_self.mpr hdigits, htext, Nat.ofDigitChars_toDigits (by decide) le_rfl]
  have hdot : '.' ∉ (toString a).toList := fun hmem => absurd (hdigits _ hmem) (by decide)
  have ha := a.toNat_lt
  rw [List.foldlM_append, foldlM_octet_from hdot r (by decide), hvalue, if_pos (by omega)]
  rfl

theorem addOctet_toNat (r : UInt32) {k : ℕ} (hk : k < 32) (a : UInt8) :
    addOctet ⟨r, a.toNat, k⟩ = some (r ||| a.toUInt32 <<< .ofNat k) := by
  rw [addOctet, if_pos hk, UInt32.ofNat_uInt8ToNat]

theorem foldlM_octet_dot (r : UInt32) {k : ℕ} (hk : k < 32) (a : UInt8) (l : List Char) :
    ((toString a).toList ++ '.' :: l).foldlM next ⟨r, 0, k⟩ =
      l.foldlM next ⟨r ||| a.toUInt32 <<< .ofNat k, 0, k + 8⟩ := by
  rw [foldlM_octet, List.foldlM_cons, next, if_pos rfl, addOctet_toNat r hk]
  rfl

end AddressScan

theorem dottedDecimal_toList (a b c d : UInt8) : (dottedDecimal a b c d).toList =
    (toString a).toList ++ '.' :: ((toString b).toList ++
      '.' :: ((toString c).toList ++ '.' :: ((toString d).toList ++ []))) := by
  have hdot : (toString ".").toList = ['.'] := rfl
  simp [dottedDecimal, hdot]

/-- The text of an address is read as the number whose first byte is lowest. -/
theorem parseIPv4Address_dottedDecimal (a b c d : UInt8) :
    parseIPv4Address (dottedDecimal a b c d) = some (be32 d c b a) := by
  have hscan : (dottedDecimal a b c d).toList.foldlM AddressScan.next {} =
      some ⟨(((0 : UInt32) ||| a.toUInt32 <<< 0) ||| b.toUInt32 <<< 8) ||| c.toUInt32 <<< 16,
        d.toNat, 24⟩ := by
    rw [dottedDecimal_toList, AddressScan.foldlM_octet_dot 0 (by decide),
      AddressScan.foldlM_octet_dot _ (by decide), AddressScan.foldlM_octet_dot _ (by decide),
      AddressScan.foldlM_octet]
    rfl
  rw [parseIPv4Address, hscan, Option.bind_eq_bind, Option.bind_some,
    AddressScan.addOctet_toNat _ (by decide), be32, UInt32.zero_or, UInt32.shiftLeft_zero]
  have hor (w x y z : UInt32) : w ||| x ||| y ||| z = z ||| y ||| x ||| w := by ac_rfl
  exact congrArg some (hor _ _ _ _)

/-- An address is read back from its text. -/
theorem parseIPv4Address_ipv4ToString (addr : UInt32) :
    parseIPv4Address (ipv4ToString addr) = some addr := by
  rw [← be32_bytes addr, ipv4ToString_be32, parseIPv4Address_dottedDecimal]

theorem IsDottedDecimal.exists_address {ip : String} (h : IsDottedDecimal ip) :
    ∃ addr, parseIPv4Address ip = some addr ∧ ∀ addr', ipv4ToString addr' = ip ↔ addr' = addr := by
  obtain ⟨a, b, c, d, rfl⟩ := h
  refine ⟨be32 d c b a, parseIPv4Address_dottedDecimal a b c d, fun addr' => ?_⟩
  constructor
  · intro heq
    have hparse := parseIPv4Address_ipv4ToString addr'
    rw [heq, parseIPv4Address_dottedDecimal] at hparse
    exact (Option.some.inj hparse).symm
  · rintro rfl
    exact ipv4ToString_be32 a b c d

namespace RuleManager

/-- The rules block the addresses with these texts besides those of `rules`. -/
structure Blocks (rules : RuleManager) (ips : List String) (rules' : RuleManager) : Prop where
  isIPBlocked : ∀ addr, rules'.isIPBlocked addr = true ↔
    rules.isIPBlocked addr = true ∨ ipv4ToString addr ∈ ips
  rest : { rules' with blockedIps := rules.blockedIps } = rules

/-- Canonical texts are blocked as the addresses they name, and nothing else is. -/
theorem blockIPs_blocks {ips : List String} (hips : ∀ ip ∈ ips, IsDottedDecimal ip)
    (rules : RuleManager) :
    ∃ rules', rules.blockIPs ips = some rules' ∧ rules.Blocks ips rules' := by
  induction ips generalizing rules with
  | nil => exact ⟨rules, rfl, by simp, rfl⟩
  | cons ip ips ih =>
    obtain ⟨addr, hparse, hprint⟩ := (hips ip List.mem_cons_self).exists_address
    obtain ⟨rules', hblock, hblocks⟩ := ih (fun ip h => hips ip (List.mem_cons_of_mem _ h))
      { rules with blockedIps := insert addr rules.blockedIps }
    refine ⟨rules', ?_, ?_, ?_⟩
    · rw [blockIPs, List.foldlM_cons, blockIP, hparse]
      exact hblock
    · intro addr'
      rw [hblocks.isIPBlocked, List.mem_cons, hprint]
      simp only [isIPBlocked, Finset.mem_insert, decide_eq_true_eq]
      tauto
    · have hrest := hblocks.rest
      exact congrArg (fun r => { r with blockedIps := rules.blockedIps }) hrest

end RuleManager

end DpiEngine
