import DpiEngine.Rules.Operations
import Mathlib.Data.List.TakeWhile

/-! # The texts of rules

Each kind of rule is written as one line and read back from it: addresses in
dotted decimal, applications by their names, ports in decimal.
-/

namespace DpiEngine

namespace RuleManager

structure IsRuleLine (line : Name) : Prop where
  newline_not_mem : newline ∉ line
  isEmpty_eq : line.isEmpty = false
  head?_ne : line.head? ≠ some 0x5B

theorem latin1_ascii {s : String} (h : ∀ c ∈ s.toList, c.toNat < 256) : latin1 (ascii s) = s := by
  have hmap : (ascii s).map (fun b => Char.ofNat b.toNat) = s.toList := by
    rw [ascii, List.map_map]
    conv_rhs => rw [← List.map_id s.toList]
    apply List.map_congr_left
    intro c hc
    have hc := h c hc
    simp only [Function.comp, UInt8.toNat_ofNat']
    rw [Nat.mod_eq_of_lt hc, Char.ofNat_toNat]
    rfl
  rw [latin1, hmap, String.ofList_toList]

section Digits

theorem digit_byte {c : Char} (h : c.isDigit = true) :
    48 ≤ c.toNat ∧ c.toNat ≤ 57 ∧ (UInt8.ofNat c.toNat).toNat = c.toNat := by
  obtain ⟨hlow, hhigh⟩ := Char.isDigit_iff_toNat.mp h
  have hlow' : 48 ≤ c.toNat := hlow
  have hhigh' : c.toNat ≤ 57 := hhigh
  refine ⟨hlow', hhigh', ?_⟩
  rw [UInt8.toNat_ofNat']
  omega

theorem isRuleLine_ascii {s : String} {c : Char} {t : List Char} (h : s.toList = c :: t)
    (hc : c.isDigit = true) (hall : ∀ c ∈ s.toList, c = '.' ∨ c.isDigit = true) :
    IsRuleLine (ascii s) := by
  have hcons : ascii s = .ofNat c.toNat :: t.map fun c => .ofNat c.toNat := by rw [ascii, h]; rfl
  have hne {c : Char} {b : UInt8} (hc : c.isDigit = true) (hb : b.toNat < 48 ∨ 57 < b.toNat) :
      UInt8.ofNat c.toNat ≠ b := by
    obtain ⟨hlow, hhigh, hbyte⟩ := digit_byte hc
    rintro rfl
    omega
  constructor
  · intro hmem
    obtain ⟨c, hc, heq⟩ := List.mem_map.mp hmem
    rcases hall c hc with rfl | hdigit
    · exact absurd heq (by decide)
    · exact hne hdigit (by decide) heq
  · rw [hcons]
    rfl
  · rw [hcons, List.head?_cons, ne_eq, Option.some.injEq]
    exact hne hc (by decide)

theorem toString_digits (n : ℕ) : (toString n).toList = Nat.toDigits 10 n := Nat.toList_repr

theorem isDigit_of_mem_toString {n : ℕ} {c : Char} (h : c ∈ (toString n).toList) :
    c.isDigit = true := by
  rw [toString_digits] at h
  exact Nat.isDigit_of_mem_toDigits (by decide) le_rfl h

theorem exists_cons_toString (n : ℕ) :
    ∃ c t, (toString n).toList = c :: t ∧ c.isDigit = true := by
  have hne : (toString n).toList ≠ [] := by
    rw [toString_digits]
    exact Nat.toDigits_ne_nil
  obtain ⟨c, t, h⟩ := List.exists_cons_of_ne_nil hne
  exact ⟨c, t, h, isDigit_of_mem_toString (h ▸ List.mem_cons_self)⟩

theorem isDigit_byte {c : Char} (h : c.isDigit = true) :
    isDigit (.ofNat c.toNat) = true ∧ isSpace (.ofNat c.toNat) = false ∧
      UInt8.ofNat c.toNat ≠ 0x2D ∧ UInt8.ofNat c.toNat ≠ 0x2B := by
  obtain ⟨hlow, hhigh, hbyte⟩ := digit_byte h
  have hne {b : UInt8} (hb : b.toNat < 48) : UInt8.ofNat c.toNat ≠ b := by
    rintro rfl
    omega
  refine ⟨?_, ?_, hne (by decide), hne (by decide)⟩
  · simp only [isDigit, Bool.and_eq_true, decide_eq_true_eq, UInt8.le_iff_toNat_le, hbyte]
    exact ⟨hlow, hhigh⟩
  · simp only [isSpace, Bool.or_eq_false_iff, Bool.and_eq_false_iff, decide_eq_false_iff_not,
      UInt8.le_iff_toNat_le, hbyte]
    refine ⟨hne (by decide), .inr ?_⟩
    have h13 : (0x0D : UInt8).toNat = 13 := rfl
    omega

theorem decimalValue_digits {l : List Char} (h : ∀ c ∈ l, c.isDigit = true) :
    decimalValue (l.map fun c => .ofNat c.toNat) = Nat.ofDigitChars 10 l 0 := by
  have hfold (n : ℕ) : (l.map fun c => UInt8.ofNat c.toNat).foldl
      (fun n c => n * 10 + (c.toNat - 0x30)) n = Nat.ofDigitChars 10 l n := by
    induction l generalizing n with
    | nil => rfl
    | cons c l ih =>
      rw [List.forall_mem_cons] at h
      rw [List.map_cons, List.foldl_cons, ih h.2, (digit_byte h.1).2.2, Nat.ofDigitChars_cons,
        Nat.mul_comm]
      rfl
  exact hfold 0

theorem digits_toString (n : ℕ) : ∃ b t, ascii (toString n) = b :: t ∧ isSpace b = false ∧
    b ≠ 0x2D ∧ b ≠ 0x2B ∧ (b :: t).takeWhile isDigit = b :: t ∧ decimalValue (b :: t) = n := by
  obtain ⟨c, t, hcons, hc⟩ := exists_cons_toString n
  obtain ⟨-, hspace, hminus, hplus⟩ := isDigit_byte hc
  have hascii : ascii (toString n) = .ofNat c.toNat :: t.map fun c => .ofNat c.toNat := by
    rw [ascii, hcons]
    rfl
  have hdigits : ∀ b ∈ ascii (toString n), isDigit b = true := by
    rintro b hb
    obtain ⟨c, hc, rfl⟩ := List.mem_map.mp hb
    exact (isDigit_byte (isDigit_of_mem_toString hc)).1
  refine ⟨_, _, hascii, hspace, hminus, hplus, ?_, ?_⟩
  · rw [← hascii]
    exact List.takeWhile_eq_self_iff.mpr hdigits
  · rw [← hascii, ascii, decimalValue_digits (fun c hc => isDigit_of_mem_toString hc),
      toString_digits, Nat.ofDigitChars_toDigits (by decide) le_rfl]

/-- A number is read from its text if it fits an `int`. -/
theorem stoi_toString_int (n : ℤ) :
    stoi (ascii (toString n)) = if -2 ^ 31 ≤ n ∧ n < 2 ^ 31 then some n else none := by
  cases n with
  | ofNat n =>
    obtain ⟨b, t, htext, hspace, hminus, hplus, htake, hvalue⟩ := digits_toString n
    have htext : ascii (toString (Int.ofNat n)) = b :: t := htext
    rw [stoi, htext]
    simp [hspace, hminus, hplus, htake, hvalue]
  | negSucc n =>
    obtain ⟨b, t, htext, hspace, hminus, hplus, htake, hvalue⟩ := digits_toString (n + 1)
    have htext : ascii (toString (Int.negSucc n)) = 0x2D :: b :: t := by
      rw [← htext, show toString (Int.negSucc n) = "-" ++ toString (n + 1) from rfl, ascii,
        String.toList_append, List.map_append]
      rfl
    have hsign : isSpace 0x2D = false := rfl
    rw [stoi, htext]
    simp [hsign, htake, hvalue, Int.negSucc_eq]

theorem stoi_toString {n : ℕ} (h : n < 2 ^ 31) : stoi (ascii (toString n)) = some (n : ℤ) := by
  have hint := stoi_toString_int n
  rwa [if_pos (by omega)] at hint

end Digits

section Loading

variable (rules : RuleManager)

theorem ipv4ToString_chars (ip : UInt32) :
    (∀ c ∈ (ipv4ToString ip).toList, c = '.' ∨ c.isDigit = true) ∧
      ∃ c t, (ipv4ToString ip).toList = c :: t ∧ c.isDigit = true := by
  have hbyte (a : UInt8) : (toString a).toList = (toString a.toNat).toList := rfl
  rw [← Traced.be32_bytes ip, ipv4ToString_be32, dottedDecimal_toList]
  constructor
  · rintro c hc
    simp only [List.mem_append, List.mem_cons, List.not_mem_nil, or_false, hbyte] at hc
    rcases hc with h | rfl | h | rfl | h | rfl | h
    · exact .inr (isDigit_of_mem_toString h)
    · exact .inl rfl
    · exact .inr (isDigit_of_mem_toString h)
    · exact .inl rfl
    · exact .inr (isDigit_of_mem_toString h)
    · exact .inl rfl
    · exact .inr (isDigit_of_mem_toString h)
  · obtain ⟨c, t, hcons, hc⟩ := exists_cons_toString ip.toUInt8.toNat
    rw [hbyte, hcons]
    exact ⟨c, _, rfl, hc⟩

theorem isRuleLine_ip (ip : UInt32) : IsRuleLine (ascii (ipv4ToString ip)) := by
  obtain ⟨hall, c, t, hcons, hc⟩ := ipv4ToString_chars ip
  exact isRuleLine_ascii hcons hc hall

theorem blockIP_text (ip : UInt32) :
    rules.blockIP (latin1 (ascii (ipv4ToString ip))) = some (rules.blockAddress ip) := by
  have hchars : ∀ c ∈ (ipv4ToString ip).toList, c.toNat < 256 := by
    rintro c hc
    rcases (ipv4ToString_chars ip).1 c hc with rfl | hdigit
    · decide
    · have h := (digit_byte hdigit).2.1
      omega
  rw [latin1_ascii hchars, blockIP, parseIPv4Address_ipv4ToString]
  rfl

theorem isRuleLine_app (app : AppType) : IsRuleLine (ascii (appTypeToString app)) := by
  cases app <;> exact ⟨by decide, rfl, by decide⟩

theorem appTypeToString_inj {a b : AppType}
    (h : ascii (appTypeToString a) = ascii (appTypeToString b)) : a = b := by
  revert h
  cases a <;> cases b <;> decide

theorem find?_appTypes (app : AppType) :
    (appTypes.find? fun a => ascii (appTypeToString a) = ascii (appTypeToString app)) =
      some app := by
  cases h : appTypes.find? fun a => ascii (appTypeToString a) = ascii (appTypeToString app) with
  | none =>
    have hmem : app ∈ appTypes := by cases app <;> decide
    have hfalse := List.find?_eq_none.mp h app hmem
    simp at hfalse
  | some a =>
    have hname := List.find?_some h
    rw [appTypeToString_inj (of_decide_eq_true hname)]

theorem isRuleLine_port (port : UInt16) : IsRuleLine (ascii (toString port)) := by
  obtain ⟨c, t, hcons, hc⟩ := exists_cons_toString port.toNat
  exact isRuleLine_ascii hcons hc fun c hc => .inr (isDigit_of_mem_toString hc)

theorem stoi_port (port : UInt16) :
    (stoi (ascii (toString port))).map (fun n => UInt16.ofInt n) = some port := by
  have hlt := port.toNat_lt
  have h : stoi (ascii (toString port.toNat)) = some (port.toNat : ℤ) :=
    stoi_toString (by omega)
  have hcast : UInt16.ofInt (port.toNat : ℤ) = port := by
    have hmod : ((port.toNat : ℤ) % 2 ^ 16).toNat = port.toNat := by omega
    rw [UInt16.ofInt, hmod, UInt16.ofNat_toNat]
  have htext : toString port = toString port.toNat := rfl
  rw [htext, h, Option.map_some, hcast]

end Loading

end RuleManager

end DpiEngine
