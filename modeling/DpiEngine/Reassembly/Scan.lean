import DpiEngine.Reassembly.Model

/-! # Memory safety of the ClientHello scan

The scan checks how many bytes remain before it reads a length field, but not
that the vector of that length remains. It stays inside the buffer exactly if
the session id, the cipher suites and the compression methods end inside it.
-/

namespace DpiEngine.ClientHello

open Traced

variable {buf : List UInt8} {p extDataLen extEnd remaining : ℕ}

theorem scanServerName_safe (h : p + extDataLen ≤ buf.length) :
    (scanServerName buf p extDataLen).Safe := by
  apply safe_when; intro hlen
  apply safe_read16_bind (by omega); intro listLen
  apply safe_when; intro _
  apply safe_read_bind (by omega); intro nameType
  apply safe_when; intro _
  apply safe_read16_bind (by omega); intro nameLen
  apply safe_when; intro hname
  apply safe_readBytes_bind (by omega); intro name
  exact safe_pure _

theorem scanExtension_safe (h : extEnd ≤ buf.length) (p extType extDataLen : ℕ) :
    (scanExtension buf extEnd p extType extDataLen).Safe := by
  apply safe_when; intro hext
  exact scanServerName_safe (by omega)

theorem scanExtensions_safe (h : extEnd ≤ buf.length) (fuel p : ℕ) :
    (scanExtensions buf extEnd fuel p).Safe := by
  induction fuel generalizing p with
  | zero => exact safe_pure _
  | succ fuel ih =>
    apply safe_when; intro hp
    apply safe_read16_bind (by omega); intro extType
    apply safe_read16_bind (by omega); intro extDataLen
    apply (scanExtension_safe h _ _ _).andThen; intro name _
    cases name with
    | some sni => exact safe_pure _
    | none => exact ih _

theorem scanExtensionBlock_safe (h : p + remaining = buf.length) :
    (scanExtensionBlock buf p remaining).Safe := by
  apply safe_when; intro hr
  apply safe_read16_bind (by omega); intro extLen
  apply (safe_sub.mpr (by omega)).andThen; intro rest hrest
  rw [value_sub_of_le (by omega), Option.some.injEq] at hrest
  exact scanExtensions_safe (by omega) _ _

/-- The compression methods announced at `p` end inside the buffer. -/
def CompressionMethodsFit (buf : List UInt8) (p : ℕ) : Prop :=
  1 < buf.length - p → 1 + (byteAt buf p).toNat ≤ buf.length - p

/-- The cipher suites announced at `p` end inside the buffer, and so does what follows. -/
def CipherSuitesFit (buf : List UInt8) (p : ℕ) : Prop :=
  2 < buf.length - p → 2 + wordAt buf p ≤ buf.length - p ∧
    CompressionMethodsFit buf (p + (2 + wordAt buf p))

/-- The session id announced at `p` ends inside the buffer, and so does what follows. -/
def SessionIdFits (buf : List UInt8) (p : ℕ) : Prop :=
  0 < buf.length - p → 1 + (byteAt buf p).toNat ≤ buf.length - p ∧
    CipherSuitesFit buf (p + (1 + (byteAt buf p).toNat))

/-- The buffer starts with a complete TLS record that holds the fixed part of a ClientHello. -/
def HasClientHello (buf : List UInt8) : Prop :=
  byteAt buf 0 = 0x16 ∧ byteAt buf 1 = 0x03 ∧ 5 + wordAt buf 3 ≤ buf.length ∧
    byteAt buf 5 = 0x01 ∧ 43 < buf.length

/-- Whatever ClientHello the buffer holds, its length fields stay inside the buffer. -/
def LengthsFit (buf : List UInt8) : Prop := HasClientHello buf → SessionIdFits buf 43

instance : DecidablePred (CompressionMethodsFit buf) := fun _ => inferInstanceAs (Decidable (_ → _))
instance : DecidablePred (CipherSuitesFit buf) := fun _ => inferInstanceAs (Decidable (_ → _ ∧ _))
instance : DecidablePred (SessionIdFits buf) := fun _ => inferInstanceAs (Decidable (_ → _ ∧ _))
instance : DecidablePred HasClientHello := fun _ => inferInstanceAs (Decidable (_ ∧ _))
instance : DecidablePred LengthsFit := fun _ => inferInstanceAs (Decidable (_ → _))

theorem safe_skip {α β : Type} {x : Traced α} {a : α} {k : ℕ} {f : α → ℕ → Traced β} {g : α → ℕ}
    (hx : x.Safe) (ha : x.value = some a) (hk : g a = k) :
    (x >>= fun a => sub remaining (g a) >>= f a).Safe ↔
      k ≤ remaining ∧ (k ≤ remaining → (f a (remaining - k)).Safe) := by
  subst hk
  simp only [safe_bind, hx, ha, true_and, Option.some.injEq, forall_eq', safe_sub, value_sub]
  refine and_congr_right fun h => ?_
  rw [Machine.sizeSub_eq h]
  exact (imp_iff_right h).symm

theorem scanCompressionMethods_safe_iff (h : p + remaining = buf.length) :
    (scanCompressionMethods buf p remaining).Safe ↔ CompressionMethodsFit buf p := by
  obtain rfl : remaining = buf.length - p := by omega
  unfold scanCompressionMethods CompressionMethodsFit
  split_ifs with hr
  · rw [safe_skip (safe_read.mpr (by omega)) (value_read_of_lt (by omega)) rfl, imp_iff_right hr]
    exact and_iff_left fun hk => scanExtensionBlock_safe (by omega)
  · exact iff_of_true (safe_pure _) fun h => absurd h hr

theorem scanCipherSuites_safe_iff (h : p + remaining = buf.length) :
    (scanCipherSuites buf p remaining).Safe ↔ CipherSuitesFit buf p := by
  obtain rfl : remaining = buf.length - p := by omega
  unfold scanCipherSuites CipherSuitesFit
  split_ifs with hr
  · rw [safe_skip (safe_read16.mpr (by omega)) (value_read16_of_lt (by omega)) rfl,
      imp_iff_right hr]
    refine and_congr_right fun hk => ?_
    rw [imp_iff_right hk]
    exact scanCompressionMethods_safe_iff (by omega)
  · exact iff_of_true (safe_pure _) fun h => absurd h hr

theorem scanSessionId_safe_iff (h : p + remaining = buf.length) :
    (scanSessionId buf p remaining).Safe ↔ SessionIdFits buf p := by
  obtain rfl : remaining = buf.length - p := by omega
  unfold scanSessionId SessionIdFits
  split_ifs with hr
  · rw [safe_skip (safe_read.mpr (by omega)) (value_read_of_lt (by omega)) rfl, imp_iff_right hr]
    refine and_congr_right fun hk => ?_
    rw [imp_iff_right hk]
    exact scanCipherSuites_safe_iff (by omega)
  · exact iff_of_true (safe_pure _) fun h => absurd h hr

theorem scanHandshake_safe_iff (h : p + remaining = buf.length) :
    (scanHandshake buf p remaining).Safe ↔
      (byteAt buf p = 0x01 → p + 38 < buf.length → SessionIdFits buf (p + 38)) := by
  unfold scanHandshake
  split_ifs with hr
  · simp only [safe_bind, safe_read, show p < buf.length by omega, true_and,
      value_read_of_lt (show p < buf.length by omega), Option.some.injEq, forall_eq']
    split_ifs with ht
    · rw [imp_iff_right ht.1, imp_iff_right (by omega), safe_bind, safe_sub,
        value_sub_of_le (by omega)]
      simp only [Option.some.injEq, forall_eq', show 38 ≤ remaining by omega, true_and]
      exact scanSessionId_safe_iff (by omega)
    · exact iff_of_true (safe_pure _) fun h₁ h₂ => absurd ⟨h₁, by omega⟩ ht
  · exact iff_of_true (safe_pure _) fun _ h₂ => absurd h₂ (by omega)

/-- The scan stays in range exactly if the length fields of a ClientHello do. -/
theorem scan_safe_iff (buf : List UInt8) : (scan buf).Safe ↔ LengthsFit buf := by
  unfold scan LengthsFit HasClientHello
  split_ifs with h₅
  · have h (i : ℕ) (hi : i < 5) : i < buf.length := by omega
    simp only [safe_bind, safe_read, h, value_read_of_lt, true_and, Option.some.injEq,
      forall_eq', Nat.reduceLT]
    split_ifs with h₀
    · simp only [safe_bind, safe_read, h, value_read_of_lt, true_and, Option.some.injEq,
        forall_eq', Nat.reduceLT]
      split_ifs with h₁
      · simp only [safe_bind, safe_read16, h, value_read16_of_lt, true_and, Option.some.injEq,
          forall_eq', Nat.reduceLT, Nat.reduceAdd]
        split_ifs with hlen
        · rw [safe_bind, safe_sub, value_sub_of_le h₅]
          simp only [Option.some.injEq, forall_eq', h₅, true_and]
          rw [scanHandshake_safe_iff (by omega)]
          simp only [h₀, h₁, true_and, and_imp]
          exact (imp_iff_right hlen).symm
        · exact iff_of_true (safe_pure _) fun h => absurd h.2.2.1 hlen
      · exact iff_of_true (safe_pure _) fun h => absurd h.2.1 h₁
    · exact iff_of_true (safe_pure _) fun h => absurd h.1 h₀
  · exact iff_of_true (safe_pure _) fun h => absurd h.2.2.2.2 (by omega)

theorem value_sub_wraps {k : ℕ} (h : remaining < k) (hk : k < 2 ^ 32) :
    ∃ rest, (sub remaining k).value = some rest ∧ 2 < rest := by
  refine ⟨remaining + 2 ^ 64 - k, ?_, by omega⟩
  rw [value_sub, Machine.sizeSub, if_neg (by omega)]

theorem scanExtensionBlock_undefined (hp : buf.length ≤ p) (hr : 2 < remaining) :
    (scanExtensionBlock buf p remaining).value = none := by
  rw [scanExtensionBlock, if_pos hr, value_bind, read16, value_bind, value_read,
    List.getElem?_eq_none hp]
  rfl

theorem scanCompressionMethods_undefined (h : p + remaining = buf.length)
    (hfit : ¬ CompressionMethodsFit buf p) :
    (scanCompressionMethods buf p remaining).value = none := by
  obtain rfl : remaining = buf.length - p := by omega
  obtain ⟨hr, hk⟩ := Classical.not_imp.mp hfit
  have hlt := (byteAt buf p).toNat_lt
  obtain ⟨rest, hrest, hgt⟩ := value_sub_wraps (not_le.mp hk) (by omega)
  rw [scanCompressionMethods, if_pos hr, value_read_bind_of_lt (by omega), value_bind, hrest]
  exact scanExtensionBlock_undefined (by omega) hgt

theorem scanCipherSuites_undefined (h : p + remaining = buf.length)
    (hfit : ¬ CipherSuitesFit buf p) : (scanCipherSuites buf p remaining).value = none := by
  obtain rfl : remaining = buf.length - p := by omega
  obtain ⟨hr, hfit⟩ := Classical.not_imp.mp hfit
  rw [scanCipherSuites, if_pos hr, value_read16_bind_of_lt (by omega), value_bind]
  by_cases hk : 2 + wordAt buf p ≤ buf.length - p
  · rw [value_sub_of_le hk]
    exact scanCompressionMethods_undefined (by omega) fun hc => hfit ⟨hk, hc⟩
  · have hlt := wordAt_lt buf p
    obtain ⟨rest, hrest, hgt⟩ := value_sub_wraps (not_le.mp hk) (by omega)
    rw [hrest, Option.bind_some, scanCompressionMethods, if_pos (by omega), value_bind, value_read,
      List.getElem?_eq_none (by omega)]
    rfl

theorem scanSessionId_undefined (h : p + remaining = buf.length) (hfit : ¬ SessionIdFits buf p) :
    (scanSessionId buf p remaining).value = none := by
  obtain rfl : remaining = buf.length - p := by omega
  obtain ⟨hr, hfit⟩ := Classical.not_imp.mp hfit
  rw [scanSessionId, if_pos hr, value_read_bind_of_lt (by omega), value_bind]
  by_cases hk : 1 + (byteAt buf p).toNat ≤ buf.length - p
  · rw [value_sub_of_le hk]
    exact scanCipherSuites_undefined (by omega) fun hc => hfit ⟨hk, hc⟩
  · have hlt := (byteAt buf p).toNat_lt
    obtain ⟨rest, hrest, hgt⟩ := value_sub_wraps (not_le.mp hk) (by omega)
    rw [hrest, Option.bind_some, scanCipherSuites, if_pos hgt, value_bind, read16, value_bind,
      value_read, List.getElem?_eq_none (by omega)]
    rfl

/-- A scan whose counter wraps goes on to read outside the buffer, so it does not return. -/
theorem scan_undefined (hfit : ¬ LengthsFit buf) : (scan buf).value = none := by
  obtain ⟨⟨h₀, h₁, hlen, h₅, h43⟩, hfit⟩ := Classical.not_imp.mp hfit
  have h (i : ℕ) (hi : i < 43) : i < buf.length := by omega
  rw [scan, if_pos (by omega), value_bind, value_read_of_lt (h 0 (by omega)), Option.bind_some,
    if_pos h₀, value_bind, value_read_of_lt (h 1 (by omega)), Option.bind_some, if_pos h₁,
    value_bind, value_read16_of_lt (h 4 (by omega)), Option.bind_some, if_pos hlen,
    value_sub_bind_of_le (by omega), scanHandshake, if_pos (by omega), value_bind,
    value_read_of_lt (h 5 (by omega)), Option.bind_some, if_pos ⟨h₅, by omega⟩, value_bind,
    value_sub_of_le (by omega)]
  exact scanSessionId_undefined (by omega) hfit

theorem scan_defined_iff (buf : List UInt8) :
    (∃ name, (scan buf).value = some name) ↔ LengthsFit buf := by
  constructor
  · rintro ⟨name, h⟩
    by_contra hfit
    rw [scan_undefined hfit] at h
    cases h
  · exact fun hfit => ((scan_safe_iff buf).mpr hfit).exists_value

/-- The call returns exactly if the segment leaves no ClientHello whose lengths do not fit. -/
theorem tryExtractSNI_defined_iff (r : TCPReassembler) (seq : UInt32) (payload : List UInt8) :
    (∃ name, (r.tryExtractSNI seq payload).2.value = some name) ↔
      ((r.bufferSegment seq payload).2 = true →
        LengthsFit (r.bufferSegment seq payload).1.buffer) := by
  unfold TCPReassembler.tryExtractSNI
  rcases r.bufferSegment seq payload with ⟨r', proceed⟩
  cases proceed with
  | false => exact iff_of_true ⟨none, rfl⟩ fun h => absurd h Bool.false_ne_true
  | true =>
    cases hbuf : r'.buffer with
    | nil => simp [hbuf, LengthsFit, HasClientHello]
    | cons b rest =>
      simp only [hbuf, List.isEmpty_cons, Bool.not_false, Bool.and_self, if_true, true_imp_iff]
      exact scan_defined_iff _

/-- The loop over the extensions ends before its fuel does. -/
theorem scanExtensions_fuel {fuel p : ℕ} (h : extEnd - p ≤ fuel) :
    scanExtensions buf extEnd (fuel + 1) p = scanExtensions buf extEnd fuel p := by
  induction fuel generalizing p with
  | zero =>
    unfold scanExtensions
    rw [if_neg (by omega)]
  | succ fuel ih =>
    rw [scanExtensions, scanExtensions]
    split_ifs with hp
    · have hnext (d : ℕ) : scanExtensions buf extEnd (fuel + 1) (p + 4 + d) =
          scanExtensions buf extEnd fuel (p + 4 + d) := ih (by omega)
      simp only [hnext]
    · rfl

/-- Every name the computation returns is a contiguous part of the buffer. -/
def ReturnsInfix (buf : List UInt8) (x : Traced (Option (List UInt8))) : Prop :=
  ∀ name, x.value = some (some name) → name <:+: buf

theorem returnsInfix_scanServerName (p extDataLen : ℕ) :
    ReturnsInfix buf (scanServerName buf p extDataLen) := by
  apply Yields.when; intro _
  apply Yields.bind; intro listLen _
  apply Yields.when; intro _
  apply Yields.bind; intro nameType _
  apply Yields.when; intro _
  apply Yields.bind; intro nameLen _
  apply Yields.when; intro _
  apply Yields.bind; intro sni hsni
  exact yields_some (infix_of_readBytes hsni)

theorem returnsInfix_scanExtensions (fuel p : ℕ) :
    ReturnsInfix buf (scanExtensions buf extEnd fuel p) := by
  induction fuel generalizing p with
  | zero => exact yields_none
  | succ fuel ih =>
    apply Yields.when; intro _
    apply Yields.bind; intro extType _
    apply Yields.bind; intro extDataLen _
    apply Yields.bind; intro name hname
    cases name with
    | some sni =>
      exact yields_some (Yields.when (fun _ => returnsInfix_scanServerName _ _) _ hname)
    | none => exact ih _

theorem returnsInfix_scanSessionId (p remaining : ℕ) :
    ReturnsInfix buf (scanSessionId buf p remaining) := by
  -- the session id, the cipher suites, the compression methods and the extensions in turn
  apply Yields.when; intro _
  apply Yields.bind; intro sidLen _
  apply Yields.bind; intro rest _
  apply Yields.when; intro _
  apply Yields.bind; intro csLen _
  apply Yields.bind; intro rest _
  apply Yields.when; intro _
  apply Yields.bind; intro cmLen _
  apply Yields.bind; intro rest _
  apply Yields.when; intro _
  apply Yields.bind; intro extLen _
  apply Yields.bind; intro rest _
  exact returnsInfix_scanExtensions _ _

theorem returnsInfix_scan : ReturnsInfix buf (scan buf) := by
  apply Yields.when; intro _
  apply Yields.bind; intro contentType _
  apply Yields.when; intro _
  apply Yields.bind; intro version _
  apply Yields.when; intro _
  apply Yields.bind; intro recordLen _
  apply Yields.when; intro _
  apply Yields.bind; intro rest _
  apply Yields.when; intro _
  apply Yields.bind; intro handshakeType _
  apply Yields.when; intro _
  apply Yields.bind; intro rest _
  exact returnsInfix_scanSessionId _ _

/--
Every read of the scan is inside the buffer, the counter of remaining bytes never wraps and
a returned name is a part of the buffer, exactly if the length fields of the ClientHello in
the buffer stay inside it.
-/
theorem scan_inRange_iff_lengthsFit (buf : List UInt8) :
    ((∀ e ∈ (scan buf).trace, e.InRange) ∧
      ∀ name, (scan buf).value = some (some name) → name <:+: buf) ↔ LengthsFit buf :=
  (and_iff_left returnsInfix_scan).trans (scan_safe_iff buf)

def truncatedHello : List UInt8 :=
  [0x16, 0x03, 0x01, 0x00, 0x27, 0x01] ++ List.replicate 37 0 ++ [1]

/-- The scan of the first segment of a flow wraps the counter and reads behind the buffer. -/
theorem tryExtractSNI_reads_outside :
    Event.sub 1 2 ∈ (((TCPReassembler.fresh {}).tryExtractSNI 0 truncatedHello).2).trace ∧
      Event.read 45 44 ∈ (((TCPReassembler.fresh {}).tryExtractSNI 0 truncatedHello).2).trace ∧
      ¬ ∀ e ∈ (((TCPReassembler.fresh {}).tryExtractSNI 0 truncatedHello).2).trace, e.InRange := by
  decide

end DpiEngine.ClientHello
