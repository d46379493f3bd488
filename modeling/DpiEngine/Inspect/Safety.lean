import DpiEngine.Inspect.Extractors

/-! # Memory safety of the extractors

Whatever the bytes of a payload, the extractors read only inside it.
-/

namespace DpiEngine

open Traced

namespace SNIExtractor

variable {payload : List UInt8}

theorem read24_safe {i : ℕ} (h : i + 2 < payload.length) : (read24 payload i).Safe := by
  apply safe_read_bind (by omega); intro a
  apply safe_read_bind (by omega); intro b
  apply safe_read_bind h; intro c
  exact safe_pure _

theorem isTLSClientHello_safe (payload : List UInt8) : (isTLSClientHello payload).Safe := by
  apply safe_guard; intro hlen
  apply safe_read_bind (by omega); intro contentType
  apply safe_guard; intro _
  apply safe_read16_bind (by omega); intro version
  apply safe_guard; intro _
  apply safe_read16_bind (by omega); intro recordLength
  apply safe_guard; intro _
  apply safe_read_bind (by omega); intro handshakeType
  exact safe_guard fun _ => safe_pure _

theorem extractServerName_safe {offset extensionLength : ℕ}
    (h : offset + extensionLength ≤ payload.length) :
    (extractServerName payload offset extensionLength).Safe := by
  apply safe_guard; intro hlen
  apply safe_read16_bind (by omega); intro sniListLength
  apply safe_guard; intro _
  apply safe_read_bind (by omega); intro sniType
  apply safe_read16_bind (by omega); intro sniLength
  apply safe_guard; intro _
  apply safe_guard; intro hsni
  apply safe_readBytes_bind (by omega); intro sni
  exact safe_pure _

theorem extensionLoop_safe {extensionsEnd : ℕ} (h : extensionsEnd ≤ payload.length)
    (fuel offset : ℕ) : (extensionLoop payload extensionsEnd fuel offset).Safe := by
  induction fuel generalizing offset with
  | zero => exact safe_pure _
  | succ fuel ih =>
    apply safe_guard; intro hoff
    apply safe_read16_bind (by omega); intro extensionType
    apply safe_read16_bind (by omega); intro extensionLength
    apply safe_guard; intro hext
    rw [safe_ite]
    constructor
    · intro _; exact extractServerName_safe (by omega)
    · intro _; exact ih _

theorem extract_safe (payload : List UInt8) : (extract payload).Safe := by
  apply (isTLSClientHello_safe payload).andThen; intro isHello _
  apply safe_guard; intro _
  apply safe_guard; intro h₁
  apply (read24_safe (by omega)).andThen; intro handshakeLength _
  apply safe_guard; intro h₂
  apply safe_guard; intro h₃
  apply safe_guard; intro h₄
  apply safe_guard; intro h₅
  apply safe_read_bind (by omega); intro sessionIdLength
  apply safe_guard; intro h₆
  apply safe_guard; intro h₇
  apply safe_read16_bind (by omega); intro cipherSuitesLength
  apply safe_guard; intro h₈
  apply safe_guard; intro h₉
  apply safe_read_bind (by omega); intro compressionMethodsLength
  apply safe_guard; intro h₁₀
  apply safe_guard; intro h₁₁
  apply safe_read16_bind (by omega); intro extensionsLength
  apply safe_guard; intro h₁₂
  exact extensionLoop_safe (by omega) _ _

end SNIExtractor

namespace QUICSNIExtractor

theorem isQUICInitial_safe (payload : List UInt8) : (isQUICInitial payload).Safe := by
  apply safe_guard; intro hlen
  apply safe_read_bind (by omega); intro firstByte
  apply safe_guard; intro _
  apply (safe_read32.mpr (by omega)).andThen; intro version _
  exact safe_pure _

theorem extractFrom_safe (payload : List UInt8) (fuel i : ℕ) :
    (extractFrom payload fuel i).Safe := by
  induction fuel generalizing i with
  | zero => exact safe_pure _
  | succ fuel ih =>
    apply safe_when; intro h
    apply safe_read_bind h.1; intro b
    rw [safe_ite]
    constructor
    · intro _
      apply (SNIExtractor.extract_safe _).andThen; intro name _
      cases name with
      | some sni => exact safe_pure _
      | none => exact ih _
    · intro _; exact ih _

theorem extract_safe (payload : List UInt8) : (extract payload).Safe := by
  apply (isQUICInitial_safe payload).andThen; intro isInitial _
  apply safe_guard; intro _
  exact extractFrom_safe payload _ _

end QUICSNIExtractor

namespace HTTPHostExtractor

theorem isHTTPRequest_safe (payload : List UInt8) : (isHTTPRequest payload).Safe := by
  apply safe_guard; intro hlen
  apply safe_readBytes_bind (by omega); intro first
  exact safe_pure _

theorem skipWhile_safe (p : UInt8 → Bool) (payload : List UInt8) (fuel i : ℕ) :
    (skipWhile p payload fuel i).Safe := by
  induction fuel generalizing i with
  | zero => exact safe_pure _
  | succ fuel ih =>
    apply safe_when; intro h
    apply safe_read_bind h; intro b
    exact safe_when fun _ => ih _

theorem value_skipWhile_le {p : UInt8 → Bool} {payload : List UInt8} {fuel i j : ℕ}
    (hi : i ≤ payload.length) (h : (skipWhile p payload fuel i).value = some j) :
    j ≤ payload.length := by
  induction fuel generalizing i with
  | zero => cases h; exact hi
  | succ fuel ih =>
    unfold skipWhile at h
    split_ifs at h with hlt
    · rw [value_read_bind_of_lt hlt] at h
      split_ifs at h
      · exact ih hlt h
      · cases h; exact hi
    · cases h; exact hi

theorem trimEnd_safe (payload : List UInt8) (valStart valEnd : ℕ) (h : valEnd ≤ payload.length) :
    (trimEnd payload valStart valEnd).Safe := by
  induction valEnd with
  | zero => exact safe_pure _
  | succ valEnd ih =>
    apply safe_when; intro _
    apply safe_read_bind h; intro b
    exact safe_when fun _ => ih (by omega)

theorem value_trimEnd_le {payload : List UInt8} {valStart valEnd j : ℕ}
    (h : (trimEnd payload valStart valEnd).value = some j) : j ≤ valEnd := by
  induction valEnd with
  | zero => cases h; exact le_rfl
  | succ valEnd ih =>
    unfold trimEnd at h
    split_ifs at h with hgt
    · rw [value_bind, Option.bind_eq_some_iff] at h
      obtain ⟨b, -, h⟩ := h
      split_ifs at h
      · exact (ih h).trans (Nat.le_succ _)
      · cases h; exact le_rfl
    · cases h; exact le_rfl

theorem matchesLower_safe (payload : List UInt8) (i : ℕ) (text : Name)
    (h : i + text.length ≤ payload.length) : (matchesLower payload i text).Safe := by
  induction text generalizing i with
  | nil => exact safe_pure _
  | cons c text ih =>
    rw [List.length_cons] at h
    apply safe_read_bind (by omega); intro b
    exact safe_when fun _ => ih _ (by omega)

theorem isHostHeader_safe (payload : List UInt8) (start : ℕ) :
    (isHostHeader payload start).Safe := by
  have hhost : (ascii "host").length = 4 := rfl
  apply safe_when; intro h
  apply (matchesLower_safe _ _ _ (by omega)).andThen; intro isHost _
  apply safe_when; intro _
  apply safe_read_bind (by omega); intro b
  exact safe_pure _

theorem hostValue_safe (payload : List UInt8) (valStart : ℕ) (h : valStart ≤ payload.length) :
    (hostValue payload valStart).Safe := by
  apply (skipWhile_safe _ _ _ _).andThen; intro valStart' hstart
  apply (skipWhile_safe _ _ _ _).andThen; intro valEnd hend
  have hend' := value_skipWhile_le (value_skipWhile_le h hstart) hend
  apply (trimEnd_safe _ _ _ hend').andThen; intro valEnd' htrim
  have htrim' := value_trimEnd_le htrim
  apply safe_when; intro _
  apply safe_readBytes_bind (by omega); intro host
  exact safe_pure _

theorem extractFrom_safe (payload : List UInt8) (fuel i : ℕ) :
    (extractFrom payload fuel i).Safe := by
  induction fuel generalizing i with
  | zero => exact safe_pure _
  | succ fuel ih =>
    apply safe_when; intro h
    apply safe_read_bind (by omega); intro b
    rw [safe_ite]
    constructor
    · intro _
      apply (isHostHeader_safe _ _).andThen; intro isHost _
      rw [safe_ite]
      constructor
      · intro _
        apply (hostValue_safe _ _ (by omega)).andThen; intro host _
        cases host with
        | some host => exact safe_pure _
        | none => exact ih _
      · intro _; exact ih _
    · intro _; exact ih _

theorem extract_safe (payload : List UInt8) : (extract payload).Safe := by
  apply (isHTTPRequest_safe payload).andThen; intro isRequest _
  apply safe_guard; intro _
  exact extractFrom_safe payload _ _

end HTTPHostExtractor

namespace DNSExtractor

theorem isDNSQuery_safe (payload : List UInt8) : (isDNSQuery payload).Safe := by
  apply safe_guard; intro hlen
  apply safe_read_bind (by omega); intro flags
  apply safe_guard; intro _
  apply safe_read16_bind (by omega); intro qdcount
  exact safe_pure _

theorem followPointer_safe (payload : List UInt8) (c : NameCursor) (len : UInt8) :
    (followPointer payload c len).Safe := by
  apply safe_guard; intro hptr
  apply safe_read_bind (by omega); intro low
  apply safe_guard; intro _
  exact safe_guard fun _ => safe_pure _

theorem readLabel_safe (payload : List UInt8) (c : NameCursor) (len : UInt8) :
    (readLabel payload c len).Safe := by
  apply safe_guard; intro hlabel
  apply safe_readBytes_bind (by omega); intro label
  exact safe_pure _

theorem nameStep_safe (payload : List UInt8) (c : NameCursor) : (nameStep payload c).Safe := by
  apply safe_guard; intro hoff
  apply safe_read_bind (by omega); intro len
  apply safe_guard; intro _
  rw [safe_ite]
  constructor
  · intro _; exact followPointer_safe payload c len
  · intro _; exact readLabel_safe payload c len

theorem nameLoop_safe (payload : List UInt8) (fuel : ℕ) (c : NameCursor) :
    (nameLoop payload fuel c).Safe := by
  induction fuel generalizing c with
  | zero => exact safe_pure _
  | succ fuel ih =>
    apply (nameStep_safe payload c).andThen; intro step _
    cases step with
    | next c => exact ih c
    | leave c => exact safe_pure _
    | reject => exact safe_pure _

theorem readDomainName_safe (payload : List UInt8) (offset : ℕ) :
    (readDomainName payload offset).Safe := by
  apply (nameLoop_safe payload _ _).andThen; intro c _
  cases c with
  | none => exact safe_pure _
  | some c => exact safe_guard fun _ => safe_pure _

theorem extractQuery_safe (payload : List UInt8) : (extractQuery payload).Safe := by
  apply (isDNSQuery_safe payload).andThen; intro isQuery hquery
  apply safe_guard; intro h
  have hlen : 12 ≤ payload.length := by
    by_contra hlt
    rw [isDNSQuery, if_pos (by omega)] at hquery
    cases hquery
    exact h rfl
  apply safe_read16_bind (by omega); intro transactionId
  apply safe_read16_bind (by omega); intro flags
  apply safe_read16_bind (by omega); intro questionCount
  apply safe_read16_bind (by omega); intro answerCount
  apply (readDomainName_safe payload 12).andThen; intro name _
  cases name with
  | none => exact safe_pure _
  | some name => exact safe_pure _

end DNSExtractor

end DpiEngine
