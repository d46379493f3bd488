import DpiEngine.Inspect.Extractors
import DpiEngine.Library.Bytes
import Mathlib.Algebra.BigOperators.Group.List.Basic

/-! # The layout of a ClientHello

A record with a ClientHello has three vectors of variable length in front of its
extensions. The extractor reads the name from the first server name extension of
every record that is laid out inside the payload, so that it undoes encoding.
-/

namespace DpiEngine

open Traced

namespace SNIExtractor

section Layout

variable (payload : List UInt8)

def sessionIdEnd : ℕ := 44 + (byteAt payload 43).toNat

def cipherSuitesEnd : ℕ := sessionIdEnd payload + (2 + wordAt payload (sessionIdEnd payload))

def compressionMethodsEnd : ℕ :=
  cipherSuitesEnd payload + (1 + (byteAt payload (cipherSuitesEnd payload)).toNat)

def extensionsStart : ℕ := compressionMethodsEnd payload + 2

def extensionsEnd : ℕ := extensionsStart payload + wordAt payload (compressionMethodsEnd payload)

def handshakeLength : ℕ :=
  (byteAt payload 6).toNat <<< 16 ||| (byteAt payload 7).toNat <<< 8 ||| (byteAt payload 8).toNat

/-- The payload starts with a record that announces nothing beyond its end. -/
structure HasHello : Prop where
  contentType : byteAt payload 0 = 0x16
  version : ¬ (wordAt payload 1 < 0x0300 ∨ wordAt payload 1 > 0x0304)
  record_le : 5 + wordAt payload 3 ≤ payload.length
  handshakeType : byteAt payload 5 = 0x01
  handshake_le : 9 + handshakeLength payload ≤ payload.length
  extensions_le : extensionsEnd payload ≤ payload.length

end Layout

variable {payload : List UInt8}

theorem value_read24_of_lt {i : ℕ} (h : i + 2 < payload.length) :
    (read24 payload i).value = some ((byteAt payload i).toNat <<< 16 |||
      (byteAt payload (i + 1)).toNat <<< 8 ||| (byteAt payload (i + 2)).toNat) := by
  simp (disch := omega) only [read24, value_bind, value_read_of_lt, Option.bind_some, value_pure]

theorem extensionsEnd_gt (payload : List UInt8) :
    sessionIdEnd payload + 2 ≤ cipherSuitesEnd payload ∧
      cipherSuitesEnd payload + 1 ≤ compressionMethodsEnd payload ∧
      compressionMethodsEnd payload + 2 ≤ extensionsEnd payload ∧ 44 ≤ sessionIdEnd payload := by
  unfold extensionsEnd extensionsStart compressionMethodsEnd cipherSuitesEnd sessionIdEnd
  omega

theorem isTLSClientHello_true (h : HasHello payload) :
    (isTLSClientHello payload).value = some true := by
  obtain ⟨h₁, h₂, h₃, h₄⟩ := extensionsEnd_gt payload
  have hlen := h.extensions_le
  have hrecord := h.record_le
  rw [isTLSClientHello, if_neg (by omega), value_read_bind_of_lt (by omega),
    if_neg (not_not.mpr h.contentType), value_read16_bind_of_lt (by omega), if_neg h.version,
    value_read16_bind_of_lt (by omega), if_neg (by omega), value_read_bind_of_lt (by omega),
    if_neg (not_not.mpr h.handshakeType)]
  rfl

theorem value_extract (h : HasHello payload) :
    (extract payload).value = (extensionLoop payload (extensionsEnd payload)
      (extensionsEnd payload) (extensionsStart payload)).value := by
  obtain ⟨h₁, h₂, h₃, h₄⟩ := extensionsEnd_gt payload
  have hlen := h.extensions_le
  have hhandshake : 9 + ((byteAt payload 6).toNat <<< 16 |||
      (byteAt payload (6 + 1)).toNat <<< 8 ||| (byteAt payload (6 + 2)).toNat) ≤ payload.length :=
    h.handshake_le
  have hsession : 43 + (1 + (byteAt payload 43).toNat) = sessionIdEnd payload := by
    unfold sessionIdEnd; omega
  have hcipher : sessionIdEnd payload + (2 + wordAt payload (sessionIdEnd payload)) =
      cipherSuitesEnd payload := rfl
  have hcompression :
      cipherSuitesEnd payload + (1 + (byteAt payload (cipherSuitesEnd payload)).toNat) =
        compressionMethodsEnd payload := rfl
  have hextensions :
      compressionMethodsEnd payload + 2 + wordAt payload (compressionMethodsEnd payload) =
        extensionsEnd payload := rfl
  rw [extract, value_bind, isTLSClientHello_true h, Option.bind_some, if_neg (by simp),
    if_neg (by omega), value_bind, value_read24_of_lt (by omega), Option.bind_some,
    if_neg (by omega), if_neg (by omega), if_neg (by omega)]
  dsimp only
  rw [if_neg (by omega), value_read_bind_of_lt (by omega), hsession, if_neg (by omega),
    if_neg (by omega), value_read16_bind_of_lt (by omega), hcipher, if_neg (by omega),
    if_neg (by omega), value_read_bind_of_lt (by omega), hcompression, if_neg (by omega),
    if_neg (by omega), value_read16_bind_of_lt (by omega), hextensions, if_neg (by omega)]
  rfl

theorem isTLSClientHello_inv (h : (isTLSClientHello payload).value = some true) :
    9 ≤ payload.length ∧ byteAt payload 0 = 0x16 ∧
      ¬ (wordAt payload 1 < 0x0300 ∨ wordAt payload 1 > 0x0304) ∧
      5 + wordAt payload 3 ≤ payload.length ∧ byteAt payload 5 = 0x01 := by
  obtain ⟨hlen, h⟩ := value_guard Bool.false_ne_true h
  obtain ⟨-, h⟩ := value_read_bind h
  obtain ⟨hcontent, h⟩ := value_guard Bool.false_ne_true h
  obtain ⟨-, h⟩ := value_read16_bind h
  obtain ⟨hversion, h⟩ := value_guard Bool.false_ne_true h
  obtain ⟨-, h⟩ := value_read16_bind h
  obtain ⟨hrecord, h⟩ := value_guard Bool.false_ne_true h
  obtain ⟨-, h⟩ := value_read_bind h
  obtain ⟨hhandshake, -⟩ := value_guard Bool.false_ne_true h
  exact ⟨by omega, not_not.mp hcontent, hversion, by omega, not_not.mp hhandshake⟩

theorem hasHello_of_extract {s : Name} (h : (extract payload).value = some (some s)) :
    HasHello payload := by
  have hne {s : Name} : (none : Option Name) ≠ some s := nofun
  obtain ⟨isHello, hhello, h⟩ := value_bind_some h
  rw [show isHello = true by simpa using (value_guard hne h).1] at hhello
  obtain ⟨-, h⟩ := value_guard hne h
  obtain ⟨hlen, hcontent, hversion, hrecord, htype⟩ := isTLSClientHello_inv hhello
  obtain ⟨-, h⟩ := value_guard hne h
  obtain ⟨n, hn, h⟩ := value_bind_some h
  rw [value_read24_of_lt (by omega), Option.some.injEq] at hn
  obtain ⟨hhandshake, h⟩ := value_guard hne h
  obtain ⟨-, h⟩ := value_guard hne h
  obtain ⟨-, h⟩ := value_guard hne h
  obtain ⟨-, h⟩ := value_guard hne h
  obtain ⟨-, h⟩ := value_read_bind h
  obtain ⟨-, h⟩ := value_guard hne h
  obtain ⟨-, h⟩ := value_guard hne h
  obtain ⟨-, h⟩ := value_read16_bind h
  obtain ⟨-, h⟩ := value_guard hne h
  obtain ⟨-, h⟩ := value_guard hne h
  obtain ⟨-, h⟩ := value_read_bind h
  obtain ⟨-, h⟩ := value_guard hne h
  obtain ⟨-, h⟩ := value_guard hne h
  obtain ⟨-, h⟩ := value_read16_bind h
  obtain ⟨hend, -⟩ := value_guard hne h
  exact {
    contentType := hcontent
    version := hversion
    record_le := hrecord
    handshakeType := htype
    handshake_le := by
      rw [handshakeLength, hn]
      omega
    extensions_le := by
      rw [show 43 + (1 + (byteAt payload 43).toNat) = sessionIdEnd payload by
        unfold sessionIdEnd; omega] at hend
      exact not_lt.mp hend }

end SNIExtractor

/-- An extension of a ClientHello, whose length fits its field. -/
structure Extension where
  type : UInt16
  body : List UInt8
  fits : body.length < 2 ^ 16

def Extension.encode (e : Extension) : List UInt8 :=
  bytes16 e.type.toNat ++ bytes16 e.body.length ++ e.body

def serverNameList (name others : Name) : List UInt8 :=
  bytes16 (3 + name.length + others.length) ++ [0] ++ bytes16 name.length ++ name ++ others

/-- The first server name extension, if there is one, starts with the name. -/
def FirstServerName (extensions : List Extension) (sni : Option Name) : Prop :=
  match extensions.find? (·.type = 0) with
  | none => sni = none
  | some e => ∃ name others, sni = some name ∧ e.body = serverNameList name others

/-- A record with a ClientHello, whose lengths fit their fields. -/
structure HelloRecord where
  recordVersion : UInt16
  version_range : 0x0300 ≤ recordVersion.toNat ∧ recordVersion.toNat ≤ 0x0304
  clientVersion : UInt16
  random : Vector UInt8 32
  sessionId : List UInt8
  sessionId_le : sessionId.length ≤ 255
  cipherSuites : List UInt8
  cipherSuites_fit : cipherSuites.length < 2 ^ 16
  compressionMethods : List UInt8
  compressionMethods_le : compressionMethods.length ≤ 255
  extensions : List Extension
  extensions_fit : (extensions.flatMap Extension.encode).length < 2 ^ 16
  record_fits : 44 + sessionId.length + cipherSuites.length + compressionMethods.length +
    (extensions.flatMap Extension.encode).length < 2 ^ 16
  sni : Option Name
  sni_first : FirstServerName extensions sni

namespace HelloRecord

/-- The vectors of the ClientHello, each behind its length. -/
def vectors (h : HelloRecord) : List UInt8 :=
  [UInt8.ofNat h.sessionId.length] ++ h.sessionId ++ bytes16 h.cipherSuites.length ++
    h.cipherSuites ++ [UInt8.ofNat h.compressionMethods.length] ++ h.compressionMethods ++
    bytes16 (h.extensions.flatMap Extension.encode).length ++ h.extensions.flatMap Extension.encode

def body (h : HelloRecord) : List UInt8 :=
  bytes16 h.clientVersion.toNat ++ h.random.toList ++ h.vectors

def handshake (h : HelloRecord) : List UInt8 := [0x01] ++ bytes24 h.body.length ++ h.body

def encode (h : HelloRecord) : List UInt8 :=
  [0x16] ++ bytes16 h.recordVersion.toNat ++ bytes16 h.handshake.length ++ h.handshake

def front (h : HelloRecord) : List UInt8 :=
  [0x16] ++ bytes16 h.recordVersion.toNat ++ bytes16 h.handshake.length ++ [0x01] ++
    bytes24 h.body.length ++ bytes16 h.clientVersion.toNat ++ h.random.toList

variable (h : HelloRecord) (trailing : List UInt8)

theorem encode_eq : h.encode = h.front ++ h.vectors := by
  simp [encode, handshake, body, front]

theorem length_front : h.front.length = 43 := by
  simp [front, bytes16, bytes24]

theorem length_body : h.body.length = 40 + h.sessionId.length + h.cipherSuites.length +
    h.compressionMethods.length + (h.extensions.flatMap Extension.encode).length := by
  simp only [body, vectors, bytes16, List.length_append, List.length_cons, List.length_nil,
    Vector.length_toList]
  omega

theorem length_handshake : h.handshake.length = 4 + h.body.length := by
  simp [handshake, bytes24]
  omega

theorem length_encode : h.encode.length = 9 + h.body.length := by
  simp [encode, bytes16, length_handshake]
  omega

section Offsets

open SNIExtractor

def extensionBlock : List UInt8 :=
  bytes16 (h.extensions.flatMap Extension.encode).length ++ h.extensions.flatMap Extension.encode

theorem sessionIdEnd_encode :
    sessionIdEnd (h.encode ++ trailing) = 44 + h.sessionId.length := by
  have hle := h.sessionId_le
  have hbyte : byteAt (h.encode ++ trailing) 43 = .ofNat h.sessionId.length :=
    byteAt_eq h.front (h.sessionId ++ (bytes16 h.cipherSuites.length ++ (h.cipherSuites ++
      ([.ofNat h.compressionMethods.length] ++ (h.compressionMethods ++
        (h.extensionBlock ++ trailing))))))
      (by simp [encode_eq, vectors, extensionBlock]) h.length_front
  rw [sessionIdEnd, hbyte, UInt8.toNat_ofNat']
  omega

theorem cipherSuitesEnd_encode : cipherSuitesEnd (h.encode ++ trailing) =
    46 + h.sessionId.length + h.cipherSuites.length := by
  have hword : wordAt (h.encode ++ trailing) (44 + h.sessionId.length) = h.cipherSuites.length :=
    wordAt_eq (h.front ++ ([UInt8.ofNat h.sessionId.length] ++ h.sessionId)) (h.cipherSuites ++
      ([.ofNat h.compressionMethods.length] ++ (h.compressionMethods ++
        (h.extensionBlock ++ trailing))))
      (by simp [encode_eq, vectors, extensionBlock]) (by simp [length_front]; omega)
      h.cipherSuites_fit
  rw [cipherSuitesEnd, sessionIdEnd_encode, hword]
  omega

theorem compressionMethodsEnd_encode : compressionMethodsEnd (h.encode ++ trailing) =
    47 + h.sessionId.length + h.cipherSuites.length + h.compressionMethods.length := by
  have hle := h.compressionMethods_le
  have hbyte : byteAt (h.encode ++ trailing) (46 + h.sessionId.length + h.cipherSuites.length) =
      .ofNat h.compressionMethods.length :=
    byteAt_eq (h.front ++ ([UInt8.ofNat h.sessionId.length] ++ h.sessionId ++
      bytes16 h.cipherSuites.length ++ h.cipherSuites)) (h.compressionMethods ++
        (h.extensionBlock ++ trailing))
      (by simp [encode_eq, vectors, extensionBlock]) (by simp [length_front, bytes16]; omega)
  rw [compressionMethodsEnd, cipherSuitesEnd_encode, hbyte, UInt8.toNat_ofNat']
  omega

def beforeExtensions : List UInt8 :=
  h.front ++ ([UInt8.ofNat h.sessionId.length] ++ h.sessionId ++ bytes16 h.cipherSuites.length ++
    h.cipherSuites ++ [UInt8.ofNat h.compressionMethods.length] ++ h.compressionMethods ++
    bytes16 (h.extensions.flatMap Extension.encode).length)

theorem encode_append_eq : h.encode ++ trailing =
    h.beforeExtensions ++ (h.extensions.flatMap Extension.encode ++ trailing) := by
  simp [encode_eq, vectors, beforeExtensions]

theorem extensionsStart_encode :
    extensionsStart (h.encode ++ trailing) = h.beforeExtensions.length := by
  rw [extensionsStart, compressionMethodsEnd_encode]
  simp [beforeExtensions, length_front, bytes16]
  omega

theorem extensionsEnd_encode : extensionsEnd (h.encode ++ trailing) =
    h.beforeExtensions.length + (h.extensions.flatMap Extension.encode).length := by
  have hword : wordAt (h.encode ++ trailing) (compressionMethodsEnd (h.encode ++ trailing)) =
      (h.extensions.flatMap Extension.encode).length :=
    wordAt_eq (h.front ++ ([UInt8.ofNat h.sessionId.length] ++ h.sessionId ++
      bytes16 h.cipherSuites.length ++ h.cipherSuites ++
      [UInt8.ofNat h.compressionMethods.length] ++ h.compressionMethods))
      (h.extensions.flatMap Extension.encode ++ trailing)
      (by simp [encode_eq, vectors])
      (by simp [length_front, bytes16, compressionMethodsEnd_encode]; omega) h.extensions_fit
  rw [extensionsEnd, extensionsStart_encode, hword]

theorem hasHello_encode : HasHello (h.encode ++ trailing) := by
  have hbody := h.length_body
  have hfits := h.record_fits
  have hlength : (h.encode ++ trailing).length = 9 + h.body.length + trailing.length := by
    rw [List.length_append, length_encode]
  have hversion : wordAt (h.encode ++ trailing) 1 = h.recordVersion.toNat :=
    wordAt_eq [0x16] (bytes16 h.handshake.length ++ (h.handshake ++ trailing))
      (by simp [encode]) rfl h.recordVersion.toNat_lt
  have hrecord : wordAt (h.encode ++ trailing) 3 = h.handshake.length :=
    wordAt_eq ([0x16] ++ bytes16 h.recordVersion.toNat) (h.handshake ++ trailing)
      (by simp [encode]) rfl (by rw [length_handshake]; omega)
  have hhandshake : handshakeLength (h.encode ++ trailing) = h.body.length := by
    rw [← be24_bytes (show h.body.length < 2 ^ 24 by omega)]
    simp [handshakeLength, byteAt, encode, handshake, bytes16, bytes24]
  exact {
    contentType := by simp [byteAt, encode]
    version := by
      obtain ⟨hmin, hmax⟩ := h.version_range
      rw [hversion]
      omega
    record_le := by
      rw [hrecord, hlength, length_handshake]
      omega
    handshakeType := by simp [byteAt, encode, handshake, bytes16]
    handshake_le := by
      rw [hhandshake, hlength]
      omega
    extensions_le := by
      rw [extensionsEnd_encode, encode_append_eq, List.length_append, List.length_append]
      omega }

end Offsets

end HelloRecord

namespace SNIExtractor

variable {pre rest : List UInt8} {sni : Option Name}

theorem length_serverNameList (name others : Name) :
    (serverNameList name others).length = 5 + name.length + others.length := by
  simp [serverNameList, bytes16]
  omega

theorem extractServerName_encode (pre rest : List UInt8) {name others : Name}
    (hfits : (serverNameList name others).length < 2 ^ 16) :
    (extractServerName (pre ++ (serverNameList name others ++ rest)) pre.length
      (serverNameList name others).length).value = some (some name) := by
  rw [length_serverNameList] at hfits ⊢
  obtain ⟨data, hdata⟩ : ∃ data, data = pre ++ (serverNameList name others ++ rest) := ⟨_, rfl⟩
  have hlen : data.length = pre.length + (5 + name.length + others.length + rest.length) := by
    simp only [hdata, List.length_append, length_serverNameList]
  have hlist : wordAt data pre.length = 3 + name.length + others.length :=
    wordAt_eq pre ([0] ++ (bytes16 name.length ++ (name ++ (others ++ rest))))
      (by simp [hdata, serverNameList]) rfl (by omega)
  have htype : byteAt data (pre.length + 2) = 0 :=
    byteAt_eq (pre ++ bytes16 (3 + name.length + others.length))
      (bytes16 name.length ++ (name ++ (others ++ rest)))
      (by simp [hdata, serverNameList]) (by simp [bytes16])
  have hname : wordAt data (pre.length + 3) = name.length :=
    wordAt_eq (pre ++ (bytes16 (3 + name.length + others.length) ++ [0])) (name ++ (others ++ rest))
      (by simp [hdata, serverNameList]) (by simp [bytes16]) (by omega)
  have hbytes : (data.drop (pre.length + 5)).take name.length = name := by
    have hsplit : data = (pre ++ (bytes16 (3 + name.length + others.length) ++ [0] ++
        bytes16 name.length)) ++ (name ++ (others ++ rest)) := by
      simp [hdata, serverNameList]
    have hpre : pre.length + 5 = (pre ++ (bytes16 (3 + name.length + others.length) ++ [0] ++
        bytes16 name.length)).length := by
      simp [bytes16]
    rw [hsplit, hpre, List.drop_left, List.take_left]
  rw [← hdata, extractServerName, if_neg (by omega), value_read16_bind_of_lt (by omega), hlist,
    if_neg (by omega), value_read_bind_of_lt (by omega), value_read16_bind_of_lt (by omega), htype,
    hname, if_neg (by simp), if_neg (by omega), value_bind, value_readBytes_of_le (by omega),
    hbytes]
  rfl

/-- The loop passes the extensions of other types and stops at the first server name. -/
theorem extensionLoop_encode (pre rest : List UInt8) {es : List Extension} {fuel : ℕ}
    (hfuel : es.length ≤ fuel) (hfirst : FirstServerName es sni) :
    (extensionLoop (pre ++ (es.flatMap Extension.encode ++ rest))
      (pre.length + (es.flatMap Extension.encode).length) fuel pre.length).value = some sni := by
  induction es generalizing pre fuel with
  | nil =>
    obtain rfl : sni = none := hfirst
    cases fuel with
    | zero => rfl
    | succ fuel => simp [extensionLoop]
  | cons e es ih =>
    cases fuel with
    | zero => simp at hfuel
    | succ fuel =>
      obtain ⟨data, hdata⟩ :
        ∃ data, data = pre ++ ((e :: es).flatMap Extension.encode ++ rest) := ⟨_, rfl⟩
      have hencode : e.encode.length = 4 + e.body.length := by
        simp [Extension.encode, bytes16]
        omega
      have hlength : ((e :: es).flatMap Extension.encode).length =
          4 + e.body.length + (es.flatMap Extension.encode).length := by
        rw [List.flatMap_cons, List.length_append, hencode]
      have hlen : data.length = pre.length + (4 + e.body.length +
          (es.flatMap Extension.encode).length + rest.length) := by
        rw [hdata, List.length_append, List.length_append, hlength]
      have htype : wordAt data pre.length = e.type.toNat :=
        wordAt_eq pre (bytes16 e.body.length ++ (e.body ++ (es.flatMap Extension.encode ++ rest)))
          (by simp [hdata, Extension.encode]) rfl e.type.toNat_lt
      have hbody : wordAt data (pre.length + 2) = e.body.length :=
        wordAt_eq (pre ++ bytes16 e.type.toNat)
          (e.body ++ (es.flatMap Extension.encode ++ rest))
          (by simp [hdata, Extension.encode]) (by simp [bytes16]) e.fits
      rw [← hdata, hlength, extensionLoop, if_neg (by omega), value_read16_bind_of_lt (by omega),
        value_read16_bind_of_lt (by omega), htype, hbody, if_neg (by omega)]
      by_cases hzero : e.type = 0
      · rw [FirstServerName, List.find?_cons_of_pos (by simpa using hzero)] at hfirst
        obtain ⟨name, others, rfl, heq⟩ := hfirst
        have hname := extractServerName_encode (pre ++ (bytes16 0 ++ bytes16 e.body.length))
          (es.flatMap Extension.encode ++ rest) (heq ▸ e.fits)
        rw [if_pos (by simp [hzero]), ← hname, hdata, ← heq]
        simp [Extension.encode, bytes16, hzero]
      · rw [FirstServerName, List.find?_cons_of_neg (by simpa using hzero)] at hfirst
        have htail := ih (pre ++ e.encode) (Nat.le_of_succ_le_succ hfuel) hfirst
        have hne : e.type.toNat ≠ 0 := fun h => hzero (UInt16.toNat_inj.mp h)
        rw [if_neg hne, ← htail, hdata]
        simp [hencode, Nat.add_assoc]

end SNIExtractor

theorem serverNameList_fits {name : Name} (h : name.length < 2 ^ 15) :
    (serverNameList name []).length < 2 ^ 16 := by
  rw [SNIExtractor.length_serverNameList, List.length_nil]
  omega

def Extension.serverName (name : Name) (h : name.length < 2 ^ 15) : Extension :=
  ⟨0, serverNameList name [], serverNameList_fits h⟩

theorem Extension.length_serverName {name : Name} (h : name.length < 2 ^ 15) :
    ([serverName name h].flatMap encode).length = 9 + name.length := by
  simp [encode, serverName, bytes16, SNIExtractor.length_serverNameList]
  omega

theorem Extension.serverName_fits {name : Name} (h : name.length < 2 ^ 15) :
    ([serverName name h].flatMap encode).length < 2 ^ 16 := by
  rw [length_serverName]
  omega

theorem Extension.serverName_record_fits {name : Name} (h : name.length < 2 ^ 15) :
    44 + ([] : List UInt8).length + [0x13, 0x01].length + [0].length +
      ([serverName name h].flatMap encode).length < 2 ^ 16 := by
  rw [length_serverName]
  simp only [List.length_cons, List.length_nil]
  omega

/-- A ClientHello whose only extension announces the name. -/
def HelloRecord.ofName (name : Name) (h : name.length < 2 ^ 15) : HelloRecord where
  recordVersion := 0x0301
  version_range := by decide
  clientVersion := 0x0303
  random := Vector.replicate 32 0
  sessionId := []
  sessionId_le := by decide
  cipherSuites := [0x13, 0x01]
  cipherSuites_fit := by decide
  compressionMethods := [0]
  compressionMethods_le := by decide
  extensions := [.serverName name h]
  extensions_fit := Extension.serverName_fits h
  record_fits := Extension.serverName_record_fits h
  sni := some name
  sni_first := ⟨name, [], rfl, rfl⟩

/-- Extraction undoes encoding, whatever follows the record. -/
theorem HelloRecord.extract_encode (h : HelloRecord) (trailing : List UInt8) :
    (SNIExtractor.extract (h.encode ++ trailing)).value = some h.sni := by
  have hlength : h.extensions.length ≤ (h.extensions.flatMap Extension.encode).length := by
    rw [List.length_flatMap, ← List.length_map (fun e : Extension => e.encode.length)]
    apply List.length_le_sum_of_one_le
    intro n hn
    obtain ⟨e, -, rfl⟩ := List.mem_map.mp hn
    simp [Extension.encode, bytes16]
  rw [SNIExtractor.value_extract (h.hasHello_encode trailing), h.extensionsEnd_encode,
    h.extensionsStart_encode, h.encode_append_eq]
  exact SNIExtractor.extensionLoop_encode _ _ (by omega) h.sni_first

end DpiEngine
