import DpiEngine.Inspect.Names
import DpiEngine.Library.Traced

/-! # The payload extractors

The server name of a TLS or QUIC ClientHello, the host of an HTTP request and
the name in a DNS query, read from one payload. The bytes come from the network,
so every extractor must stay inside the payload whatever they are.
-/

namespace DpiEngine

open Traced

namespace SNIExtractor

def read24 (payload : List UInt8) (i : ℕ) : Traced ℕ := do
  let a ← read payload i
  let b ← read payload (i + 1)
  let c ← read payload (i + 2)
  pure (a.toNat <<< 16 ||| b.toNat <<< 8 ||| c.toNat)

def isTLSClientHello (payload : List UInt8) : Traced Bool := do
  if payload.length < 9 then return false
  let contentType ← read payload 0
  if contentType ≠ 0x16 then return false
  let version ← read16 payload 1
  if version < 0x0300 ∨ version > 0x0304 then return false
  let recordLength ← read16 payload 3
  if recordLength > payload.length - 5 then return false
  let handshakeType ← read payload 5
  if handshakeType ≠ 0x01 then return false
  return true

def extractServerName (payload : List UInt8) (offset extensionLength : ℕ) :
    Traced (Option Name) := do
  if extensionLength < 5 then return none
  let sniListLength ← read16 payload offset
  if sniListLength < 3 then return none
  let sniType ← read payload (offset + 2)
  let sniLength ← read16 payload (offset + 3)
  if sniType ≠ 0x00 then return none
  if sniLength > extensionLength - 5 then return none
  let sni ← readBytes payload (offset + 5) sniLength
  return some sni

/-- The loop over the extensions; every round moves the offset by at least four. -/
def extensionLoop (payload : List UInt8) (extensionsEnd : ℕ) : ℕ → ℕ → Traced (Option Name)
  | 0, _ => pure none
  | fuel + 1, offset => do
    if offset + 4 > extensionsEnd then return none
    let extensionType ← read16 payload offset
    let extensionLength ← read16 payload (offset + 2)
    if offset + 4 + extensionLength > extensionsEnd then return none
    if extensionType = 0x0000 then extractServerName payload (offset + 4) extensionLength
    else extensionLoop payload extensionsEnd fuel (offset + 4 + extensionLength)

def extract (payload : List UInt8) : Traced (Option Name) := do
  let isHello ← isTLSClientHello payload
  if !isHello then return none
  if 5 + 4 > payload.length then return none
  let handshakeLength ← read24 payload 6
  if 9 + handshakeLength > payload.length then return none
  if 9 + 2 > payload.length then return none
  if 11 + 32 > payload.length then return none
  let offset := 43
  if offset ≥ payload.length then return none
  let sessionIdLength ← read payload offset
  let offset := offset + (1 + sessionIdLength.toNat)
  if offset > payload.length then return none
  if offset + 2 > payload.length then return none
  let cipherSuitesLength ← read16 payload offset
  let offset := offset + (2 + cipherSuitesLength)
  if offset > payload.length then return none
  if offset ≥ payload.length then return none
  let compressionMethodsLength ← read payload offset
  let offset := offset + (1 + compressionMethodsLength.toNat)
  if offset > payload.length then return none
  if offset + 2 > payload.length then return none
  let extensionsLength ← read16 payload offset
  let offset := offset + 2
  let extensionsEnd := offset + extensionsLength
  if extensionsEnd > payload.length then return none
  extensionLoop payload extensionsEnd extensionsEnd offset

end SNIExtractor

namespace QUICSNIExtractor

def isQUICInitial (payload : List UInt8) : Traced Bool := do
  if payload.length < 5 then return false
  let firstByte ← read payload 0
  if firstByte &&& 0x80 = 0 then return false
  let _version ← read32 payload 1
  return true

/-- The search for a handshake byte from `i` on, with at least fifty bytes left. -/
def extractFrom (payload : List UInt8) : ℕ → ℕ → Traced (Option Name)
  | 0, _ => pure none
  | fuel + 1, i => do
    if i < payload.length ∧ payload.length - i ≥ 50 then
      let b ← read payload i
      if b = 0x01 then
        match ← SNIExtractor.extract (payload.drop (i - 5)) with
        | some sni => return some sni
        | none => extractFrom payload fuel (i + 1)
      else extractFrom payload fuel (i + 1)
    else return none

def extract (payload : List UInt8) : Traced (Option Name) := do
  let isInitial ← isQUICInitial payload
  if !isInitial then return none
  extractFrom payload payload.length 5

end QUICSNIExtractor

namespace HTTPHostExtractor

def methods : List Name := ["GET ", "POST", "PUT ", "HEAD", "DELE", "PATC", "OPTI"].map ascii

def isHTTPRequest (payload : List UInt8) : Traced Bool := do
  if payload.length < 4 then return false
  let first ← readBytes payload 0 4
  return methods.contains first

def isBlank (b : UInt8) : Bool := b = 0x20 || b = 0x09

def isLineEnd (b : UInt8) : Bool := b = 0x0D || b = 0x0A

def skipWhile (p : UInt8 → Bool) (payload : List UInt8) : ℕ → ℕ → Traced ℕ
  | 0, i => pure i
  | fuel + 1, i => do
    if i < payload.length then
      let b ← read payload i
      if p b then skipWhile p payload fuel (i + 1) else return i
    else return i

def trimEnd (payload : List UInt8) (valStart : ℕ) : ℕ → Traced ℕ
  | 0 => pure 0
  | valEnd + 1 => do
    if valEnd + 1 > valStart then
      let b ← read payload valEnd
      if isBlank b then trimEnd payload valStart valEnd else return valEnd + 1
    else return valEnd + 1

def matchesLower (payload : List UInt8) : ℕ → Name → Traced Bool
  | _, [] => pure true
  | i, c :: text => do
    let b ← read payload i
    if toLower b = c then matchesLower payload (i + 1) text else return false

/-- Whether `Host:` stands at `start`; the colon is compared as it is. -/
def isHostHeader (payload : List UInt8) (start : ℕ) : Traced Bool := do
  if start + 5 ≤ payload.length then
    let isHost ← matchesLower payload start (ascii "host")
    if isHost then
      let b ← read payload (start + 4)
      return b = 0x3A
    else return false
  else return false

/-- The value of the header without its port, none if it is blank. -/
def hostValue (payload : List UInt8) (valStart : ℕ) : Traced (Option Name) := do
  let valStart ← skipWhile isBlank payload payload.length valStart
  let valEnd ← skipWhile (fun b => !isLineEnd b) payload payload.length valStart
  let valEnd ← trimEnd payload valStart valEnd
  if valEnd > valStart then
    let host ← readBytes payload valStart (valEnd - valStart)
    return some (host.takeWhile (· ≠ 0x3A))
  else return none

def extractFrom (payload : List UInt8) : ℕ → ℕ → Traced (Option Name)
  | 0, _ => pure none
  | fuel + 1, i => do
    if i + 6 < payload.length then
      let b ← read payload i
      if b = 0x0A then
        let isHost ← isHostHeader payload (i + 1)
        if isHost then
          match ← hostValue payload (i + 6) with
          | some host => return some host
          | none => extractFrom payload fuel (i + 1)
        else extractFrom payload fuel (i + 1)
      else extractFrom payload fuel (i + 1)
    else return none

def extract (payload : List UInt8) : Traced (Option Name) := do
  let isRequest ← isHTTPRequest payload
  if !isRequest then return none
  extractFrom payload payload.length 0

end HTTPHostExtractor

structure DnsResult where
  transactionId : ℕ
  flags : ℕ
  questionCount : ℕ
  answerCount : ℕ
  queryDomain : Name
  deriving DecidableEq, Repr

namespace DNSExtractor

def isDNSQuery (payload : List UInt8) : Traced Bool := do
  if payload.length < 12 then return false
  let flags ← read payload 2
  if flags &&& 0x80 ≠ 0 then return false
  let qdcount ← read16 payload 4
  return 0 < qdcount

/-- The variables of the loop of `readDomainName`. -/
structure NameCursor where
  offset : ℕ
  originalOffset : ℕ
  jumped : Bool := false
  jumps : ℕ := 0
  domain : Name := []
  deriving DecidableEq, Repr

/-- One round of the loop goes on, leaves the loop, or returns false. -/
inductive NameStep
  | next (c : NameCursor)
  | leave (c : NameCursor)
  | reject

def maxJumps : ℕ := 10

def followPointer (payload : List UInt8) (c : NameCursor) (len : UInt8) : Traced NameStep := do
  if c.offset + 1 ≥ payload.length then return .reject
  let low ← read payload (c.offset + 1)
  let ptr := be16 (len &&& 0x3F) low
  if ptr ≥ payload.length ∨ ptr < 12 then return .reject
  if c.jumps + 1 > maxJumps then return .reject
  return .next { c with
    originalOffset := if c.jumped then c.originalOffset else c.offset + 2
    offset := ptr
    jumped := true
    jumps := c.jumps + 1 }

def readLabel (payload : List UInt8) (c : NameCursor) (len : UInt8) : Traced NameStep := do
  if c.offset + 1 + len.toNat > payload.length then return .reject
  let label ← readBytes payload (c.offset + 1) len.toNat
  return .next { c with
    domain := if c.domain.isEmpty then label else c.domain ++ 0x2E :: label
    offset := c.offset + 1 + len.toNat }

def nameStep (payload : List UInt8) (c : NameCursor) : Traced NameStep := do
  if c.offset ≥ payload.length then return .leave c
  let len ← read payload c.offset
  if len = 0 then
    return .leave { c with originalOffset := if c.jumped then c.originalOffset else c.offset + 1 }
  if len &&& 0xC0 = 0xC0 then followPointer payload c len
  else readLabel payload c len

/-- The rounds of the loop; out of fuel counts as a rejected name. -/
def nameLoop (payload : List UInt8) : ℕ → NameCursor → Traced (Option NameCursor)
  | 0, _ => pure none
  | fuel + 1, c => do
    match ← nameStep payload c with
    | .next c => nameLoop payload fuel c
    | .leave c => return some c
    | .reject => return none

/-- At most `maxJumps` pointers, and between them at most one round for every byte. -/
def nameFuel (payload : List UInt8) : ℕ := (maxJumps + 1) * (payload.length + 1) + 1

/-- The name at an offset, with the offset behind it. -/
def readDomainName (payload : List UInt8) (offset : ℕ) : Traced (Option (Name × ℕ)) := do
  match ← nameLoop payload (nameFuel payload) { offset := offset, originalOffset := offset } with
  | none => return none
  | some c =>
    if c.domain.isEmpty then return none
    return some (c.domain, if c.jumped then c.originalOffset else c.offset)

def extractQuery (payload : List UInt8) : Traced (Option DnsResult) := do
  let isQuery ← isDNSQuery payload
  if !isQuery then return none
  let transactionId ← read16 payload 0
  let flags ← read16 payload 2
  let questionCount ← read16 payload 4
  let answerCount ← read16 payload 6
  match ← readDomainName payload 12 with
  | none => return none
  | some (queryDomain, _) =>
    return some ⟨transactionId, flags, questionCount, answerCount, queryDomain⟩

end DNSExtractor

end DpiEngine
