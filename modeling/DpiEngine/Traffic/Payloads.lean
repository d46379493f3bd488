import DpiEngine.FastPath.Exchange
import DpiEngine.FastPath.Readable
import DpiEngine.Inspect.HostHeader
import DpiEngine.Inspect.Query
import DpiEngine.Traffic.Frames

/-! # The payloads of the generator

The ClientHello of the script is a record whose first extension has the server
name, its request names the host in the first header, and its query asks for the
domain.
-/

namespace DpiEngine

open Traced

namespace TestPcap

variable {random : Vector UInt8 32} {sni : List Char} {name : Name} {payload l : List UInt8} {n : ℕ}

def serverName (sni : List Char) : Name := sni.map fun c => .ofNat c.toNat

theorem encodeAscii_some (h : encodeAscii sni = some l) : l = serverName sni := by
  unfold encodeAscii at h
  split_ifs at h
  cases h
  rfl

def helloExtensions (name : Name) (h : 65 + name.length < 2 ^ 16) : List Extension :=
  [⟨0, serverNameList name [], by rw [SNIExtractor.length_serverNameList, List.length_nil]; omega⟩,
    ⟨0x2b, [2, 3, 4], by decide⟩]

theorem length_helloExtensions (h : 65 + name.length < 2 ^ 16) :
    ((helloExtensions name h).flatMap Extension.encode).length = 16 + name.length := by
  simp [helloExtensions, Extension.encode, bytes16, SNIExtractor.length_serverNameList]
  omega

theorem helloExtensions_fit (h : 65 + name.length < 2 ^ 16) :
    ((helloExtensions name h).flatMap Extension.encode).length < 2 ^ 16 := by
  rw [length_helloExtensions]
  omega

theorem recordVersion_range :
    0x0300 ≤ (0x0301 : UInt16).toNat ∧ (0x0301 : UInt16).toNat ≤ 0x0304 := by decide

theorem length_sessionId_le : ([] : List UInt8).length ≤ 255 := by decide

def cipherSuites : List UInt8 := bytes16 0x1301 ++ bytes16 0x1302

theorem cipherSuites_fit : cipherSuites.length < 2 ^ 16 := by decide

theorem length_compressionMethods_le : ([0] : List UInt8).length ≤ 255 := by decide

theorem helloRecord_fits (h : 65 + name.length < 2 ^ 16) :
    44 + ([] : List UInt8).length + cipherSuites.length + ([0] : List UInt8).length +
      ((helloExtensions name h).flatMap Extension.encode).length < 2 ^ 16 := by
  rw [length_helloExtensions, cipherSuites]
  simp only [bytes16, List.length_append, List.length_cons, List.length_nil]
  omega

theorem firstServerName_helloExtensions (h : 65 + name.length < 2 ^ 16) :
    FirstServerName (helloExtensions name h) (some name) := ⟨name, [], rfl, rfl⟩

def helloRecord (random : Vector UInt8 32) (name : Name) (h : 65 + name.length < 2 ^ 16) :
    HelloRecord where
  recordVersion := 0x0301
  version_range := recordVersion_range
  clientVersion := 0x0303
  random := random
  sessionId := []
  sessionId_le := length_sessionId_le
  cipherSuites := cipherSuites
  cipherSuites_fit := cipherSuites_fit
  compressionMethods := [0]
  compressionMethods_le := length_compressionMethods_le
  extensions := helloExtensions name h
  extensions_fit := helloExtensions_fit h
  record_fits := helloRecord_fits h
  sni := some name
  sni_first := firstServerName_helloExtensions h

theorem length_helloRecord (random : Vector UInt8 32) (h : 65 + name.length < 2 ^ 16) :
    (helloRecord random name h).encode.length = 70 + name.length := by
  have hextensions := length_helloExtensions h
  rw [HelloRecord.length_encode, HelloRecord.length_body]
  simp only [helloRecord, cipherSuites, bytes16, hextensions, List.length_append,
    List.length_cons, List.length_nil]
  omega

theorem tail_bytes32 (h : n < 2 ^ 24) : (bytes32 (.ofNat n)).tail = bytes24 n := by
  have hbyte {x y : UInt8} (h : x.toNat = y.toNat) : x = y := UInt8.toNat_inj.mp h
  simp only [bytes32, bytes24, List.tail_cons, List.cons.injEq, and_true]
  refine ⟨hbyte ?_, hbyte ?_, hbyte ?_⟩ <;>
    simp only [UInt32.toNat_toUInt8, UInt32.toNat_shiftRight, UInt32.toNat_ofNat',
      UInt8.toNat_ofNat', Nat.shiftRight_eq_div_pow, UInt32.reduceToNat, Nat.reduceMod] <;>
    omega

theorem serverNameList_eq (name : Name) :
    bytes16 ([0] ++ bytes16 name.length ++ name).length ++ ([0] ++ bytes16 name.length ++ name) =
      serverNameList name [] := by
  have hlen : ([0] ++ bytes16 name.length ++ name).length = 3 + name.length + 0 := by
    simp [bytes16]
    omega
  rw [hlen, serverNameList]
  simp

/-- The ClientHello of the script is a record with the server name in its first extension. -/
theorem createTlsClientHello_some (h : createTlsClientHello random sni = some payload) :
    ∃ hname, payload = (helloRecord random (serverName sni) hname).encode := by
  obtain ⟨_, hname, h⟩ := Option.bind_eq_some_iff.mp h
  obtain rfl := encodeAscii_some hname
  obtain ⟨_, hentry, h⟩ := Option.bind_eq_some_iff.mp h
  obtain ⟨_, hlist, h⟩ := Option.bind_eq_some_iff.mp h
  obtain ⟨_, hext, h⟩ := Option.bind_eq_some_iff.mp h
  obtain ⟨_, hextensions, h⟩ := Option.bind_eq_some_iff.mp h
  obtain ⟨_, hbody, h⟩ := Option.bind_eq_some_iff.mp h
  obtain ⟨_, hhandshake, h⟩ := Option.bind_eq_some_iff.mp h
  obtain ⟨-, rfl⟩ := packH_eq_some.mp hentry
  obtain ⟨-, rfl⟩ := packH_eq_some.mp hlist
  obtain ⟨-, rfl⟩ := packH_eq_some.mp hext
  obtain ⟨-, rfl⟩ := packH_eq_some.mp hextensions
  obtain ⟨-, rfl⟩ := packI_eq_some.mp hbody
  obtain ⟨hrecord, rfl⟩ := packH_eq_some.mp hhandshake
  rw [serverNameList_eq] at h hrecord
  have hname : 65 + (serverName sni).length < 2 ^ 16 := by
    simp [bytes16, bytes32, SNIExtractor.length_serverNameList] at hrecord
    omega
  have hencode : bytes16 0 ++ bytes16 (serverNameList (serverName sni) []).length ++
      serverNameList (serverName sni) [] ++ (bytes16 0x2b ++ bytes16 3 ++ [2] ++ bytes16 0x304) =
      (helloExtensions (serverName sni) hname).flatMap Extension.encode := by
    simp [helloExtensions, Extension.encode, bytes16]
  rw [hencode] at h hrecord
  have hbody : bytes16 0x0303 ++ random.toList ++ [0] ++ (bytes16 4 ++ (bytes16 0x1301 ++
      bytes16 0x1302)) ++ [1, 0] ++ (bytes16 ((helloExtensions (serverName sni) hname).flatMap
        Extension.encode).length ++ (helloExtensions (serverName sni) hname).flatMap
          Extension.encode) = (helloRecord random (serverName sni) hname).body := by
    simp [HelloRecord.body, HelloRecord.vectors, helloRecord, cipherSuites, bytes16]
  rw [hbody] at h hrecord
  have hlt : (helloRecord random (serverName sni) hname).body.length < 2 ^ 24 := by
    rw [List.length_append, List.length_append] at hrecord
    omega
  rw [tail_bytes32 hlt] at h
  exact ⟨hname, (Option.some.inj h).symm⟩

theorem extract_helloRecord (h : 65 + name.length < 2 ^ 16) :
    (SNIExtractor.extract (helloRecord random name h).encode).value = some (some name) := by
  have hfuel : (helloRecord random name h).extensions.length ≤
      ((helloRecord random name h).extensions.flatMap Extension.encode).length := by
    change 2 ≤ ((helloExtensions name h).flatMap Extension.encode).length
    rw [length_helloExtensions]
    omega
  have hvalue := SNIExtractor.value_extract ((helloRecord random name h).hasHello_encode [])
  rw [HelloRecord.extensionsEnd_encode, HelloRecord.extensionsStart_encode,
    HelloRecord.encode_append_eq, SNIExtractor.extensionLoop_encode _ _ (by omega)
      (helloRecord random name h).sni_first, ← HelloRecord.encode_append_eq, List.append_nil]
    at hvalue
  exact hvalue

/-- The record of the script announces the server name, away from the port of HTTP. -/
theorem announces_helloRecord {job : PacketJob} (h : 65 + name.length < 2 ^ 16)
    (hpayload : job.payload = (helloRecord random name h).encode)
    (htcp : job.tuple.protocol = 6) (hports : job.tuple.srcPort ≠ 80 ∧ job.tuple.dstPort ≠ 80)
    (hmax : name.length ≤ 16314) : Announces job (sniToAppType name, name) := by
  have hlength := length_helloRecord random h
  refine .hello htcp hports ?_ ?_ ?_
  · rw [hpayload, hlength]
    omega
  · have hhandshake := (helloRecord random name h).length_handshake
    have hencode := (helloRecord random name h).length_encode
    have hword : wordAt (helloRecord random name h).encode 3 =
        (helloRecord random name h).handshake.length :=
      wordAt_eq ([0x16] ++ bytes16 (helloRecord random name h).recordVersion.toNat)
        (helloRecord random name h).handshake (by simp [HelloRecord.encode]) rfl (by omega)
    rw [hpayload, hword]
    omega
  · rw [hpayload, extract_helloRecord]

/-! ### The request -/

/-- The bytes of a host that a header line can name without a port. -/
structure PlainHost (host : Name) : Prop where
  ne_nil : host ≠ []
  colon : 0x3A ∉ host
  blank : ∀ b ∈ host, HTTPHostExtractor.isBlank b = false
  lineEnd : ∀ b ∈ host, HTTPHostExtractor.isLineEnd b = false

theorem encode_append (s t : List Char) : encode (s ++ t) = encode s ++ encode t :=
  List.flatMap_append

theorem createHttpRequest_eq {host : List Char} (h : PlainHost (encode host)) :
    ∃ r : HTTPHostExtractor.HostRequest,
      createHttpRequest host ['/'] = r.encode ∧ r.host = encode host := by
  have hrest : (encode "\r\nUser-Agent: DPI-Test/1.0\r\nAccept: */*\r\n\r\n".toList).head? =
      some 0x0D := by decide
  refine ⟨{
    method := ascii "GET "
    requestLine := ascii "/ HTTP/1.1"
    requestEnd := .crlf
    headers := []
    hostName := ascii "Host"
    blanks := [0x20]
    host := encode host
    port := none
    trailing := []
    rest := encode "\r\nUser-Agent: DPI-Test/1.0\r\nAccept: */*\r\n\r\n".toList
    method_mem := by decide
    requestLine_newline := by decide
    header_newline := List.forall_mem_nil _
    header_host := List.forall_mem_nil _
    hostName_lower := by decide
    blanks_blank := List.forall_mem_singleton.mpr rfl
    host_ne := h.ne_nil
    host_colon := h.colon
    host_lineEnd := h.lineEnd
    host_head := fun b hb => h.blank b (List.mem_of_head? hb)
    host_last := fun b hb => h.blank b (List.mem_of_getLast? hb)
    port_lineEnd := fun p hp => absurd hp (Option.not_mem_none p)
    trailing_blank := List.forall_mem_nil _
    rest_lineEnd := fun b hb => by
      cases hrest.symm.trans hb
      rfl }, ?_, rfl⟩
  have hfront : encode ("GET ".toList ++ ['/'] ++ " HTTP/1.1\r\nHost: ".toList) =
      ascii "GET " ++ ascii "/ HTTP/1.1" ++ [0x0D, 0x0A] ++ ascii "Host" ++ [0x3A] ++ [0x20] := by
    decide
  rw [createHttpRequest, encode_append, encode_append, hfront]
  simp [HTTPHostExtractor.HostRequest.encode, HTTPHostExtractor.HostRequest.portText,
    HTTPHostExtractor.LineEnd.text, HTTPHostExtractor.LineEnd.cr]

theorem extract_createHttpRequest {host : List Char} (h : PlainHost (encode host)) :
    (HTTPHostExtractor.extract (createHttpRequest host ['/'])).value =
      some (some (encode host)) := by
  obtain ⟨r, hrequest, hhost⟩ := createHttpRequest_eq h
  rw [hrequest, ← hhost]
  refine HTTPHostExtractor.extract_some_iff.mpr
    ⟨r.isRequest, r.hostStart, r.isLeast_hostStart, ?_⟩
  rw [r.drop_value, r.hostPart_valueText]

/-! ### The query -/

/-- The labels of the domain have one byte for each character, and at most 63. -/
def PlainDomain (domain : List Char) : Prop :=
  ∀ label ∈ domain.splitOn '.',
    (encode label).length = label.length ∧ 1 ≤ label.length ∧ label.length ≤ 63

def labelText (l : Name) : List UInt8 := .ofNat l.length :: l

theorem encodesAt_labels (front rest : List UInt8) {labels : List Name}
    (h : ∀ l ∈ labels, 1 ≤ l.length ∧ l.length ≤ 63) :
    DNSExtractor.EncodesAt (front ++ (labels.flatMap labelText ++ 0 :: rest)) front.length 0
      labels := by
  induction labels generalizing front with
  | nil =>
    refine .root ?_
    rw [List.drop_left]
    exact ⟨rest, rfl⟩
  | cons l labels ih =>
    rw [List.forall_mem_cons] at h
    have htail := ih (front ++ labelText l) h.2
    refine .label h.1.1 h.1.2 ?_ ?_
    · rw [List.drop_left]
      exact ⟨labels.flatMap labelText ++ 0 :: rest, by simp [labelText]⟩
    · have hlength : (front ++ labelText l).length = front.length + 1 + l.length := by
        simp [labelText]
        omega
      rw [hlength] at htail
      rw [List.flatMap_cons, List.append_assoc, ← List.append_assoc]
      exact htail

theorem encode_intercalate (labels : List (List Char)) :
    encode (['.'].intercalate labels) = [0x2E].intercalate (labels.map encode) := by
  have hdot : encode ['.'] = [0x2E] := by decide
  induction labels with
  | nil => rfl
  | cons l labels ih =>
    cases labels with
    | nil => simp
    | cons l' labels =>
      rw [List.intercalate_cons_cons, encode_append, encode_append, ih, hdot]
      simp only [List.map_cons, List.intercalate_cons_cons]

theorem flatten_labels {labels : List (List Char)} {texts : List (List UInt8)}
    (hplain : ∀ label ∈ labels, (encode label).length = label.length)
    (h : labels.mapM (fun label => do some ((← packB label.length) ++ encode label)) =
      some texts) : texts.flatten = (labels.map encode).flatMap labelText := by
  induction labels generalizing texts with
  | nil =>
    cases h
    rfl
  | cons l labels ih =>
    rw [List.mapM_cons] at h
    obtain ⟨text, htext, h⟩ := Option.bind_eq_some_iff.mp h
    obtain ⟨others, hothers, h⟩ := Option.bind_eq_some_iff.mp h
    obtain ⟨len, hlen, htext⟩ := Option.bind_eq_some_iff.mp htext
    obtain ⟨-, rfl⟩ := packB_eq_some.mp hlen
    cases h
    cases htext
    rw [List.forall_mem_cons] at hplain
    rw [List.flatten_cons, ih hplain.2 hothers, List.map_cons, List.flatMap_cons, labelText,
      hplain.1]
    rfl

theorem extractQuery_createDnsQuery {txid : UInt16} {domain : List Char}
    (hplain : PlainDomain domain) (h : createDnsQuery txid domain = some payload) :
    ∃ result, (DNSExtractor.extractQuery payload).value = some (some result) ∧
      result.queryDomain = encode domain := by
  obtain ⟨texts, htexts, h⟩ := Option.bind_eq_some_iff.mp h
  have hflatten := flatten_labels (fun label hlabel => (hplain label hlabel).1) htexts
  obtain ⟨front, hfront⟩ : ∃ front, front = bytes16 txid.toNat ++ bytes16 0x0100 ++
    (bytes16 1 ++ bytes16 0 ++ bytes16 0 ++ bytes16 0) := ⟨_, rfl⟩
  have hpayload : payload = front ++ (((domain.splitOn '.').map encode).flatMap labelText ++
      0 :: (bytes16 1 ++ bytes16 1)) := by
    rw [← hflatten, hfront]
    cases h
    simp
  have hlength : front.length = 12 := by rw [hfront]; rfl
  have hlabels : ∀ l ∈ (domain.splitOn '.').map encode, 1 ≤ l.length ∧ l.length ≤ 63 := by
    refine List.forall_mem_map.mpr fun label hlabel => ?_
    rw [(hplain label hlabel).1]
    exact (hplain label hlabel).2
  have hencodes := encodesAt_labels front (bytes16 1 ++ bytes16 1) hlabels
  rw [← hpayload, hlength] at hencodes
  refine ⟨DNSExtractor.resultOf payload ((domain.splitOn '.').map encode),
    DNSExtractor.extractQuery_some_iff.mpr ⟨⟨?_, ?_, ?_⟩, .root, 0, _, hencodes.nameAt.1,
      Nat.zero_le _, ?_, rfl⟩, ?_⟩
  · rw [hpayload, List.length_append, hlength]
    omega
  · have hflags : byteAt payload 2 = 1 := by
      rw [hpayload, hfront]
      simp [byteAt, bytes16]
    rw [hflags]
    decide
  · have hcount : wordAt payload 4 = 1 := by
      rw [hpayload, hfront]
      simp [wordAt, byteAt, bytes16]
      rfl
    omega
  · simp [List.splitOn_ne_nil]
  · rw [DNSExtractor.resultOf, ← encode_intercalate, List.intercalate_splitOn]

end TestPcap

end DpiEngine
