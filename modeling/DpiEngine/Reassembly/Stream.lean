import DpiEngine.Inspect.Hello
import DpiEngine.Reassembly.Prefix
import DpiEngine.Reassembly.Scan

/-! # Records in a stream

The scan of the reassembler finds the name that the extractor reads from one
record, and nothing in a part of the record. A record that arrives in order in
any segments is found with its last segment.
-/

namespace DpiEngine

open Traced

namespace ClientHello

open SNIExtractor

variable {buf : List UInt8} {s : Name}

theorem scanServerName_of_extract {p len : ℕ}
    (h : (extractServerName buf p len).value = some (some s)) :
    (scanServerName buf p len).value = some (some s) := by
  have hne {s : Name} : (none : Option Name) ≠ some s := nofun
  obtain ⟨hlen, h⟩ := value_guard hne h
  obtain ⟨hp, h⟩ := value_read16_bind h
  obtain ⟨hlist, h⟩ := value_guard hne h
  obtain ⟨hp', h⟩ := value_read_bind h
  obtain ⟨hp'', h⟩ := value_read16_bind h
  obtain ⟨htype, h⟩ := value_guard hne h
  obtain ⟨hname, h⟩ := value_guard hne h
  rw [scanServerName, if_pos (by omega), value_read16_bind_of_lt hp, if_pos (by omega),
    value_read_bind_of_lt hp', if_pos (not_not.mp htype), value_read16_bind_of_lt hp'',
    if_pos (by omega)]
  exact h

theorem scanExtensions_of_extract {extEnd fuel p : ℕ}
    (h : (extensionLoop buf extEnd fuel p).value = some (some s)) :
    (scanExtensions buf extEnd fuel p).value = some (some s) := by
  have hne {s : Name} : (none : Option Name) ≠ some s := nofun
  induction fuel generalizing p with
  | zero => cases h
  | succ fuel ih =>
    obtain ⟨hp, h⟩ := value_guard hne h
    obtain ⟨htype, h⟩ := value_read16_bind h
    obtain ⟨hlen, h⟩ := value_read16_bind h
    obtain ⟨hend, h⟩ := value_guard hne h
    rw [scanExtensions, if_pos (by omega), value_read16_bind_of_lt htype,
      value_read16_bind_of_lt hlen, value_bind, scanExtension]
    split_ifs at h with hzero
    · rw [if_pos ⟨hzero, by omega⟩, scanServerName_of_extract h]
      rfl
    · rw [if_neg (fun hc => hzero hc.1)]
      exact ih h

theorem extensionLoop_room {extEnd fuel p : ℕ}
    (h : (extensionLoop buf extEnd fuel p).value = some (some s)) : p + 4 ≤ extEnd := by
  cases fuel with
  | zero => cases h
  | succ fuel =>
    have hne : (none : Option Name) ≠ some s := nofun
    exact not_lt.mp (value_guard hne h).1

theorem scan_of_extract (hrecord : 5 + wordAt buf 3 = buf.length)
    (h : (extract buf).value = some (some s)) : (scan buf).value = some (some s) := by
  have hhello := hasHello_of_extract h
  rw [value_extract hhello] at h
  obtain ⟨h₁, h₂, h₃, h₄⟩ := extensionsEnd_gt buf
  have hend := hhello.extensions_le
  have hmajor : byteAt buf 1 = 0x03 := by
    have hversion := hhello.version
    have hminor := (byteAt buf (1 + 1)).toNat_lt
    rw [wordAt, be16_eq] at hversion
    apply UInt8.toNat_inj.mp
    simp only [UInt8.reduceToNat]
    omega
  have hstart : compressionMethodsEnd buf + 2 + 4 ≤ extensionsEnd buf := extensionLoop_room h
  have hsession : 43 + (1 + (byteAt buf 43).toNat) = sessionIdEnd buf := by
    unfold sessionIdEnd; omega
  have hcipher : sessionIdEnd buf + (2 + wordAt buf (sessionIdEnd buf)) = cipherSuitesEnd buf := rfl
  have hcompression : cipherSuitesEnd buf + (1 + (byteAt buf (cipherSuitesEnd buf)).toNat) =
      compressionMethodsEnd buf := rfl
  have hextensions : extensionsEnd buf =
      compressionMethodsEnd buf + 2 + wordAt buf (compressionMethodsEnd buf) := rfl
  have hblock : (scanExtensionBlock buf (compressionMethodsEnd buf)
      (buf.length - compressionMethodsEnd buf)).value = some (some s) := by
    have hmin : min (wordAt buf (compressionMethodsEnd buf))
        (buf.length - compressionMethodsEnd buf - 2) = wordAt buf (compressionMethodsEnd buf) := by
      omega
    rw [scanExtensionBlock, if_pos (by omega), value_read16_bind_of_lt (by omega),
      value_sub_bind_of_le (by omega), hmin]
    exact scanExtensions_of_extract h
  have hcm : (scanCompressionMethods buf (cipherSuitesEnd buf)
      (buf.length - cipherSuitesEnd buf)).value = some (some s) := by
    rw [scanCompressionMethods, if_pos (by omega), value_read_bind_of_lt (by omega),
      value_sub_bind_of_le (by omega), hcompression, Nat.sub_sub, hcompression]
    exact hblock
  have hcs : (scanCipherSuites buf (sessionIdEnd buf)
      (buf.length - sessionIdEnd buf)).value = some (some s) := by
    rw [scanCipherSuites, if_pos (by omega), value_read16_bind_of_lt (by omega),
      value_sub_bind_of_le (by omega), hcipher, Nat.sub_sub, hcipher]
    exact hcm
  have hsid : (scanSessionId buf 43 (buf.length - 43)).value = some (some s) := by
    rw [scanSessionId, if_pos (by omega), value_read_bind_of_lt (by omega),
      value_sub_bind_of_le (by omega), hsession, Nat.sub_sub, hsession]
    exact hcs
  rw [scan, if_pos (by omega), value_read_bind_of_lt (by omega), if_pos hhello.contentType,
    value_read_bind_of_lt (by omega), if_pos hmajor, value_read16_bind_of_lt (by omega),
    if_pos (by omega), value_sub_bind_of_le (by omega), scanHandshake, if_pos (by omega),
    value_read_bind_of_lt (by omega), if_pos ⟨hhello.handshakeType, by omega⟩,
    value_sub_bind_of_le (by omega), Nat.sub_sub]
  exact hsid

theorem scan_incomplete (h : buf.length < 5 ∨ buf.length < 5 + wordAt buf 3) :
    (scan buf).value = some none := by
  unfold scan
  by_cases hlen : buf.length ≥ 5
  · rw [if_pos hlen, value_read_bind_of_lt (by omega)]
    split_ifs
    · rw [value_read_bind_of_lt (by omega)]
      split_ifs
      · rw [value_read16_bind_of_lt (by omega), if_neg (by omega)]
        rfl
      · rfl
    · rfl
  · rw [if_neg hlen]
    rfl

end ClientHello

namespace TCPReassembler

variable {config : ReassemblerConfig} {b : UInt32} {buf : List UInt8}

/-- A reassembler that has received exactly the bytes of a stream that starts at `b`. -/
def streamed (config : ReassemblerConfig) (b : UInt32) (buf : List UInt8) : TCPReassembler where
  config := config
  buffer := buf
  expectedSeq := b + .ofNat buf.length
  expectedSeqInitialized := true
  currentMemoryUsage := buf.length

theorem bufferSegment_streamed {payload : List UInt8} (hne : payload ≠ [])
    (hmax : (buf ++ payload).length ≤ config.maxBufferBytes)
    (hsize : (buf ++ payload).length < 2 ^ 64) :
    (streamed config b buf).bufferSegment (b + .ofNat buf.length) payload =
      (streamed config b (buf ++ payload), true) := by
  have hlength : (buf ++ payload).length = buf.length + payload.length := List.length_append
  have hadd : Machine.sizeAdd buf.length payload.length = (buf ++ payload).length := by
    rw [Machine.sizeAdd_eq (by omega), hlength]
  have hseq : b + .ofNat buf.length + .ofNat payload.length =
      b + .ofNat (buf ++ payload).length := by
    rw [Machine.add_ofNat_add, hlength]
  have hexpected : (streamed config b buf).expectedSeq = b + .ofNat buf.length + .ofNat 0 :=
    (UInt32.add_zero _).symm
  rw [bufferSegment_behind rfl rfl hne (by decide) hexpected, if_neg (by simpa using hne),
    List.drop_zero]
  simp only [streamed, placeSegment, hadd, if_neg (not_lt.mpr hmax), appendContiguous,
    mergeOutOfOrder, mergeLoop, hseq]
  rfl

theorem bufferSegment_fresh {payload : List UInt8} (hne : payload ≠ []) :
    (fresh config).bufferSegment b payload =
      (streamed config b []).bufferSegment (b + .ofNat ([] : List UInt8).length) payload := by
  have hzero : b + .ofNat ([] : List UInt8).length = b := UInt32.add_zero b
  rw [bufferSegment_initExpectedSeq rfl hne, hzero]
  congr 1
  simp only [fresh, initExpectedSeq, streamed, hzero]
  rfl

def inOrder (b : UInt32) : List (List UInt8) → List Segment
  | [] => []
  | p :: ps => ⟨b, p⟩ :: inOrder (b + .ofNat p.length) ps

def results (r : TCPReassembler) : List Segment → List (Option (Option Name))
  | [] => []
  | s :: segments =>
    (r.tryExtractSNI s.seq s.data).2.value :: results (r.tryExtractSNI s.seq s.data).1 segments

/-- The call with the next part of a stream scans the stream up to this part. -/
theorem tryExtractSNI_streamed {payload : List UInt8} (hne : payload ≠ [])
    (hmax : (buf ++ payload).length ≤ config.maxBufferBytes)
    (hsize : (buf ++ payload).length < 2 ^ 64) :
    (streamed config b buf).tryExtractSNI (b + .ofNat buf.length) payload =
      (streamed config b (buf ++ payload), ClientHello.scan (buf ++ payload)) := by
  have hbuffer : (streamed config b (buf ++ payload)).buffer = buf ++ payload := rfl
  have hnonempty : (buf ++ payload).isEmpty = false := by simp [hne]
  rw [tryExtractSNI, bufferSegment_streamed hne hmax hsize]
  simp [hbuffer, hnonempty]

theorem tryExtractSNI_fresh {payload : List UInt8} (hne : payload ≠ []) :
    (fresh config).tryExtractSNI b payload =
      (streamed config b []).tryExtractSNI (b + .ofNat ([] : List UInt8).length) payload := by
  rw [tryExtractSNI, tryExtractSNI, bufferSegment_fresh hne]

section Record

variable {r : List UInt8} {s : Name}

/-- The scan of the first bytes of a record finds the name only in all of it. -/
theorem scan_prefix {rest : List UInt8} (hrecord : 5 + wordAt r 3 = r.length)
    (hs : (SNIExtractor.extract r).value = some (some s)) (hsplit : buf ++ rest = r) :
    (ClientHello.scan buf).value = some (if rest = [] then some s else none) := by
  split_ifs with hrest
  · rw [hrest, List.append_nil] at hsplit
    rw [hsplit]
    exact ClientHello.scan_of_extract hrecord hs
  · apply ClientHello.scan_incomplete
    have hpos : 0 < rest.length := List.length_pos_iff.mpr hrest
    have hlength : buf.length + rest.length = r.length := by
      rw [← hsplit, List.length_append]
    by_cases hlen : buf.length < 5
    · exact .inl hlen
    · right
      rw [← wordAt_append_left _ rest (by omega), hsplit]
      omega

theorem results_streamed (config : ReassemblerConfig) (b : UInt32)
    (hmax : r.length ≤ config.maxBufferBytes)
    (hrecord : 5 + wordAt r 3 = r.length) (hs : (SNIExtractor.extract r).value = some (some s))
    {ps : List (List UInt8)} (hps : ps ≠ []) (hne : ∀ p ∈ ps, p ≠ []) (hr : buf ++ ps.flatten = r) :
    (streamed config b buf).results (inOrder (b + .ofNat buf.length) ps) =
      List.replicate (ps.length - 1) (some none) ++ [some (some s)] := by
  have hword := wordAt_lt r 3
  induction ps generalizing buf with
  | nil => exact absurd rfl hps
  | cons p ps ih =>
    obtain ⟨hp, hne⟩ := List.forall_mem_cons.mp hne
    have hsplit : (buf ++ p) ++ ps.flatten = r := by
      rw [List.append_assoc]
      exact hr
    have hlength : (buf ++ p).length + ps.flatten.length = r.length := by
      rw [← hsplit, ← List.length_append]
    have hseq : b + .ofNat buf.length + .ofNat p.length = b + .ofNat (buf ++ p).length := by
      rw [Machine.add_ofNat_add, List.length_append]
    rw [inOrder, results, tryExtractSNI_streamed hp (by omega) (by omega)]
    dsimp only
    rw [hseq, scan_prefix hrecord hs hsplit]
    cases ps with
    | nil => rfl
    | cons q ps =>
      have hrest : (q :: ps).flatten ≠ [] := by simp [hne q List.mem_cons_self]
      rw [if_neg hrest, ih (List.cons_ne_nil q ps) hne hsplit]
      rfl

/--
A record with a name that arrives in order in any segments is found with its last segment and
not before.
-/
theorem results_fresh (config : ReassemblerConfig) {r : List UInt8} {s : Name}
    (hmax : r.length ≤ config.maxBufferBytes) (hrecord : 5 + wordAt r 3 = r.length)
    (hs : (SNIExtractor.extract r).value = some (some s)) (b : UInt32) {ps : List (List UInt8)}
    (hne : ∀ p ∈ ps, p ≠ []) (hr : ps.flatten = r) :
    (fresh config).results (inOrder b ps) =
      List.replicate (ps.length - 1) (some none) ++ [some (some s)] := by
  cases ps with
  | nil =>
    rw [← hr] at hrecord
    simp at hrecord
  | cons p ps =>
    have hp : p ≠ [] := hne p List.mem_cons_self
    have hsplit : [] ++ (p :: ps).flatten = r := hr
    have hrun := results_streamed config b hmax hrecord hs (List.cons_ne_nil p ps) hne hsplit
    rw [← hrun, inOrder, inOrder, results, results, tryExtractSNI_fresh hp]
    simp

end Record

def shortHello : List UInt8 := (HelloRecord.ofName (ascii "a.b") (by decide)).encode

theorem extract_shortHello :
    (SNIExtractor.extract shortHello).value = some (some (ascii "a.b")) := by decide

theorem results_fresh_halves : (fresh {}).results
      (inOrder 0xFFFFFFFE [shortHello.take 4, (shortHello.drop 4).take 40, shortHello.drop 44]) =
    [some none, some none, some (some (ascii "a.b"))] :=
  results_fresh {} (by decide) (by decide) extract_shortHello _ (by decide) rfl

end TCPReassembler

end DpiEngine
