import DpiEngine.FastPath.Client

/-! # Streams of a client

A client opens its stream with a TLS record or with an HTTP request. From the
segments of the stream alone one sees what the inspection will find: the first
segment that is taken for a request decides, or else the reassembled record.
-/

namespace DpiEngine

open Traced

/-- An HTTP request with a host header. -/
structure HTTPRequest where
  method : Name
  method_token : method ≠ [] ∧ ∀ b ∈ method, 0x20 < b.toNat ∧ b.toNat < 0x7F
  target : Name
  version : Name
  headers : List (Name × Name)
  host_mem : ∃ header ∈ headers, header.1.map toLower = ascii "host"
  body : List UInt8

def headerLine (header : Name × Name) : List UInt8 :=
  header.1 ++ ascii ":" ++ header.2 ++ [0x0D, 0x0A]

def HTTPRequest.encode (q : HTTPRequest) : List UInt8 :=
  q.method ++ ascii " " ++ q.target ++ ascii " " ++ q.version ++ [0x0D, 0x0A] ++
    q.headers.flatMap headerLine ++ [0x0D, 0x0A] ++ q.body

/-- What a client sends: a TLS record with a server name or an HTTP request. -/
inductive ClientStream : List UInt8 → Prop
  | hello {r : List UInt8} {s : Name} : 5 + wordAt r 3 = r.length →
      (SNIExtractor.extract r).value = some (some s) → ClientStream r
  | request (q : HTTPRequest) : ClientStream q.encode

theorem ClientStream.ne_nil {stream : List UInt8} (h : ClientStream stream) : stream ≠ [] := by
  cases h with
  | hello hrecord _ =>
    rintro rfl
    rw [List.length_nil] at hrecord
    omega
  | request q => simp [HTTPRequest.encode, ascii]

def helloName (stream : List UInt8) : Option Name := (SNIExtractor.extract stream).value.join

theorem HTTPRequest.byteAt_encode (q : HTTPRequest) : byteAt q.encode 0 ≠ 0x16 := by
  obtain ⟨hne, hvisible⟩ := q.method_token
  obtain ⟨b, l, hmethod⟩ := List.exists_cons_of_ne_nil hne
  have hfirst : byteAt q.encode 0 = b := by
    rw [encode, hmethod]
    rfl
  rw [hfirst]
  rintro rfl
  have h := (hvisible 0x16 (hmethod ▸ List.mem_cons_self)).1
  exact absurd h (by decide)

theorem helloName_of_byteAt {stream : List UInt8} (h : byteAt stream 0 ≠ 0x16) :
    helloName stream = none := by
  unfold helloName
  cases hvalue : (SNIExtractor.extract stream).value with
  | none => rfl
  | some name =>
    cases name with
    | none => rfl
    | some s => exact absurd (SNIExtractor.hasHello_of_extract hvalue).contentType h

theorem ClientHello.scan_of_byteAt {buf : List UInt8} (h : byteAt buf 0 ≠ 0x16) :
    (ClientHello.scan buf).value = some none := by
  unfold ClientHello.scan
  by_cases hlen : buf.length ≥ 5
  · rw [if_pos hlen, value_read_bind_of_lt (by omega), if_neg h]
    rfl
  · rw [if_neg hlen]
    rfl

theorem byteAt_append {buf rest : List UInt8} (h : buf ≠ []) :
    byteAt (buf ++ rest) 0 = byteAt buf 0 := by
  obtain ⟨b, l, rfl⟩ := List.exists_cons_of_ne_nil h
  rfl

/-- The scan finds the name of the stream once all of it has arrived, and nothing before. -/
theorem ClientStream.scan_prefix {stream buf rest : List UInt8} (h : ClientStream stream)
    (hsplit : buf ++ rest = stream) (hne : buf ≠ []) :
    (ClientHello.scan buf).value = some (if rest = [] then helloName stream else none) := by
  cases h with
  | hello hrecord hs =>
    rw [TCPReassembler.scan_prefix hrecord hs hsplit, helloName, hs]
    rfl
  | request q =>
    have hbyte : byteAt buf 0 ≠ 0x16 := by
      rw [← byteAt_append hne, hsplit]
      exact q.byteAt_encode
    rw [ClientHello.scan_of_byteAt hbyte, helloName_of_byteAt q.byteAt_encode]
    split_ifs <;> rfl

def maxInspected : ℕ := 10

/-- What is found in one more segment, if the scan of the stream so far returns `name`. -/
def segmentFinding (web : Bool) (n : ℕ) (p : List UInt8) (name : Option Name) :
    Option (AppType × Name) :=
  if web || looksLikeRequest p then some (requestFinding p)
  else
    match name with
    | some s => some (sniToAppType s, s)
    | none => if n + 1 > maxInspected then some (.unknown, []) else none

section SegmentFinding

variable {web : Bool} {n : ℕ} {p : List UInt8} {name : Option Name}

theorem segmentFinding_request (h : (web || looksLikeRequest p) = true) :
    segmentFinding web n p name = some (requestFinding p) := if_pos h

theorem segmentFinding_name (h : (web || looksLikeRequest p) = false) (s : Name) :
    segmentFinding web n p (some s) = some (sniToAppType s, s) := if_neg (by simp [h])

theorem segmentFinding_none (h : (web || looksLikeRequest p) = false) :
    segmentFinding web n p none = if n + 1 > maxInspected then some (.unknown, []) else none :=
  if_neg (by simp [h])

end SegmentFinding

/-- What is found in the segments of a stream, `n` packets with payload `buf` having passed. -/
def findingFrom (web : Bool) (buf : List UInt8) (n : ℕ) :
    List (List UInt8) → Option (AppType × Name)
  | [] => none
  | p :: ps =>
    match segmentFinding web n p (ClientHello.scan (buf ++ p)).value.join with
    | some found => some found
    | none => findingFrom web (buf ++ p) (n + 1) ps

/-- The first of the segments that is taken for a request, `n` packets having passed. -/
def requestSegment (web : Bool) (n : ℕ) (ps : List (List UInt8)) : Option (List UInt8) :=
  if web then ps.head? else (ps.take (maxInspected + 1 - n)).find? looksLikeRequest

/-- The name of the stream, if the last of its segments is not too late. -/
def recordName (n : ℕ) (stream : List UInt8) (ps : List (List UInt8)) : Option Name :=
  if ps ≠ [] ∧ n + ps.length ≤ maxInspected + 1 then helloName stream else none

/-- What is found in the last segments of a stream, `n` packets having passed. -/
def findingOf (web : Bool) (n : ℕ) (stream : List UInt8) (ps : List (List UInt8)) :
    Option (AppType × Name) :=
  match requestSegment web n ps with
  | some p => some (requestFinding p)
  | none =>
    match recordName n stream ps with
    | some s => some (sniToAppType s, s)
    | none => if n + ps.length > maxInspected then some (.unknown, []) else none

/-- What is found in a stream that is cut into segments. -/
def finding (web : Bool) (ps : List (List UInt8)) : Option (AppType × Name) :=
  findingOf web 0 ps.flatten ps

section Cons

variable {web : Bool} {n : ℕ} {stream p : List UInt8} {ps : List (List UInt8)}

theorem findingOf_request (hn : n ≤ maxInspected) (h : (web || looksLikeRequest p) = true) :
    findingOf web n stream (p :: ps) = some (requestFinding p) := by
  have hsegment : requestSegment web n (p :: ps) = some p := by
    unfold requestSegment
    split_ifs with hweb
    · rfl
    · have hlooks : looksLikeRequest p = true := ((Bool.or_eq_true _ _).mp h).resolve_left hweb
      rw [Nat.succ_sub hn, List.take_succ_cons, List.find?_cons_of_pos hlooks]
  rw [findingOf, hsegment]

theorem requestSegment_cons (hn : n ≤ maxInspected) (h : (web || looksLikeRequest p) = false) :
    requestSegment web n (p :: ps) = (ps.take (maxInspected - n)).find? looksLikeRequest := by
  obtain ⟨hweb, hlooks⟩ := Bool.or_eq_false_iff.mp h
  rw [requestSegment, hweb, if_neg Bool.false_ne_true, Nat.succ_sub hn, List.take_succ_cons,
    List.find?_cons_of_neg (by simp [hlooks])]

theorem findingOf_last (hn : n ≤ maxInspected) (h : (web || looksLikeRequest p) = false) :
    findingOf web n stream [p] = segmentFinding web n p (helloName stream) := by
  have hname : recordName n stream [p] = helloName stream :=
    if_pos ⟨List.cons_ne_nil p [], Nat.succ_le_succ hn⟩
  rw [findingOf, requestSegment_cons hn h, List.take_nil, List.find?_nil, hname]
  cases helloName stream with
  | some s => rw [segmentFinding_name h]
  | none => rw [segmentFinding_none h, List.length_singleton]

theorem findingOf_more (hn : n ≤ maxInspected) (h : (web || looksLikeRequest p) = false)
    (hps : ps ≠ []) : findingOf web n stream (p :: ps) =
      if n + 1 > maxInspected then some (.unknown, []) else findingOf web (n + 1) stream ps := by
  have hpos : 0 < ps.length := List.length_pos_iff.mpr hps
  have hcount : n + (p :: ps).length = n + 1 + ps.length := by
    rw [List.length_cons]
    omega
  rw [findingOf, requestSegment_cons hn h]
  by_cases hlast : n + 1 > maxInspected
  · have hname : recordName n stream (p :: ps) = none := by
      apply if_neg
      rintro ⟨-, hle⟩
      omega
    have hzero : maxInspected - n = 0 := by omega
    rw [if_pos hlast, hzero, List.take_zero, List.find?_nil, hname]
    exact if_pos (by omega)
  · have hname : recordName n stream (p :: ps) = recordName (n + 1) stream ps := by
      unfold recordName
      rw [hcount]
      exact if_congr (by simp [hps]) rfl rfl
    have hweb := (Bool.or_eq_false_iff.mp h).1
    rw [if_neg hlast, findingOf, requestSegment, hweb, if_neg Bool.false_ne_true, hname, hcount,
      Nat.add_sub_add_right]

end Cons

theorem findingFrom_eq {stream buf : List UInt8} {web : Bool} {n : ℕ} {ps : List (List UInt8)}
    (h : ClientStream stream) (hne : ∀ p ∈ ps, p ≠ []) (hsplit : buf ++ ps.flatten = stream)
    (hn : n ≤ maxInspected) : findingFrom web buf n ps = findingOf web n stream ps := by
  induction ps generalizing buf n with
  | nil =>
    have hcount : ¬ n > maxInspected := not_lt.mpr hn
    cases web <;> simp [findingFrom, findingOf, requestSegment, recordName, hcount]
  | cons p ps ih =>
    obtain ⟨hp, hps⟩ := List.forall_mem_cons.mp hne
    have hrest : (buf ++ p) ++ ps.flatten = stream := by
      rw [List.append_assoc]
      exact hsplit
    rw [findingFrom, h.scan_prefix hrest (by simp [hp]), Option.join_some]
    cases hrequest : web || looksLikeRequest p with
    | true => rw [segmentFinding_request hrequest, findingOf_request hn hrequest]
    | false =>
      cases ps with
      | nil =>
        rw [findingOf_last hn hrequest, List.flatten_nil, if_pos rfl]
        cases segmentFinding web n p (helloName stream) <;> rfl
      | cons q qs =>
        have hmore : (q :: qs).flatten ≠ [] := by simp [(List.forall_mem_cons.mp hps).1]
        rw [findingOf_more hn hrequest (List.cons_ne_nil q qs), if_neg hmore,
          segmentFinding_none hrequest]
        split_ifs with hlast
        · rfl
        · exact ih hps hrest (Nat.le_of_not_lt hlast)

end DpiEngine
