import DpiEngine.FastPath.Segmentation

/-! # Cuts of a stream

A client may cut its stream into segments as it likes. The outcome is that of
the whole stream exactly if the segments show the same name to the inspection
and the rules decide alike on it.
-/

namespace DpiEngine

open FastPathProcessor ConnectionTracker TCPReassembler Connection Except

variable {rules : RuleManager} {env : PacketEnv} {job : PacketJob} {c : Connection}
  {tuple : FiveTuple} {seg : Segment} {b : UInt32} {ps : List (List UInt8)}
  {l l' : List (PacketEnv × PacketJob)} {fp : FastPathProcessor}

def Delivers (tuple : FiveTuple) (b : UInt32) (ps : List (List UInt8))
    (l : List (PacketEnv × PacketJob)) : Prop :=
  List.Forall₂ (fun seg x => Carries tuple seg x.2) (inOrder b ps) l

theorem Delivers.carries (h : Delivers tuple b ps l) :
    ∀ x ∈ l, ∃ seg, Carries tuple seg x.2 := by
  unfold Delivers at h
  generalize inOrder b ps = segs at h
  induction h with
  | nil => exact fun x hx => absurd hx List.not_mem_nil
  | cons hx _ ih => exact List.forall_mem_cons.mpr ⟨⟨_, hx⟩, ih⟩

/-- A rule blocks one of the addresses of the tuple. -/
def TupleBlocked (rules : RuleManager) (tuple : FiveTuple) : Prop :=
  rules.isIPBlocked tuple.srcIp = true ∨ rules.isIPBlocked tuple.dstIp = true

instance (rules : RuleManager) (tuple : FiveTuple) : Decidable (TupleBlocked rules tuple) :=
  inferInstanceAs (Decidable (_ ∨ _))

theorem Carries.addressBlocked_iff (h : Carries tuple seg job) :
    AddressBlocked rules job ↔ TupleBlocked rules tuple := by
  rw [AddressBlocked, h.tuple_eq]
  rfl

/-- The name that was found; it is empty if nothing was. -/
def foundName (found : Option (AppType × Name)) : Name := found.elim [] Prod.snd

def FoundBlocked (rules : RuleManager) (found : Option (AppType × Name)) : Prop :=
  ∃ f, found = some f ∧ FindingBlocked rules f

theorem foundBlocked_some {f : AppType × Name} :
    FoundBlocked rules (some f) ↔ FindingBlocked rules f := by
  constructor
  · rintro ⟨f', hf, h⟩
    cases hf
    exact h
  · exact fun h => ⟨f, rfl, h⟩

/-- The connection shows what was found. -/
structure Shows (rules : RuleManager) (found : Option (AppType × Name)) (c : Connection) :
    Prop where
  bestDomain : c.bestDomain = foundName found
  blocked : c.state = .blocked ↔ FoundBlocked rules found

theorem Proceeds.shows {buf : List UInt8} {n : ℕ} {found : Option (AppType × Name)}
    (h : Proceeds rules tuple b buf n found c) : Shows rules found c := by
  cases found with
  | none =>
    have hopen : c.state ≠ .blocked := (ConnectionState.ne_of_open h.state).1
    exact ⟨h.unnamed.bestDomain, iff_of_false hopen (by rintro ⟨_, hnone, -⟩; cases hnone)⟩
  | some f =>
    refine ⟨h.bestDomain, ?_⟩
    rw [foundBlocked_some]
    rcases h.state with ⟨hblocked, hstate⟩ | ⟨hclean, hstate⟩
    · exact iff_of_true hstate hblocked
    · exact iff_of_false (by rw [hstate]; decide) hclean

theorem newConnection_waiting (h : Carries tuple seg job) (now : ℕ) :
    ∃ c, newConnection job.flowKey now = .ok c ∧ Waiting tuple seg.seq [] 0 c := by
  obtain ⟨c, hc⟩ : ∃ c, newConnection job.flowKey now = .ok c := by
    rw [h.flowKey]
    exact ⟨_, rfl⟩
  obtain ⟨addresses, rfl⟩ := newConnection_ok hc
  refine ⟨_, hc, congrArg FlowKey.canonical h.flowKey, ?_, .inl rfl, ⟨rfl, rfl, rfl, rfl⟩, rfl, ?_⟩
  · dsimp only
    rw [h.flowKey]
  · intro p hp
    have hseq : seg.seq + .ofNat ([] : List UInt8).length = seg.seq := UInt32.add_zero _
    rw [hseq]
    exact (tryExtractSNI_fresh hp).trans (by rw [hseq])

theorem receive_none (hv4 : job.IsIPv4) (hc : newConnection job.flowKey env.createdAt = .ok c) :
    receive rules env job none = receive rules env job (some c) := by
  rw [receive, receive, lookupEntry, lookupEntry, lookupKey, if_pos hv4.1]
  change (newConnection job.flowKey env.createdAt >>= _) >>= _ = _
  rw [hc]
  rfl

theorem receiveAll_none (rules : RuleManager) (h : Delivers tuple b ps l) (hne : ps ≠ []) :
    ∃ c, Waiting tuple b [] 0 c ∧ receiveAll rules none l = receiveAll rules (some c) l := by
  obtain ⟨p, ps, rfl⟩ := List.exists_cons_of_ne_nil hne
  rw [Delivers, inOrder] at h
  cases h with
  | @cons _ x _ l hx hl =>
    obtain ⟨c, hc, hwait⟩ := newConnection_waiting hx x.1.createdAt
    refine ⟨c, hwait, ?_⟩
    rw [receiveAll, receiveAll, List.foldlM_cons, List.foldlM_cons, receive_none hx.isIPv4 hc]

theorem receiveAll_addressBlocked (haddr : TupleBlocked rules tuple) (h : Delivers tuple b ps l)
    (hne : ps ≠ []) {n : ℕ} {buf : List UInt8} {b' : UInt32} (hc : Waiting tuple b' buf n c) :
    ∃ c', receiveAll rules (some c) l = .ok (some c') ∧ c'.state = .blocked ∧
      c'.bestDomain = [] := by
  obtain ⟨p, ps, rfl⟩ := List.exists_cons_of_ne_nil hne
  rw [Delivers, inOrder] at h
  cases h with
  | @cons _ x _ l hx hl =>
    have hwait : Waiting tuple b' buf (n + 1) (c.follow x.1 x.2 (isClient c x.2.flowKey)) :=
      hc.follow hx
    have hkey : (c.follow x.1 x.2 (isClient c x.2.flowKey)).flowKey = x.2.flowKey.canonical := by
      rw [hwait.flowKey, hx.flowKey]
    have hip : ipBlocked rules (c.follow x.1 x.2 (isClient c x.2.flowKey)) = .ok true := by
      rw [ipBlocked_eq hx.isIPv4 hkey, decide_eq_true (hx.addressBlocked_iff.mpr haddr)]
    have hopen : (c.follow x.1 x.2 (isClient c x.2.flowKey)).state ≠ .blocked :=
      (ConnectionState.ne_of_open hwait.state).1
    have hreceive : receive rules x.1 x.2 (some c) =
        .ok ((c.follow x.1 x.2 (isClient c x.2.flowKey)).block, .drop) :=
      (receive_known hx.isIPv4).trans (verdict_ipBlocked hip hopen)
    obtain ⟨c', hall, hstate, hprofile⟩ := receiveAll_blocked rules hl
      (c := (c.follow x.1 x.2 (isClient c x.2.flowKey)).block) rfl
    rw [receiveAll_cons hreceive]
    exact ⟨c', hall, hstate, (bestDomain_eq hprofile).trans hwait.unnamed.bestDomain⟩

/-- What a stream shows that is delivered in these parts. -/
structure Outcome (rules : RuleManager) (tuple : FiveTuple) (ps : List (List UInt8))
    (c : Connection) : Prop where
  bestDomain : c.bestDomain =
    if TupleBlocked rules tuple then [] else foundName (finding (webPorts tuple) ps)
  blocked : c.state = .blocked ↔
    TupleBlocked rules tuple ∨ FoundBlocked rules (finding (webPorts tuple) ps)

/-- The packets of a new flow are all processed, and its entry shows the outcome. -/
theorem delivered_outcome (rules : RuleManager) (hk : fp.tracker.Keyed)
    (hnew : (FlowKey.fromFiveTuple tuple).canonical ∉ fp.tracker.connections)
    (hstream : ClientStream ps.flatten) (hmax : ps.flatten.length ≤ 16384)
    (hne : ∀ p ∈ ps, p ≠ []) (h : Delivers tuple b ps l) :
    ∃ s, processAll rules fp l = .ok s ∧
      Outcome rules tuple ps (s.tracker.conn (FlowKey.fromFiveTuple tuple).canonical) := by
  have hps : ps ≠ [] := by
    rintro rfl
    exact hstream.ne_nil rfl
  have hkeys : ∀ x ∈ l, lookupKey x.2 = .ok (.fromFiveTuple tuple) := by
    intro x hx
    obtain ⟨seg, hcarries⟩ := h.carries x hx
    rw [lookupKey, if_pos hcarries.isIPv4.1, hcarries.flowKey]
  have hrelated := processAll_receiveAll rules hk hkeys
  obtain ⟨c, hwait, hfirst⟩ := receiveAll_none rules h hps
  rw [AList.lookup_eq_none.mpr hnew, hfirst] at hrelated
  by_cases haddr : TupleBlocked rules tuple
  · obtain ⟨c', hall, hstate, hname⟩ := receiveAll_addressBlocked haddr h hps hwait
    obtain ⟨s, hs, hlookup⟩ := hrelated.ok_of hall
    refine ⟨s, hs, ?_⟩
    rw [ConnectionTracker.conn, hlookup]
    exact ⟨by rw [if_pos haddr]; exact hname, iff_of_true hstate (.inl haddr)⟩
  · have hfree : ∀ x ∈ l, ¬ AddressBlocked rules x.2 := by
      intro x hx
      obtain ⟨seg, hcarries⟩ := h.carries x hx
      rwa [hcarries.addressBlocked_iff]
    have hb : b + .ofNat ([] : List UInt8).length = b := UInt32.add_zero b
    obtain ⟨c', hall, hproceeds⟩ := receiveAll_waiting hstream hmax rfl hne hfree
      (by rw [hb]; exact h) hwait
    have hshows := hproceeds.shows
    rw [findingFrom_eq hstream hne rfl (Nat.zero_le _)] at hshows
    obtain ⟨s, hs, hlookup⟩ := hrelated.ok_of hall
    refine ⟨s, hs, ?_⟩
    rw [ConnectionTracker.conn, hlookup]
    constructor
    · rw [if_neg haddr]
      exact hshows.bestDomain
    · rw [or_iff_right haddr]
      exact hshows.blocked

/-- The rules see the same name and decide alike. -/
def SameFinding (rules : RuleManager) (found found' : Option (AppType × Name)) : Prop :=
  foundName found = foundName found' ∧ (FoundBlocked rules found ↔ FoundBlocked rules found')

theorem SameFinding.of_eq {found found' : Option (AppType × Name)} (h : found = found') :
    SameFinding rules found found' := by
  rw [h]
  exact ⟨rfl, Iff.rfl⟩

/-- Two deliveries are processed, and leave the flow with the same name and the same decision. -/
def SameOutcome (rules : RuleManager) (fp : FastPathProcessor) (k : FlowKey)
    (l l' : List (PacketEnv × PacketJob)) : Prop :=
  ∃ s s', processAll rules fp l = .ok s ∧ processAll rules fp l' = .ok s' ∧
    (s.tracker.conn k).bestDomain = (s'.tracker.conn k).bestDomain ∧
    ((s.tracker.conn k).state = .blocked ↔ (s'.tracker.conn k).state = .blocked)

/-- A stream has the same outcome in two cuts exactly if both show the rules the same. -/
theorem sameOutcome_iff {ps' : List (List UInt8)} (hk : fp.tracker.Keyed)
    (hnew : (FlowKey.fromFiveTuple tuple).canonical ∉ fp.tracker.connections)
    (hstream : ClientStream ps.flatten) (hmax : ps.flatten.length ≤ 16384)
    (hcut : ps'.flatten = ps.flatten) (hne : ∀ p ∈ ps, p ≠ []) (hne' : ∀ p ∈ ps', p ≠ [])
    (h : Delivers tuple b ps l) (h' : Delivers tuple b ps' l') :
    SameOutcome rules fp (FlowKey.fromFiveTuple tuple).canonical l l' ↔
      (TupleBlocked rules tuple ∨
        SameFinding rules (finding (webPorts tuple) ps) (finding (webPorts tuple) ps')) := by
  obtain ⟨s, hs, hout⟩ := delivered_outcome rules hk hnew hstream hmax hne h
  obtain ⟨s', hs', hout'⟩ := delivered_outcome rules hk hnew (hcut ▸ hstream)
    (hcut ▸ hmax) hne' h'
  have hsame : SameOutcome rules fp (FlowKey.fromFiveTuple tuple).canonical l l' ↔
      (s.tracker.conn (FlowKey.fromFiveTuple tuple).canonical).bestDomain =
        (s'.tracker.conn (FlowKey.fromFiveTuple tuple).canonical).bestDomain ∧
      ((s.tracker.conn (FlowKey.fromFiveTuple tuple).canonical).state = .blocked ↔
        (s'.tracker.conn (FlowKey.fromFiveTuple tuple).canonical).state = .blocked) := by
    constructor
    · rintro ⟨u, u', hu, hu', hconn⟩
      cases hs.symm.trans hu
      cases hs'.symm.trans hu'
      exact hconn
    · exact fun hconn => ⟨s, s', hs, hs', hconn⟩
  rw [hsame, hout.bestDomain, hout'.bestDomain, hout.blocked, hout'.blocked]
  by_cases haddr : TupleBlocked rules tuple
  · simp [haddr]
  · simp [haddr, SameFinding]

theorem finding_record {s : Name} (hport : webPorts tuple = false)
    (hplain : ∀ p ∈ ps, looksLikeRequest p = false) (hne : ps ≠ [])
    (hfew : ps.length ≤ maxInspected + 1) (hname : helloName ps.flatten = some s) :
    finding (webPorts tuple) ps = some (sniToAppType s, s) := by
  have hsegment : requestSegment (webPorts tuple) 0 ps = none := by
    rw [requestSegment, hport, if_neg Bool.false_ne_true, List.find?_eq_none]
    intro p hp
    simp [hplain p (List.mem_of_mem_take hp)]
  have hrecord : recordName 0 ps.flatten ps = some s := by
    rw [recordName, if_pos ⟨hne, by omega⟩, hname]
  rw [finding, findingOf, hsegment, hrecord]

theorem sameFinding_record {s : Name} (hport : webPorts tuple = false)
    (hplain : ∀ p ∈ ps, looksLikeRequest p = false) (hfew : ps.length ≤ maxInspected + 1)
    (hs : (SNIExtractor.extract ps.flatten).value = some (some s)) :
    SameFinding rules (finding (webPorts tuple) ps) (finding (webPorts tuple) [ps.flatten]) := by
  have hbyte : Traced.byteAt ps.flatten 0 = 0x16 :=
    (SNIExtractor.hasHello_of_extract hs).contentType
  have hne : ps ≠ [] := by
    rintro rfl
    exact absurd hbyte (by decide)
  have hname : helloName ps.flatten = some s := by
    rw [helloName, hs]
    rfl
  have hwhole : [ps.flatten].flatten = ps.flatten := by simp
  have hlooks : ∀ p ∈ [ps.flatten], looksLikeRequest p = false := by
    intro p hp
    rw [List.mem_singleton.mp hp]
    exact looksLikeRequest_record hbyte
  apply SameFinding.of_eq
  rw [finding_record hport hplain hne hfew hname,
    finding_record hport hlooks (by simp) (by simp [maxInspected])
    (by rw [hwhole, hname])]

/-- None of the first segments is taken for a request, and the last one comes too late. -/
structure GivenUp (tuple : FiveTuple) (ps : List (List UInt8)) : Prop where
  port : webPorts tuple = false
  plain : ∀ p ∈ ps.take (maxInspected + 1), looksLikeRequest p = false
  late : ps.length > maxInspected + 1

theorem GivenUp.finding_eq (h : GivenUp tuple ps) :
    finding (webPorts tuple) ps = some (.unknown, []) := by
  have hsegment : requestSegment (webPorts tuple) 0 ps = none := by
    rw [requestSegment, h.port, if_neg Bool.false_ne_true, List.find?_eq_none]
    intro p hp
    simp [h.plain p hp]
  have hname : recordName 0 ps.flatten ps = none := by
    apply if_neg
    rintro ⟨-, hle⟩
    have hlate := h.late
    omega
  have hmany : 0 + ps.length > maxInspected := by
    have hlate := h.late
    omega
  rw [finding, findingOf, hsegment, hname]
  exact if_pos hmany

/--
Every cut of the stream of a new flow is processed. Where a rule blocks an address, or the
segments show the rules what the whole stream shows, the outcome is that of a single segment.
Where more than eleven segments come and none of the first eleven is taken for a request, the
connection is given up: it stays without a name, and is blocked only by its addresses or by a
rule on unknown applications.
-/
theorem cut_outcome (rules : RuleManager) (hist : List Input) (fp : FastPathProcessor)
    (tuple : FiveTuple) (b : UInt32) (ps : List (List UInt8)) (l : List (PacketEnv × PacketJob))
    (x : PacketEnv × PacketJob) (hrun : Run (Step rules) {} hist fp)
    (hnew : (FlowKey.fromFiveTuple tuple).canonical ∉ fp.tracker.connections)
    (hstream : ClientStream ps.flatten) (hmax : ps.flatten.length ≤ 16384)
    (hne : ∀ p ∈ ps, p ≠ []) (hl : Delivers tuple b ps l)
    (hx : Delivers tuple b [ps.flatten] [x]) :
    (TupleBlocked rules tuple ∨
        SameFinding rules (finding (webPorts tuple) ps) (finding (webPorts tuple) [ps.flatten]) →
      SameOutcome rules fp (FlowKey.fromFiveTuple tuple).canonical l [x]) ∧
    (GivenUp tuple ps → ∃ s, processAll rules fp l = .ok s ∧
      (s.tracker.conn (FlowKey.fromFiveTuple tuple).canonical).bestDomain = [] ∧
      ((s.tracker.conn (FlowKey.fromFiveTuple tuple).canonical).state = .blocked ↔
        TupleBlocked rules tuple ∨ rules.isAppBlocked .unknown = true)) := by
  have hk : fp.tracker.Keyed := run_keyed hrun
  constructor
  · intro hsame
    have hcut : [ps.flatten].flatten = ps.flatten := by simp
    have hwhole : ∀ p ∈ [ps.flatten], p ≠ [] := by
      intro p hp
      rw [List.mem_singleton.mp hp]
      exact hstream.ne_nil
    exact (sameOutcome_iff hk hnew hstream hmax hcut hne hwhole hl hx).mpr hsame
  · intro hgiven
    obtain ⟨s, hs, hout⟩ := delivered_outcome rules hk hnew hstream hmax hne hl
    have hname := hout.bestDomain
    rw [hgiven.finding_eq] at hname
    refine ⟨s, hs, hname.trans (ite_self _), ?_⟩
    rw [hout.blocked, hgiven.finding_eq, foundBlocked_some]
    apply or_congr_right
    exact or_iff_left Bool.false_ne_true

def segmentPackets (b : UInt32) (ps : List (List UInt8)) : List (PacketEnv × PacketJob) :=
  (inOrder b ps).map fun seg => ({}, segmentJob 443 seg.seq TCPFlags.ACK seg.data)

theorem payload_segmentJob (port : UInt16) (seq : UInt32) (tcpFlags : UInt8)
    (payload : List UInt8) : (segmentJob port seq tcpFlags payload).payload = payload := by
  simp [PacketJob.payload, segmentJob, segmentFrame, Traced.bytes16, Traced.bytes32]

theorem delivers_segmentPackets (b : UInt32) (ps : List (List UInt8)) :
    Delivers ⟨1, 2, 1000, 443, 6⟩ b ps (segmentPackets b ps) := by
  rw [Delivers, segmentPackets, List.forall₂_map_right_iff, List.forall₂_same]
  intro seg _
  have hsyn : hasFlag TCPFlags.ACK TCPFlags.SYN = false := by decide
  have hrst : hasFlag TCPFlags.ACK TCPFlags.RST = false := by decide
  exact ⟨⟨rfl, rfl⟩, rfl, rfl, rfl, payload_segmentJob _ _ _ _, hsyn, hrst⟩

def byteByByte (n : ℕ) (stream : List UInt8) : List (List UInt8) :=
  (stream.take n).map ([·]) ++ [stream.drop n]

theorem flatten_byteByByte (n : ℕ) (stream : List UInt8) :
    (byteByByte n stream).flatten = stream := by
  have hsingle (l : List UInt8) : (l.map ([·])).flatten = l := by
    induction l with
    | nil => rfl
    | cons b l ih => rw [List.map_cons, List.flatten_cons, ih, List.singleton_append]
  rw [byteByByte, List.flatten_append, hsingle, List.flatten_singleton, List.take_append_drop]

theorem byteByByte_ne_nil {n : ℕ} {stream : List UInt8} (h : n < stream.length) :
    ∀ p ∈ byteByByte n stream, p ≠ [] := by
  intro p hp
  rcases List.mem_append.mp hp with hp | hp
  · obtain ⟨b, -, rfl⟩ := List.mem_map.mp hp
    exact List.cons_ne_nil b []
  · rw [List.mem_singleton.mp hp]
    exact List.ne_nil_of_length_pos (by rw [List.length_drop]; omega)

theorem clientStream_shortHello : ClientStream shortHello := .hello (by decide) extract_shortHello

/-- In eleven segments the name is found. -/
theorem cut_outcome_short : SameOutcome (domainRule (ascii "a.b")) {}
    (FlowKey.fromFiveTuple ⟨1, 2, 1000, 443, 6⟩).canonical
    (segmentPackets 7 (byteByByte 10 shortHello)) (segmentPackets 7 [shortHello]) :=
  (cut_outcome (domainRule (ascii "a.b")) [] {} ⟨1, 2, 1000, 443, 6⟩ 7 (byteByByte 10 shortHello)
    _ _ (.nil _) (AList.notMem_empty _) clientStream_shortHello (by decide)
    (byteByByte_ne_nil (by decide)) (delivers_segmentPackets 7 _)
    (delivers_segmentPackets 7 [shortHello])).1
      (.inr (sameFinding_record rfl (by decide) (by decide) extract_shortHello))

/-- In twelve segments a blocked name gets through. -/
theorem late_hello_passes : ClientStream shortHello ∧
    (byteByByte 11 shortHello).flatten = shortHello ∧ (∀ p ∈ byteByByte 11 shortHello, p ≠ []) ∧
    Delivers ⟨1, 2, 1000, 443, 6⟩ 7 (byteByByte 11 shortHello)
      (segmentPackets 7 (byteByByte 11 shortHello)) ∧
    Delivers ⟨1, 2, 1000, 443, 6⟩ 7 [shortHello] (segmentPackets 7 [shortHello]) ∧
    ∃ s s', processAll (domainRule (ascii "a.b")) {}
        (segmentPackets 7 (byteByByte 11 shortHello)) = .ok s ∧
      processAll (domainRule (ascii "a.b")) {} (segmentPackets 7 [shortHello]) = .ok s' ∧
      (s.tracker.conn (FlowKey.fromFiveTuple ⟨1, 2, 1000, 443, 6⟩).canonical).bestDomain = [] ∧
      (s.tracker.conn (FlowKey.fromFiveTuple ⟨1, 2, 1000, 443, 6⟩).canonical).state ≠ .blocked ∧
      (s'.tracker.conn (FlowKey.fromFiveTuple ⟨1, 2, 1000, 443, 6⟩).canonical).bestDomain =
        ascii "a.b" ∧
      (s'.tracker.conn (FlowKey.fromFiveTuple ⟨1, 2, 1000, 443, 6⟩).canonical).state =
        .blocked := by
  have hcut := flatten_byteByByte 11 shortHello
  have hwhole : [shortHello].flatten = shortHello := List.flatten_singleton
  have hne : ∀ p ∈ byteByByte 11 shortHello, p ≠ [] := byteByByte_ne_nil (by decide)
  have hlate : finding (webPorts ⟨1, 2, 1000, 443, 6⟩) (byteByByte 11 shortHello) =
      some (.unknown, []) := GivenUp.finding_eq ⟨rfl, by decide, by decide⟩
  have hfound : finding (webPorts ⟨1, 2, 1000, 443, 6⟩) [shortHello] =
      some (sniToAppType (ascii "a.b"), ascii "a.b") := by
    apply finding_record rfl (by decide) (List.cons_ne_nil _ _) (by decide)
    rw [hwhole, helloName, extract_shortHello]
    rfl
  have hk : ({} : FastPathProcessor).tracker.Keyed := keyed_empty 100000
  have hnew : (FlowKey.fromFiveTuple ⟨1, 2, 1000, 443, 6⟩).canonical ∉
    ({} : FastPathProcessor).tracker.connections := AList.notMem_empty _
  obtain ⟨s, hs, hout⟩ := delivered_outcome (domainRule (ascii "a.b")) hk hnew
    (hcut.symm ▸ clientStream_shortHello) (by decide) hne (delivers_segmentPackets 7 _)
  obtain ⟨s', hs', hout'⟩ := delivered_outcome (domainRule (ascii "a.b")) hk hnew
    (hwhole.symm ▸ clientStream_shortHello) (by decide) (by decide)
    (delivers_segmentPackets 7 [shortHello])
  have hname := hout.bestDomain
  have hname' := hout'.bestDomain
  have hblocked := hout.blocked
  have hblocked' := hout'.blocked
  rw [hlate, foundBlocked_some] at hblocked
  rw [hfound, foundBlocked_some] at hblocked'
  rw [hlate] at hname
  rw [hfound] at hname'
  exact ⟨clientStream_shortHello, hcut, hne, delivers_segmentPackets 7 _,
    delivers_segmentPackets 7 _, s, s', hs, hs', hname.trans (by decide),
    hblocked.not.mpr (by decide), hname'.trans (by decide), hblocked'.mpr (by decide)⟩

end DpiEngine
