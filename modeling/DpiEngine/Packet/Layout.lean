import DpiEngine.Packet.Parser

/-! # The layout of accepted frames

What each header parser returns, as a function of the bytes of the frame. A
frame with a transport layer has its payload right behind the transport header.
-/

namespace DpiEngine

open Traced

namespace PacketParser

variable {data : List UInt8} {parsed p : ParsedPacket} {o o' : ℕ}

theorem parseEthernet_some
    (h : (parseEthernet data parsed).value = some (some (p, o))) :
    14 ≤ data.length ∧ o = 14 ∧ p = { parsed with etherType := wordAt data 12 } := by
  unfold parseEthernet at h
  split_ifs at h with hlen
  · simp at h
  · simp (disch := omega) only [value_bind, value_readBytes_of_le, value_read16_of_lt,
      Option.bind_some, value_pure, Option.some.injEq, Prod.mk.injEq] at h
    exact ⟨by omega, h.2.symm, h.1.symm⟩

def payloadFields (p : ParsedPacket) : ℕ × Option ℕ := (p.payloadLength, p.payloadData)

def ipFields (p : ParsedPacket) : Bool × Bool × UInt32 × UInt32 :=
  (p.hasIp, p.hasIpv6, p.srcIpRaw, p.dstIpRaw)

theorem hasIpv6_eq (h : ipFields p = ipFields parsed) : p.hasIpv6 = parsed.hasIpv6 :=
  congrArg (·.2.1) h

theorem parseIPv4_header (h : (parseIPv4 data parsed o).value = some (some (p, o'))) :
    o' = o + lowNibble (byteAt data o) * 4 ∧ o' ≤ data.length ∧ p = { parsed with
      ipVersion := 4
      ttl := byteAt data (o + 8)
      protocol := byteAt data (o + 9)
      srcIpRaw := wordAtLE data (o + 12)
      dstIpRaw := wordAtLE data (o + 16)
      hasIp := true } := by
  unfold parseIPv4 at h
  split_ifs at h with hlen
  · simp at h
  · simp (disch := omega) only [value_bind, value_read_of_lt, Option.bind_some] at h
    split_ifs at h with hversion hihl
    · simp at h
    · simp at h
    · simp only [not_or, not_lt] at hihl
      simp (disch := omega) only [value_bind, value_read_of_lt, value_read32LE_of_lt,
        Option.bind_some, value_pure] at h
      cases h
      exact ⟨rfl, hihl.2, rfl⟩

theorem parseIPv4_some (h : (parseIPv4 data parsed o).value = some (some (p, o'))) :
    o' = o + lowNibble (byteAt data o) * 4 ∧ o' ≤ data.length ∧ p.hasTcp = parsed.hasTcp ∧
      p.hasUdp = parsed.hasUdp ∧ (p.hasIp = true ∧ p.hasIpv6 = parsed.hasIpv6) ∧
      payloadFields p = payloadFields parsed := by
  obtain ⟨hend, hle, rfl⟩ := parseIPv4_header h
  exact ⟨hend, hle, rfl, rfl, ⟨rfl, rfl⟩, rfl⟩

theorem parseIPv4_addresses (h : (parseIPv4 data parsed o).value = some (some (p, o'))) :
    (p.srcIpRaw, p.dstIpRaw) = (wordAtLE data (o + 12), wordAtLE data (o + 16)) := by
  obtain ⟨-, -, rfl⟩ := parseIPv4_header h
  rfl

theorem value_walkFragment : (walkFragment data o parsed).value = some (
    if o + 8 > data.length then .stop o (extUnsupported parsed)
    else if (wordAt data (o + 2) &&& 0xFFF8) >>> 3 > 0 then
      .stop (o + 8) (extUnsupported { parsed with protocol := byteAt data o })
    else .next (o + 8) (byteAt data o) parsed) := by
  unfold walkFragment
  split_ifs with hlen hfrag
  · rfl
  · simp (disch := omega) only [value_bind, value_read_of_lt, value_read16_of_lt, Option.bind_some,
      if_pos hfrag, value_pure]
  · simp (disch := omega) only [value_bind, value_read_of_lt, value_read16_of_lt, Option.bind_some,
      if_neg hfrag, value_pure]

theorem value_walkVariable (nextHdr : UInt8) : (walkVariable data o nextHdr parsed).value = some (
    if o + 2 > data.length then .stop o (extUnsupported parsed)
    else if o + extHdrTotal nextHdr (byteAt data (o + 1)) > data.length ∨
        extHdrTotal nextHdr (byteAt data (o + 1)) < 8 then .stop o (extUnsupported parsed)
    else .next (o + extHdrTotal nextHdr (byteAt data (o + 1))) (byteAt data o) parsed) := by
  unfold walkVariable
  split_ifs with hlen hfit
  · rfl
  · simp (disch := omega) only [value_bind, value_read_of_lt, Option.bind_some, if_pos hfit,
      value_pure]
  · simp (disch := omega) only [value_bind, value_read_of_lt, Option.bind_some, if_neg hfit,
      value_pure]

def WalkStep.position : WalkStep → ℕ × Option UInt8
  | .next offset nextHdr _ => (offset, some nextHdr)
  | .stop offset _ => (offset, none)

theorem walkHeader_position (data : List UInt8) (o : ℕ) (nextHdr : UInt8)
    (parsed parsed' : ParsedPacket) :
    (walkHeader data o nextHdr parsed).value.map WalkStep.position =
      (walkHeader data o nextHdr parsed').value.map WalkStep.position := by
  unfold walkHeader
  split_ifs with hfrag
  · simp only [value_walkFragment]; split_ifs <;> rfl
  · simp only [value_walkVariable]; split_ifs <;> rfl

theorem walkIPv6ExtHeaders_position (count : ℕ) (o : ℕ) (nextHdr : UInt8)
    (parsed parsed' : ParsedPacket) :
    (walkIPv6ExtHeaders data count o nextHdr parsed).value.map (fun r => (r.1, r.2.1)) =
      (walkIPv6ExtHeaders data count o nextHdr parsed').value.map fun r => (r.1, r.2.1) := by
  induction count generalizing o nextHdr parsed parsed' with
  | zero => rfl
  | succ count ih =>
    unfold walkIPv6ExtHeaders
    split_ifs with hext
    · have hpos := walkHeader_position data o nextHdr parsed parsed'
      simp only [value_bind]
      cases h : (walkHeader data o nextHdr parsed).value with
      | none =>
        cases h' : (walkHeader data o nextHdr parsed').value with
        | none => rfl
        | some step' => simp [h, h'] at hpos
      | some step =>
        cases h' : (walkHeader data o nextHdr parsed').value with
        | none => simp [h, h'] at hpos
        | some step' =>
          cases step <;> cases step' <;>
            simp only [h, h', WalkStep.position, Option.map_some, Option.some.injEq,
              Prod.mk.injEq, reduceCtorEq, and_true, and_false] at hpos
          · obtain ⟨rfl, rfl⟩ := hpos; exact ih _ _ _ _
          · subst hpos; rfl
    · rfl

/-- The transport protocol of an IPv6 frame and the offset of its header. -/
def ipv6Transport (data : List UInt8) : Option (UInt8 × ℕ) :=
  (walkIPv6ExtHeaders data maxExtHeaders 54 (byteAt data 20) {}).value.map fun r => (r.1, r.2.1)

/-- The packets agree on the transport header found and on the payload. -/
def SameTransport (p q : ParsedPacket) : Prop :=
  p.hasTcp = q.hasTcp ∧ p.hasUdp = q.hasUdp ∧ ipFields p = ipFields q ∧
    payloadFields p = payloadFields q

theorem SameTransport.trans {p q r : ParsedPacket} (h : SameTransport p q)
    (h' : SameTransport q r) : SameTransport p r :=
  ⟨h.1.trans h'.1, h.2.1.trans h'.2.1, h.2.2.1.trans h'.2.2.1, h.2.2.2.trans h'.2.2.2⟩

theorem markExtHeader_sameTransport (parsed : ParsedPacket) (nextHdr : UInt8) :
    SameTransport (markExtHeader parsed nextHdr) parsed := by
  unfold markExtHeader; split_ifs <;> exact ⟨rfl, rfl, rfl, rfl⟩

def WalkStep.packet : WalkStep → ParsedPacket
  | .next _ _ parsed => parsed
  | .stop _ parsed => parsed

theorem walkHeader_advances {nextHdr : UInt8} {step : WalkStep}
    (h : (walkHeader data o nextHdr parsed).value = some step) :
    o ≤ step.position.1 ∧ SameTransport step.packet parsed := by
  have hmark := markExtHeader_sameTransport parsed nextHdr
  unfold walkHeader at h
  split_ifs at h
  · rw [value_walkFragment] at h
    split_ifs at h <;> cases h <;>
      exact ⟨by simp [WalkStep.position], .trans ⟨rfl, rfl, rfl, rfl⟩ hmark⟩
  · rw [value_walkVariable] at h
    split_ifs at h <;> cases h <;>
      exact ⟨by simp [WalkStep.position], .trans ⟨rfl, rfl, rfl, rfl⟩ hmark⟩

theorem walkIPv6ExtHeaders_keeps {P : ℕ → ParsedPacket → Prop}
    (hheader : ∀ {o : ℕ} {nextHdr : UInt8} {q : ParsedPacket} {step : WalkStep},
      isExtHeader nextHdr = true → P o q → (walkHeader data o nextHdr q).value = some step →
      P step.position.1 step.packet)
    {count : ℕ} {nextHdr protocol : UInt8} (hp : P o parsed)
    (h : (walkIPv6ExtHeaders data count o nextHdr parsed).value = some (protocol, o', p)) :
    P o' p := by
  induction count generalizing o nextHdr parsed with
  | zero =>
    cases h
    exact hp
  | succ count ih =>
    unfold walkIPv6ExtHeaders at h
    split_ifs at h with hext
    · obtain ⟨step, hstep, h⟩ := value_bind_some h
      have hq := hheader hext hp hstep
      cases step with
      | next offset nh q => exact ih hq h
      | stop offset q =>
        cases h
        exact hq
    · cases h
      exact hp

theorem walkIPv6ExtHeaders_advances {count : ℕ} {nextHdr protocol : UInt8}
    (h : (walkIPv6ExtHeaders data count o nextHdr parsed).value = some (protocol, o', p)) :
    o ≤ o' ∧ SameTransport p parsed := by
  have hstart : o ≤ o ∧ SameTransport parsed parsed := ⟨le_rfl, rfl, rfl, rfl, rfl⟩
  refine walkIPv6ExtHeaders_keeps (P := fun o₁ q => o ≤ o₁ ∧ SameTransport q parsed) ?_ hstart h
  rintro o₁ nextHdr q step - ⟨hge, hsame⟩ hstep
  obtain ⟨hge', hsame'⟩ := walkHeader_advances hstep
  exact ⟨hge.trans hge', hsame'.trans hsame⟩

theorem parseIPv6_walk (h : (parseIPv6 data parsed o).value = some (some (p, o'))) :
    o + 40 ≤ data.length ∧ ∃ base q : ParsedPacket,
      (∃ trafficClass flowLabel hopLimit src dst, base = { parsed with
        ipTrafficClass := trafficClass
        ipFlowLabel := flowLabel
        ipHopLimit := hopLimit
        ttl := hopLimit
        srcIpv6 := src
        dstIpv6 := dst
        ipVersion := 6
        hasIp := true
        hasIpv6 := true }) ∧
      (walkIPv6ExtHeaders data maxExtHeaders (o + 40) (byteAt data (o + 6)) base).value =
        some (p.protocol, o', q) ∧ p = { q with protocol := p.protocol } := by
  have hne : (none : Option (ParsedPacket × ℕ)) ≠ some (p, o') := nofun
  obtain ⟨hlen, h⟩ := value_guard hne h
  obtain ⟨-, h⟩ := value_read_bind h
  obtain ⟨-, h⟩ := value_guard hne h
  obtain ⟨-, h⟩ := value_read_bind h
  obtain ⟨-, h⟩ := value_read_bind h
  obtain ⟨-, h⟩ := value_read_bind h
  obtain ⟨-, h⟩ := value_read16_bind h
  obtain ⟨-, h⟩ := value_read_bind h
  obtain ⟨-, h⟩ := value_read_bind h
  obtain ⟨src, -, h⟩ := value_bind_some h
  obtain ⟨dst, -, h⟩ := value_bind_some h
  obtain ⟨⟨protocol, offset, q⟩, hwalk, h⟩ := value_bind_some h
  cases h
  exact ⟨not_lt.mp hlen, _, q, ⟨_, _, _, _, _, rfl⟩, hwalk, rfl⟩

theorem parseIPv6_some (h : (parseIPv6 data parsed 14).value = some (some (p, o'))) :
    ipv6Transport data = some (p.protocol, o') ∧ p.hasTcp = parsed.hasTcp ∧
      p.hasUdp = parsed.hasUdp ∧ ipFields p = (true, true, parsed.srcIpRaw, parsed.dstIpRaw) ∧
      payloadFields p = payloadFields parsed := by
  obtain ⟨-, base, q, ⟨_, _, _, _, _, rfl⟩, hwalk, heq⟩ := parseIPv6_walk h
  obtain ⟨-, htcp, hudp, hv6, hpay⟩ := walkIPv6ExtHeaders_advances hwalk
  refine ⟨?_, (congrArg ParsedPacket.hasTcp heq).trans htcp,
    (congrArg ParsedPacket.hasUdp heq).trans hudp, (congrArg ipFields heq).trans hv6,
    (congrArg payloadFields heq).trans hpay⟩
  rw [ipv6Transport, walkIPv6ExtHeaders_position _ _ _ _ _, hwalk]
  rfl

/-- The offset behind a transport header of the given protocol. -/
def transportEnd (data : List UInt8) (protocol : UInt8) (o : ℕ) : ℕ :=
  if protocol = Protocol.TCP then o + highNibble (byteAt data (o + 12)) * 4 else o + 8

theorem parseTCP_some (h : (parseTCP data parsed o).value = some (some (p, o'))) :
    o + 20 ≤ data.length ∧ o' = o + highNibble (byteAt data (o + 12)) * 4 ∧ o + 20 ≤ o' ∧
      o' ≤ data.length ∧ p.hasTcp = true ∧ p.hasUdp = parsed.hasUdp ∧
      ipFields p = ipFields parsed ∧ payloadFields p = payloadFields parsed := by
  unfold parseTCP at h
  split_ifs at h with hlen
  · simp at h
  · simp (disch := omega) only [value_bind, value_read_of_lt, value_read16_of_lt, read32,
      Option.bind_some, value_pure] at h
    split_ifs at h with hoff hfit
    · simp at h
    · simp at h
    · simp (disch := omega) only [value_bind, value_read_of_lt, Option.bind_some, value_pure] at h
      cases h
      exact ⟨by omega, rfl, by omega, by omega, rfl, rfl, rfl, rfl⟩

theorem parseUDP_some (h : (parseUDP data parsed o).value = some (some (p, o'))) :
    o + 8 ≤ data.length ∧ o' = o + 8 ∧ p.hasTcp = parsed.hasTcp ∧ p.hasUdp = true ∧
      ipFields p = ipFields parsed ∧ payloadFields p = payloadFields parsed := by
  unfold parseUDP at h
  split_ifs at h with hlen
  · simp at h
  · simp (disch := omega) only [value_bind, value_read16_of_lt, Option.bind_some] at h
    split_ifs at h with hmin hfit
    · simp at h
    · simp at h
    · cases h
      exact ⟨by omega, rfl, rfl, rfl, rfl, rfl⟩

theorem parseICMPHeader_some {mark : ParsedPacket → ParsedPacket}
    (h : (parseICMPHeader mark data parsed o).value = some (some (p, o'))) :
    ∃ icmpType icmpCode,
      p = mark { parsed with icmpType := icmpType, icmpCode := icmpCode } ∧ o' = o + 8 := by
  unfold parseICMPHeader at h
  split_ifs at h with hlen
  · simp at h
  · simp (disch := omega) only [value_bind, value_read_of_lt, Option.bind_some, value_pure] at h
    cases h
    exact ⟨_, _, rfl, rfl⟩

theorem parseICMP_sameTransport (h : (parseICMP data parsed o).value = some (some (p, o'))) :
    SameTransport p parsed := by
  obtain ⟨icmpType, icmpCode, rfl, -⟩ := parseICMPHeader_some h
  exact ⟨rfl, rfl, rfl, rfl⟩

theorem parseICMPv6_sameTransport (h : (parseICMPv6 data parsed o).value = some (some (p, o'))) :
    SameTransport p parsed := by
  obtain ⟨icmpType, icmpCode, rfl, -⟩ := parseICMPHeader_some h
  exact ⟨rfl, rfl, rfl, rfl⟩

/-- A packet whose transport header was found at `o` and ends at `o'`. -/
structure TransportAt (data : List UInt8) (p : ParsedPacket) (protocol : UInt8) (o o' : ℕ) :
    Prop where
  hasTcp : p.hasTcp = true ↔ protocol = Protocol.TCP
  hasUdp : p.hasUdp = true ↔ protocol = Protocol.UDP
  isTransport : protocol = Protocol.TCP ∨ protocol = Protocol.UDP
  end_eq : o' = transportEnd data protocol o
  header_le : o + 8 ≤ data.length
  tcpHeader_le : protocol = Protocol.TCP → o + 20 ≤ o'
  end_le : o' ≤ data.length

theorem parseTransport_some {icmp : UInt8}
    {parseIcmp : List UInt8 → ParsedPacket → ℕ → Traced (Option (ParsedPacket × ℕ))}
    (hicmp : (parseIcmp data parsed o).value = some (some (p, o')) → SameTransport p parsed)
    (htcp : parsed.hasTcp = false)
    (hudp : parsed.hasUdp = false)
    (h : (parseTransport icmp parseIcmp data parsed o).value = some (some (p, o')))
    (hp : p.hasTcp = true ∨ p.hasUdp = true) :
    TransportAt data p parsed.protocol o o' ∧ ipFields p = ipFields parsed ∧
      payloadFields p = payloadFields parsed := by
  unfold parseTransport at h
  split_ifs at h with h6 h17 h1
  · obtain ⟨h20, rfl, hmin, hend, hp6, hp17, hv6, hpay⟩ := parseTCP_some h
    refine ⟨⟨by simp [hp6, h6], ?_, .inl h6, ?_, by omega, fun _ => hmin, hend⟩, hv6, hpay⟩
    · rw [hp17, hudp, h6]; decide
    · rw [transportEnd, if_pos h6]
  · obtain ⟨h8, rfl, hp6, hp17, hv6, hpay⟩ := parseUDP_some h
    refine ⟨⟨?_, by simp [hp17, h17], .inr h17, ?_, by omega, fun h => absurd h h6, h8⟩,
      hv6, hpay⟩
    · rw [hp6, htcp, h17]; decide
    · rw [transportEnd, if_neg h6]
  · obtain ⟨hp6, hp17, -⟩ := hicmp h
    rw [hp6, hp17] at hp
    simp [htcp, hudp] at hp
  · cases h
    simp [htcp, hudp] at hp

/-- The transport header of a frame: its protocol and offset. -/
inductive TransportHeader (data : List UInt8) : Bool → UInt8 → ℕ → Prop
  | ipv4 (protocol : UInt8) : wordAt data 12 = EtherType.IPv4 →
      TransportHeader data false protocol (14 + lowNibble (byteAt data 14) * 4)
  | ipv6 {protocol : UInt8} {o : ℕ} : wordAt data 12 = EtherType.IPv6 →
      ipv6Transport data = some (protocol, o) → TransportHeader data true protocol o

theorem TransportHeader.le {v6 : Bool} {protocol : UInt8}
    (h : TransportHeader data v6 protocol o) : 14 ≤ o := by
  cases h with
  | ipv4 h => exact Nat.le_add_right _ _
  | ipv6 h htransport =>
    obtain ⟨⟨_, _, _⟩, hwalk, h⟩ := Option.map_eq_some_iff.mp htransport
    cases h
    exact le_trans (by decide) (walkIPv6ExtHeaders_advances hwalk).1

theorem parseLayers_some (htcp : parsed.hasTcp = false) (hudp : parsed.hasUdp = false)
    (hv6 : parsed.hasIpv6 = false) (het : parsed.etherType = wordAt data 12)
    (h : (parseLayers data parsed 14).value = some (some (p, o')))
    (hp : p.hasTcp = true ∨ p.hasUdp = true) :
    payloadFields p = payloadFields parsed ∧ ∃ protocol o,
      TransportHeader data p.hasIpv6 protocol o ∧ TransportAt data p protocol o o' := by
  unfold parseLayers at h
  split_ifs at h with h4 h6
  · rw [value_bind, Option.bind_eq_some_iff] at h
    obtain ⟨_ | ⟨q, o⟩, hip, h⟩ := h
    · cases h
    · obtain ⟨rfl, -, hq6, hq17, hqv, hqpay⟩ := parseIPv4_some hip
      obtain ⟨hat, hpv, hpay⟩ := parseTransport_some parseICMP_sameTransport (hq6.trans htcp)
        (hq17.trans hudp) h hp
      refine ⟨hpay.trans hqpay, _, _, ?_, hat⟩
      rw [hasIpv6_eq hpv, hqv.2, hv6]
      exact .ipv4 _ (het ▸ h4)
  · rw [value_bind, Option.bind_eq_some_iff] at h
    obtain ⟨_ | ⟨q, o⟩, hip, h⟩ := h
    · cases h
    · obtain ⟨hwalk, hq6, hq17, hqv, hqpay⟩ := parseIPv6_some hip
      obtain ⟨hat, hpv, hpay⟩ := parseTransport_some parseICMPv6_sameTransport (hq6.trans htcp)
        (hq17.trans hudp) h hp
      refine ⟨hpay.trans hqpay, _, _, ?_, hat⟩
      have hv : q.hasIpv6 = true := congrArg (·.2.1) hqv
      rw [hasIpv6_eq hpv, hv]
      exact .ipv6 (het ▸ h6) hwalk
  · cases h
    simp [htcp, hudp] at hp

def etherPacket (raw : RawPacket) : ParsedPacket where
  timestampSec := raw.tsSec
  timestampUsec := raw.tsUsec
  etherType := wordAt raw.data 12

/-- An accepted frame is parsed layer by layer and then gets its payload. -/
theorem parse_layers {raw : RawPacket} (h : (parse raw).value = some (some p)) :
    14 ≤ raw.data.length ∧ ∃ q o',
      (parseLayers raw.data (etherPacket raw) 14).value = some (some (q, o')) ∧
      p = setPayload q raw.data o' := by
  unfold parse at h
  simp only [value_bind, Option.bind_eq_some_iff] at h
  obtain ⟨_ | ⟨q, o⟩, heth, h⟩ := h
  · cases h
  · obtain ⟨hlen, rfl, rfl⟩ := parseEthernet_some heth
    simp only [value_bind, Option.bind_eq_some_iff] at h
    obtain ⟨_ | ⟨q, o'⟩, hlayers, h⟩ := h
    · cases h
    · rw [value_pure, Option.some.injEq, Option.some.injEq] at h
      exact ⟨hlen, q, o', hlayers, h.symm⟩

theorem parse_some {raw : RawPacket} (h : (parse raw).value = some (some p))
    (hp : p.hasTcp = true ∨ p.hasUdp = true) :
    ∃ protocol o o', TransportHeader raw.data p.hasIpv6 protocol o ∧
      TransportAt raw.data p protocol o o' ∧ p.payloadLength = raw.data.length - o' ∧
      p.payloadData = if o' < raw.data.length then some o' else none := by
  obtain ⟨-, q, o', hlayers, rfl⟩ := parse_layers h
  have hp' : q.hasTcp = true ∨ q.hasUdp = true := by
    unfold setPayload at hp; split_ifs at hp <;> exact hp
  obtain ⟨hpay, protocol, o, hheader, hat⟩ := parseLayers_some rfl rfl rfl rfl hlayers hp'
  obtain ⟨hlen, hptr⟩ := Prod.mk.inj hpay
  refine ⟨protocol, o, o', ?_⟩
  unfold setPayload
  split_ifs with hlt
  · exact ⟨hheader, ⟨hat.hasTcp, hat.hasUdp, hat.isTransport, hat.end_eq, hat.header_le,
      hat.tcpHeader_le, hat.end_le⟩, rfl, rfl⟩
  · exact ⟨hheader, hat, hlen.trans (Nat.sub_eq_zero_of_le (not_lt.mp hlt)).symm, hptr⟩

theorem parseTransport_ipFields {icmp : UInt8}
    {parseIcmp : List UInt8 → ParsedPacket → ℕ → Traced (Option (ParsedPacket × ℕ))}
    (hicmp : (parseIcmp data parsed o).value = some (some (p, o')) → SameTransport p parsed)
    (h : (parseTransport icmp parseIcmp data parsed o).value = some (some (p, o'))) :
    ipFields p = ipFields parsed := by
  unfold parseTransport at h
  split_ifs at h with h6 h17 h1
  · obtain ⟨-, -, -, -, -, -, hip, -⟩ := parseTCP_some h; exact hip
  · obtain ⟨-, -, -, -, hip, -⟩ := parseUDP_some h; exact hip
  · exact (hicmp h).2.2.1
  · cases h; rfl

/-- The IP version that an ether type stands for. -/
def etherIpFields (etherType : ℕ) : Bool × Bool :=
  if etherType = EtherType.IPv4 then (true, false)
  else if etherType = EtherType.IPv6 then (true, true)
  else (false, false)

theorem parse_ipFields {raw : RawPacket} (h : (parse raw).value = some (some p)) :
    (p.hasIp, p.hasIpv6) = etherIpFields (wordAt raw.data 12) ∧
      (wordAt raw.data 12 ≠ EtherType.IPv4 → (p.srcIpRaw, p.dstIpRaw) = (0, 0)) := by
  obtain ⟨-, q, o', hlayers, rfl⟩ := parse_layers h
  have hsame : ipFields (setPayload q raw.data o') = ipFields q := by
    rw [setPayload]; split_ifs <;> rfl
  have hversion : ((setPayload q raw.data o').hasIp, (setPayload q raw.data o').hasIpv6) =
      (q.hasIp, q.hasIpv6) := congrArg (fun f => (f.1, f.2.1)) hsame
  have haddresses : ((setPayload q raw.data o').srcIpRaw, (setPayload q raw.data o').dstIpRaw) =
      (q.srcIpRaw, q.dstIpRaw) := congrArg (·.2.2) hsame
  rw [hversion, haddresses, etherIpFields]
  unfold parseLayers at hlayers
  rw [show (etherPacket raw).etherType = wordAt raw.data 12 from rfl] at hlayers
  split_ifs at hlayers ⊢ with h4 h6
  · rw [value_bind, Option.bind_eq_some_iff] at hlayers
    obtain ⟨_ | ⟨r, o⟩, hip, hlayers⟩ := hlayers
    · cases hlayers
    · obtain ⟨-, -, -, -, hr, -⟩ := parseIPv4_some hip
      have hq := parseTransport_ipFields parseICMP_sameTransport hlayers
      refine ⟨?_, fun hne => absurd h4 hne⟩
      have hversions : (q.hasIp, q.hasIpv6) = (r.hasIp, r.hasIpv6) :=
        congrArg (fun f => (f.1, f.2.1)) hq
      rw [hversions, hr.1, hr.2]
      rfl
  · rw [value_bind, Option.bind_eq_some_iff] at hlayers
    obtain ⟨_ | ⟨r, o⟩, hip, hlayers⟩ := hlayers
    · cases hlayers
    · obtain ⟨-, -, -, hr, -⟩ := parseIPv6_some hip
      have hq := (parseTransport_ipFields parseICMPv6_sameTransport hlayers).trans hr
      exact ⟨congrArg (fun f => (f.1, f.2.1)) hq, fun _ => congrArg (·.2.2) hq⟩
  · cases hlayers
    exact ⟨rfl, fun _ => rfl⟩

theorem parse_addresses {raw : RawPacket} (h : (parse raw).value = some (some p))
    (h4 : wordAt raw.data 12 = EtherType.IPv4) :
    (p.srcIpRaw, p.dstIpRaw) = (wordAtLE raw.data 26, wordAtLE raw.data 30) := by
  obtain ⟨-, q, o', hlayers, rfl⟩ := parse_layers h
  have hsame : ((setPayload q raw.data o').srcIpRaw, (setPayload q raw.data o').dstIpRaw) =
      (q.srcIpRaw, q.dstIpRaw) := by
    rw [setPayload]
    split_ifs <;> rfl
  unfold parseLayers at hlayers
  have hether : (etherPacket raw).etherType = EtherType.IPv4 := h4
  rw [if_pos hether] at hlayers
  obtain ⟨_ | ⟨r, o⟩, hip, hlayers⟩ := value_bind_some hlayers
  · cases hlayers
  · have hq := parseTransport_ipFields parseICMP_sameTransport hlayers
    have haddresses : (q.srcIpRaw, q.dstIpRaw) = (r.srcIpRaw, r.dstIpRaw) := congrArg (·.2.2) hq
    rw [hsame, haddresses, parseIPv4_addresses hip]

end PacketParser

end DpiEngine
