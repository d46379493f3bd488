import DpiEngine.Packet.Layout

/-! # Frames are parsed inside their bounds

Whatever the bytes of a frame, the parser reads only inside it. Each header
parser moves the consumed offset forward and not beyond the end of the frame,
so the payload of an accepted frame is what is left of it.
-/

namespace DpiEngine

open Traced

namespace PacketParser

variable {data : List UInt8} {parsed p : ParsedPacket} {o o' : ℕ}

theorem parseEthernet_safe (data : List UInt8) (parsed : ParsedPacket) :
    (parseEthernet data parsed).Safe := by
  apply safe_guard; intro hlen
  apply safe_readBytes_bind (by omega); intro destMac
  apply safe_readBytes_bind (by omega); intro srcMac
  apply safe_read16_bind (by omega); intro etherType
  exact safe_pure _

theorem safe_read32LE (h : o + 3 < data.length) : (read32LE data o).Safe := by
  apply safe_read_bind (by omega); intro a
  apply safe_read_bind (by omega); intro b
  apply safe_read_bind (by omega); intro c
  apply safe_read_bind h; intro d
  exact safe_pure _

theorem parseIPv4_safe (data : List UInt8) (parsed : ParsedPacket) (o : ℕ) :
    (parseIPv4 data parsed o).Safe := by
  apply safe_guard; intro hlen
  apply safe_read_bind (by omega); intro versionIhl
  apply safe_guard; intro _
  apply safe_guard; intro _
  apply safe_read_bind (by omega); intro ttl
  apply safe_read_bind (by omega); intro protocol
  apply (safe_read32LE (by omega)).andThen; intro srcIpRaw _
  apply (safe_read32LE (by omega)).andThen; intro dstIpRaw _
  exact safe_pure _

theorem walkFragment_safe (data : List UInt8) (o : ℕ) (parsed : ParsedPacket) :
    (walkFragment data o parsed).Safe := by
  apply safe_guard; intro hlen
  apply safe_read_bind (by omega); intro nextNh
  apply safe_read16_bind (by omega); intro fragData
  exact safe_guard fun _ => safe_pure _

theorem walkVariable_safe (data : List UInt8) (o : ℕ) (nextHdr : UInt8) (parsed : ParsedPacket) :
    (walkVariable data o nextHdr parsed).Safe := by
  apply safe_guard; intro hlen
  apply safe_read_bind (by omega); intro nhField
  apply safe_read_bind (by omega); intro hdrExtLen
  exact safe_guard fun _ => safe_pure _

theorem walkHeader_safe (data : List UInt8) (o : ℕ) (nextHdr : UInt8) (parsed : ParsedPacket) :
    (walkHeader data o nextHdr parsed).Safe :=
  safe_ite.mpr ⟨fun _ => walkFragment_safe _ _ _, fun _ => walkVariable_safe _ _ _ _⟩

theorem walkIPv6ExtHeaders_safe (data : List UInt8) (count o : ℕ) (nextHdr : UInt8)
    (parsed : ParsedPacket) : (walkIPv6ExtHeaders data count o nextHdr parsed).Safe := by
  induction count generalizing o nextHdr parsed with
  | zero => exact safe_pure _
  | succ count ih =>
    apply safe_when; intro _
    apply (walkHeader_safe data o nextHdr parsed).andThen; intro step _
    cases step with
    | next offset nextHdr parsed => exact ih _ _ _
    | stop offset parsed => exact safe_pure _

theorem readIPv6Address_safe (h : o + 16 ≤ data.length) : (readIPv6Address data o).Safe :=
  safe_readBytes_bind h fun _ => safe_pure _

theorem parseIPv6_safe (data : List UInt8) (parsed : ParsedPacket) (o : ℕ) :
    (parseIPv6 data parsed o).Safe := by
  apply safe_guard; intro hlen
  apply safe_read_bind (by omega); intro b0
  apply safe_guard; intro _
  apply safe_read_bind (by omega); intro b1
  apply safe_read_bind (by omega); intro b2
  apply safe_read_bind (by omega); intro b3
  apply safe_read16_bind (by omega); intro payloadLen
  apply safe_read_bind (by omega); intro nextHdr
  apply safe_read_bind (by omega); intro hopLimit
  apply (readIPv6Address_safe (by omega)).andThen; intro srcIpv6 _
  apply (readIPv6Address_safe (by omega)).andThen; intro dstIpv6 _
  apply (walkIPv6ExtHeaders_safe _ _ _ _ _).andThen; intro walked _
  exact safe_pure _

theorem parseTCP_safe (data : List UInt8) (parsed : ParsedPacket) (o : ℕ) :
    (parseTCP data parsed o).Safe := by
  apply safe_guard; intro hlen
  apply safe_read16_bind (by omega); intro srcPort
  apply safe_read16_bind (by omega); intro destPort
  apply (safe_read32.mpr (by omega)).andThen; intro seqNumber _
  apply (safe_read32.mpr (by omega)).andThen; intro ackNumber _
  apply safe_read_bind (by omega); intro b12
  apply safe_guard; intro _
  apply safe_guard; intro _
  apply safe_read_bind (by omega); intro tcpFlags
  exact safe_pure _

theorem parseUDP_safe (data : List UInt8) (parsed : ParsedPacket) (o : ℕ) :
    (parseUDP data parsed o).Safe := by
  apply safe_guard; intro hlen
  apply safe_read16_bind (by omega); intro srcPort
  apply safe_read16_bind (by omega); intro destPort
  apply safe_read16_bind (by omega); intro udpLen
  apply safe_guard; intro _
  exact safe_guard fun _ => safe_pure _

theorem parseICMPHeader_safe (mark : ParsedPacket → ParsedPacket) (data : List UInt8)
    (parsed : ParsedPacket) (o : ℕ) : (parseICMPHeader mark data parsed o).Safe := by
  apply safe_guard; intro hlen
  apply safe_read_bind (by omega); intro icmpType
  apply safe_read_bind (by omega); intro icmpCode
  exact safe_pure _

theorem parseTransport_safe {icmp : UInt8}
    {parseIcmp : List UInt8 → ParsedPacket → ℕ → Traced (Option (ParsedPacket × ℕ))}
    (hicmp : ∀ parsed o, (parseIcmp data parsed o).Safe) (parsed : ParsedPacket) (o : ℕ) :
    (parseTransport icmp parseIcmp data parsed o).Safe := by
  unfold parseTransport
  split_ifs
  · exact parseTCP_safe _ _ _
  · exact parseUDP_safe _ _ _
  · exact hicmp _ _
  · exact safe_pure _

theorem parseLayers_safe (data : List UInt8) (parsed : ParsedPacket) (o : ℕ) :
    (parseLayers data parsed o).Safe := by
  unfold parseLayers
  split_ifs
  · apply (parseIPv4_safe _ _ _).andThen
    rintro (_ | ⟨q, o'⟩) _
    · exact safe_pure _
    · exact parseTransport_safe (parseICMPHeader_safe _ data) q o'
  · apply (parseIPv6_safe _ _ _).andThen
    rintro (_ | ⟨q, o'⟩) _
    · exact safe_pure _
    · exact parseTransport_safe (parseICMPHeader_safe _ data) q o'
  · exact safe_pure _

theorem parse_safe (raw : RawPacket) : (parse raw).Safe := by
  apply (parseEthernet_safe _ _).andThen
  rintro (_ | ⟨q, o⟩) _
  · exact safe_pure _
  · apply (parseLayers_safe _ _ _).andThen
    rintro (_ | ⟨q', o'⟩) _
    · exact safe_pure _
    · exact safe_pure _

theorem walkHeader_le {nextHdr : UInt8} {step : WalkStep} (ho : o ≤ data.length)
    (h : (walkHeader data o nextHdr parsed).value = some step) :
    step.position.1 ≤ data.length := by
  unfold walkHeader at h
  split_ifs at h
  · rw [value_walkFragment] at h
    split_ifs at h with hlen hfrag <;> cases h <;> simp only [WalkStep.position] <;> omega
  · rw [value_walkVariable] at h
    split_ifs at h with hlen hfit <;> cases h <;> simp only [WalkStep.position] <;> omega

/-- Wherever the walk ends, it has not gone back and not left the frame. -/
theorem walkIPv6ExtHeaders_within {count : ℕ} {nextHdr protocol : UInt8} (ho : o ≤ data.length)
    (h : (walkIPv6ExtHeaders data count o nextHdr parsed).value = some (protocol, o', p)) :
    o ≤ o' ∧ o' ≤ data.length := by
  refine ⟨(walkIPv6ExtHeaders_advances h).1, ?_⟩
  exact walkIPv6ExtHeaders_keeps (P := fun o _ => o ≤ data.length) (fun _ => walkHeader_le) ho h

/-- A header parser that is called at `o` moves the offset forward, to the end at most. -/
def Advances (data : List UInt8) (o : ℕ) (x : Traced (Option (ParsedPacket × ℕ))) : Prop :=
  ∀ p o', x.value = some (some (p, o')) → o ≤ o' ∧ o' ≤ data.length

theorem advances_none : Advances data o (pure none) := by
  rintro p o' h
  cases h

theorem Advances.guard {c : Prop} [Decidable c] {x : Traced (Option (ParsedPacket × ℕ))}
    (h : ¬ c → Advances data o x) : Advances data o (if c then pure none else x) := by
  split_ifs with hc
  · exact advances_none
  · exact h hc

theorem parseEthernet_advances (data : List UInt8) (parsed : ParsedPacket) :
    Advances data 0 (parseEthernet data parsed) := by
  rintro p o' h
  obtain ⟨hlen, rfl, -⟩ := parseEthernet_some h
  exact ⟨Nat.zero_le _, hlen⟩

theorem parseIPv4_advances (data : List UInt8) (parsed : ParsedPacket) (o : ℕ) :
    Advances data o (parseIPv4 data parsed o) := by
  rintro p o' h
  obtain ⟨rfl, hle, -⟩ := parseIPv4_some h
  exact ⟨Nat.le_add_right _ _, hle⟩

theorem parseIPv6_advances (data : List UInt8) (parsed : ParsedPacket) (o : ℕ) :
    Advances data o (parseIPv6 data parsed o) := by
  rintro p o' h
  obtain ⟨hlen, base, q, -, hwalk, -⟩ := parseIPv6_walk h
  obtain ⟨hge, hle⟩ := walkIPv6ExtHeaders_within hlen hwalk
  exact ⟨by omega, hle⟩

theorem parseTCP_advances (data : List UInt8) (parsed : ParsedPacket) (o : ℕ) :
    Advances data o (parseTCP data parsed o) := by
  rintro p o' h
  obtain ⟨-, -, hge, hle, -⟩ := parseTCP_some h
  exact ⟨by omega, hle⟩

theorem parseUDP_advances (data : List UInt8) (parsed : ParsedPacket) (o : ℕ) :
    Advances data o (parseUDP data parsed o) := by
  rintro p o' h
  obtain ⟨hle, rfl, -⟩ := parseUDP_some h
  exact ⟨Nat.le_add_right _ _, hle⟩

theorem parseICMPHeader_advances (mark : ParsedPacket → ParsedPacket) (data : List UInt8)
    (parsed : ParsedPacket) (o : ℕ) : Advances data o (parseICMPHeader mark data parsed o) := by
  apply Advances.guard
  rintro hlen p o' h
  obtain ⟨-, h⟩ := value_read_bind h
  obtain ⟨-, h⟩ := value_read_bind h
  cases h
  exact ⟨Nat.le_add_right _ _, by omega⟩

theorem parseTransport_advances {icmp : UInt8}
    {parseIcmp : List UInt8 → ParsedPacket → ℕ → Traced (Option (ParsedPacket × ℕ))}
    (hicmp : ∀ parsed o, Advances data o (parseIcmp data parsed o)) (parsed : ParsedPacket)
    (ho : o ≤ data.length) :
    Advances data o (parseTransport icmp parseIcmp data parsed o) := by
  unfold parseTransport
  split_ifs
  · exact parseTCP_advances _ _ _
  · exact parseUDP_advances _ _ _
  · exact hicmp _ _
  · rintro p o' h
    cases h
    exact ⟨le_rfl, ho⟩

theorem Advances.bind {x : Traced (Option (ParsedPacket × ℕ))}
    {f : ParsedPacket → ℕ → Traced (Option (ParsedPacket × ℕ))} (hx : Advances data o x)
    (hf : ∀ q o', o' ≤ data.length → Advances data o' (f q o')) :
    Advances data o (x >>= fun
      | none => pure none
      | some (q, o') => f q o') := by
  rintro p o' h
  obtain ⟨_ | ⟨q, m⟩, hq, h⟩ := value_bind_some h
  · cases h
  · obtain ⟨hge, hle⟩ := hx q m hq
    obtain ⟨hge', hle'⟩ := hf q m hle p o' h
    exact ⟨hge.trans hge', hle'⟩

theorem parseLayers_advances (data : List UInt8) (parsed : ParsedPacket) (ho : o ≤ data.length) :
    Advances data o (parseLayers data parsed o) := by
  unfold parseLayers
  split_ifs
  · exact (parseIPv4_advances _ _ _).bind fun q o' hle =>
      parseTransport_advances (parseICMPHeader_advances _ data) q hle
  · exact (parseIPv6_advances _ _ _).bind fun q o' hle =>
      parseTransport_advances (parseICMPHeader_advances _ data) q hle
  · rintro p o' h
    cases h
    exact ⟨le_rfl, ho⟩

theorem parseTransport_payloadFields {icmp : UInt8}
    {parseIcmp : List UInt8 → ParsedPacket → ℕ → Traced (Option (ParsedPacket × ℕ))}
    (hicmp : (parseIcmp data parsed o).value = some (some (p, o')) → SameTransport p parsed)
    (h : (parseTransport icmp parseIcmp data parsed o).value = some (some (p, o'))) :
    payloadFields p = payloadFields parsed := by
  unfold parseTransport at h
  split_ifs at h
  · obtain ⟨-, -, -, -, -, -, -, hpay⟩ := parseTCP_some h
    exact hpay
  · obtain ⟨-, -, -, -, -, hpay⟩ := parseUDP_some h
    exact hpay
  · exact (hicmp h).2.2.2
  · cases h
    rfl

theorem parseLayers_payloadFields (h : (parseLayers data parsed 14).value = some (some (p, o'))) :
    payloadFields p = payloadFields parsed := by
  unfold parseLayers at h
  split_ifs at h
  · obtain ⟨_ | ⟨q, o⟩, hip, h⟩ := value_bind_some h
    · cases h
    · obtain ⟨-, -, -, -, -, hpay⟩ := parseIPv4_some hip
      exact (parseTransport_payloadFields parseICMP_sameTransport h).trans hpay
  · obtain ⟨_ | ⟨q, o⟩, hip, h⟩ := value_bind_some h
    · cases h
    · obtain ⟨-, -, -, -, hpay⟩ := parseIPv6_some hip
      exact (parseTransport_payloadFields parseICMPv6_sameTransport h).trans hpay
  · cases h
    rfl

structure PayloadFrom (raw : RawPacket) (o : ℕ) (p : ParsedPacket) : Prop where
  length_eq : o + p.payloadLength = raw.data.length
  data_eq : p.payloadData = if o < raw.data.length then some o else none
  suffix : ∀ i, p.payloadData = some i →
    (raw.data.drop i).take p.payloadLength = raw.data.drop o

theorem setPayload_from {raw : RawPacket} (ho : o ≤ raw.data.length) (hlen : p.payloadLength = 0)
    (hdata : p.payloadData = none) : PayloadFrom raw o (setPayload p raw.data o) := by
  unfold setPayload
  split_ifs with hlt
  · refine ⟨by simp only; omega, by simp [hlt], ?_⟩
    rintro i hi
    obtain rfl : o = i := Option.some.inj hi
    exact List.take_of_length_le (List.length_drop.le)
  · refine ⟨by omega, by rw [hdata, if_neg hlt], ?_⟩
    rintro i hi
    rw [hdata] at hi
    cases hi

/-- A frame is parsed inside its bounds, header by header, down to its payload. -/
structure Delimited (raw : RawPacket) : Prop where
  safe : (parse raw).Safe
  ethernet : ∀ parsed, Advances raw.data 0 (parseEthernet raw.data parsed)
  ipv4 : ∀ parsed o, Advances raw.data o (parseIPv4 raw.data parsed o)
  ipv6 : ∀ parsed o, Advances raw.data o (parseIPv6 raw.data parsed o)
  walk : ∀ count o nextHdr parsed, o ≤ raw.data.length → ∀ protocol o' p,
    (walkIPv6ExtHeaders raw.data count o nextHdr parsed).value = some (protocol, o', p) →
      o ≤ o' ∧ o' ≤ raw.data.length
  tcp : ∀ parsed o, Advances raw.data o (parseTCP raw.data parsed o)
  udp : ∀ parsed o, Advances raw.data o (parseUDP raw.data parsed o)
  icmp : ∀ parsed o, Advances raw.data o (parseICMP raw.data parsed o)
  icmpv6 : ∀ parsed o, Advances raw.data o (parseICMPv6 raw.data parsed o)
  payload : ∀ p, (parse raw).value = some (some p) → ∃ q o,
    (parseLayers raw.data (etherPacket raw) 14).value = some (some (q, o)) ∧ 14 ≤ o ∧
      o ≤ raw.data.length ∧ PayloadFrom raw o p

/--
For every frame the parser reads only inside it, the consumed offset never decreases and never
leaves the frame, and the payload of an accepted frame is exactly what is left.
-/
theorem parse_delimited (raw : RawPacket) : Delimited raw where
  safe := parse_safe raw
  ethernet := parseEthernet_advances raw.data
  ipv4 := parseIPv4_advances raw.data
  ipv6 := parseIPv6_advances raw.data
  walk _ _ _ _ ho _ _ _ h := walkIPv6ExtHeaders_within ho h
  tcp := parseTCP_advances raw.data
  udp := parseUDP_advances raw.data
  icmp := parseICMPHeader_advances _ raw.data
  icmpv6 := parseICMPHeader_advances _ raw.data
  payload p h := by
    obtain ⟨hlen, q, o, hlayers, rfl⟩ := parse_layers h
    obtain ⟨hge, hle⟩ := parseLayers_advances raw.data (etherPacket raw) hlen q o hlayers
    obtain ⟨hzero, hnone⟩ := Prod.mk.inj (parseLayers_payloadFields hlayers)
    exact ⟨q, o, hlayers, hge, hle, setPayload_from hle hzero hnone⟩

end PacketParser

end DpiEngine
