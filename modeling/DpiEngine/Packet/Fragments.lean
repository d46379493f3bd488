import DpiEngine.Packet.Extensions

/-! # Later fragments

Only the first fragment of a datagram has a transport header. The walk over the
extension headers stops at a later fragment of an IPv6 datagram. The fragment
offset of an IPv4 header is not looked at, so a later fragment of an IPv4
datagram is parsed as if it had a transport header.
-/

namespace DpiEngine

open Traced

namespace PacketParser

variable {data : List UInt8} {parsed p : ParsedPacket} {o o' : ℕ} {nextHdr nextHdr' : UInt8}

def NoTransport (p : ParsedPacket) : Prop :=
  p.hasTcp = false ∧ p.hasUdp = false ∧ p.hasIcmp = false ∧ p.hasIcmpv6 = false ∧
    p.srcPort = 0 ∧ p.destPort = 0

/-- The frame has a fragment that is not the first of its datagram. -/
inductive LaterFragment (data : List UInt8) : Prop
  | ipv4 : wordAt data 12 = EtherType.IPv4 → wordAt data 20 &&& 0x1FFF ≠ 0 → LaterFragment data
  | ipv6 {n o : ℕ} : wordAt data 12 = EtherType.IPv6 → n < maxExtHeaders →
      ExtChain data n 54 (byteAt data 20) o Protocol.fragment → fragmentOffset data o ≠ 0 →
      LaterFragment data

theorem markExtHeader_noTransport (h : NoTransport parsed) (nextHdr : UInt8) :
    NoTransport (markExtHeader parsed nextHdr) := by
  unfold markExtHeader
  split_ifs <;> exact h

theorem walkHeader_noTransport {step : WalkStep} (hp : NoTransport parsed)
    (h : (walkHeader data o nextHdr parsed).value = some step) : NoTransport step.packet := by
  have hmark := markExtHeader_noTransport hp nextHdr
  unfold walkHeader at h
  split_ifs at h
  · rw [value_walkFragment] at h
    split_ifs at h <;> cases h <;> exact hmark
  · rw [value_walkVariable] at h
    split_ifs at h <;> cases h <;> exact hmark

theorem walkIPv6ExtHeaders_noTransport {count : ℕ} (hp : NoTransport parsed)
    (h : (walkIPv6ExtHeaders data count o nextHdr parsed).value = some (nextHdr', o', p)) :
    NoTransport p :=
  walkIPv6ExtHeaders_keeps (P := fun _ => NoTransport) (fun _ => walkHeader_noTransport) hp h

theorem parseIPv6_noTransport (hp : NoTransport parsed)
    (h : (parseIPv6 data parsed o).value = some (some (p, o'))) : NoTransport p := by
  obtain ⟨-, base, q, ⟨_, _, _, _, _, hbase⟩, hwalk, hpq⟩ := parseIPv6_walk h
  have hb : NoTransport base := by
    rw [hbase]
    exact hp
  have hq : NoTransport q := walkIPv6ExtHeaders_noTransport hb hwalk
  rw [hpq]
  exact hq

theorem parseIPv4_noTransport (hp : NoTransport parsed)
    (h : (parseIPv4 data parsed o).value = some (some (p, o'))) :
    NoTransport p ∧ p.protocol = byteAt data (o + 9) := by
  obtain ⟨-, -, rfl⟩ := parseIPv4_header h
  exact ⟨hp, rfl⟩

theorem ipv6Transport_laterFragment {n : ℕ} (hn : n < maxExtHeaders)
    (hchain : ExtChain data n 54 (byteAt data 20) o Protocol.fragment)
    (hlater : fragmentOffset data o ≠ 0) {protocol : UInt8}
    (h : ipv6Transport data = some (protocol, o')) : protocol = Protocol.noNextHdr := by
  obtain ⟨parsed', -, hwalk⟩ := walkIPv6ExtHeaders_chain hchain (maxExtHeaders - n) {}
  obtain ⟨count, hcount⟩ : ∃ count, maxExtHeaders - n = count + 1 :=
    ⟨maxExtHeaders - n - 1, by omega⟩
  rw [ipv6Transport] at h
  rw [Nat.add_sub_cancel' hn.le] at hwalk
  rw [hwalk, hcount, walkIPv6ExtHeaders, if_pos (by decide), value_bind] at h
  rcases walkHeader_cases data o parsed' (show isExtHeader Protocol.fragment = true by decide) with
    ⟨hat, -⟩ | ⟨-, offset, q, hstep, -⟩
  · exact absurd (hat.first rfl) hlater
  · rw [hstep] at h
    cases h
    rfl

theorem parseTransport_noTransport_iff {icmp : UInt8}
    {parseIcmp : List UInt8 → ParsedPacket → ℕ → Traced (Option (ParsedPacket × ℕ))}
    (hp : NoTransport parsed)
    (hicmp : (parseIcmp data parsed o).value = some (some (p, o')) → ¬ NoTransport p)
    (h : (parseTransport icmp parseIcmp data parsed o).value = some (some (p, o'))) :
    NoTransport p ↔ ¬ (parsed.protocol = Protocol.TCP ∨ parsed.protocol = Protocol.UDP ∨
      parsed.protocol = icmp) := by
  unfold parseTransport at h
  split_ifs at h with h6 h17 h1
  · obtain ⟨-, -, -, -, htcp, -⟩ := parseTCP_some h
    simp [NoTransport, htcp, h6]
  · obtain ⟨-, -, -, hudp, -⟩ := parseUDP_some h
    simp [NoTransport, hudp, h17]
  · have hnot := hicmp h
    simp [hnot, h1]
  · cases h
    simp [hp, h6, h17, h1]

/-- The protocols whose headers the parser reads behind an IPv4 header. -/
def ipv4Transports : List UInt8 := [Protocol.TCP, Protocol.UDP, Protocol.ICMP]

theorem setPayload_noTransport_iff (p : ParsedPacket) (data : List UInt8) (o : ℕ) :
    NoTransport (setPayload p data o) ↔ NoTransport p := by
  unfold setPayload
  split_ifs <;> rfl

/--
An accepted later fragment has no transport header exactly if it is not an IPv4 fragment of a
protocol with a parsed transport header.
-/
theorem parse_laterFragment_iff {raw : RawPacket} (h : (parse raw).value = some (some p))
    (hlater : LaterFragment raw.data) :
    NoTransport p ↔
      ¬ (wordAt raw.data 12 = EtherType.IPv4 ∧ byteAt raw.data 23 ∈ ipv4Transports) := by
  obtain ⟨-, q, o', hlayers, rfl⟩ := parse_layers h
  have hstart : NoTransport (etherPacket raw) := ⟨rfl, rfl, rfl, rfl, rfl, rfl⟩
  have hether : (etherPacket raw).etherType = wordAt raw.data 12 := rfl
  rw [setPayload_noTransport_iff]
  unfold parseLayers at hlayers
  cases hlater with
  | ipv4 h4 hoffset =>
    rw [if_pos (hether.trans h4)] at hlayers
    obtain ⟨_ | ⟨r, o⟩, hip, hlayers⟩ := value_bind_some hlayers
    · cases hlayers
    · obtain ⟨hr, hprotocol⟩ := parseIPv4_noTransport hstart hip
      rw [parseTransport_noTransport_iff hr ?_ hlayers, hprotocol]
      · simp [h4, ipv4Transports]
      · intro hicmp
        obtain ⟨_, _, rfl, -⟩ := parseICMPHeader_some hicmp
        simp [NoTransport]
  | ipv6 h6 hn hchain hoffset =>
    have h4 : wordAt raw.data 12 ≠ EtherType.IPv4 := by
      rw [h6]
      decide
    rw [if_neg (fun h => h4 (hether.symm.trans h)), if_pos (hether.trans h6)] at hlayers
    obtain ⟨_ | ⟨r, o⟩, hip, hlayers⟩ := value_bind_some hlayers
    · cases hlayers
    · have hr := parseIPv6_noTransport hstart hip
      obtain ⟨htransport, -⟩ := parseIPv6_some hip
      have hprotocol := ipv6Transport_laterFragment hn hchain hoffset htransport
      rw [parseTransport_noTransport_iff hr ?_ hlayers, hprotocol]
      · simp [h4, Protocol.noNextHdr, Protocol.TCP, Protocol.UDP, Protocol.ICMPv6]
      · intro hicmp
        obtain ⟨_, _, rfl, -⟩ := parseICMPHeader_some hicmp
        simp [NoTransport]

/-- An IPv4 frame of the given protocol that has the fragment at offset 8 of its datagram. -/
def laterFragment (protocol : UInt8) : RawPacket where
  data := List.replicate 12 0 ++ [0x08, 0x00, 0x45, 0, 0, 28, 0, 1, 0, 1, 64, protocol, 0, 0,
    10, 0, 0, 1, 10, 0, 0, 2, 0x47, 0x45, 0x54, 0x20, 0, 8, 0x48, 0x54]

theorem parse_laterFragment_gre : ∃ p, (parse (laterFragment 47)).value = some (some p) ∧
    (NoTransport p ↔ ¬ (wordAt (laterFragment 47).data 12 = EtherType.IPv4 ∧
      byteAt (laterFragment 47).data 23 ∈ ipv4Transports)) :=
  ⟨_, rfl, parse_laterFragment_iff rfl (.ipv4 rfl (by decide))⟩

/-- The payload bytes of a later UDP fragment become its ports. -/
theorem parse_laterFragment_ports : ∃ p, (parse (laterFragment 17)).value = some (some p) ∧
    LaterFragment (laterFragment 17).data ∧ p.hasUdp = true ∧ p.srcPort = 0x4745 ∧
      p.destPort = 0x5420 :=
  ⟨_, rfl, .ipv4 rfl (by decide), rfl, rfl, rfl⟩

end PacketParser

end DpiEngine
