import DpiEngine.Packet.Encode
import DpiEngine.Packet.Layout

/-! # Parsing encoded frames

Every header parser reads back the header that it finds behind a prefix of the
frame, whatever follows it. An encoded frame is accepted with all its fields.
-/

namespace DpiEngine

open Traced

theorem toNat_nibbles {high low : ℕ} (hh : high < 16) (hl : low < 16) :
    (nibbles high low).toNat = high * 16 + low := by
  rw [nibbles, UInt8.toNat_ofNat']
  omega

theorem highNibble_nibbles {high low : ℕ} (hh : high < 16) (hl : low < 16) :
    highNibble (nibbles high low) = high := by
  rw [highNibble, toNat_nibbles hh hl, Nat.shiftRight_eq_div_pow,
    show 0x0F = 2 ^ 4 - 1 from rfl, Nat.and_two_pow_sub_one_eq_mod]
  omega

theorem lowNibble_nibbles {high low : ℕ} (hh : high < 16) (hl : low < 16) :
    lowNibble (nibbles high low) = low := by
  rw [lowNibble, toNat_nibbles hh hl, show 0x0F = 2 ^ 4 - 1 from rfl,
    Nat.and_two_pow_sub_one_eq_mod]
  omega

namespace IPv4Header

theorem ihl_bounds (h : IPv4Header) : 5 ≤ h.ihl ∧ h.ihl < 16 := by
  have := h.options.words_le
  unfold ihl
  omega

theorem length_encode (h : IPv4Header) (protocol : UInt8) :
    (h.encode protocol).length = h.ihl * 4 := by
  simp [encode, ihl, bytes16, bytes32LE, h.options.length_eq]
  omega

end IPv4Header

namespace IPv6Header

def front (h : IPv6Header) (protocol : UInt8) : List UInt8 :=
  [nibbles 6 (h.trafficClass.toNat / 16),
    nibbles (h.trafficClass.toNat % 16) (h.flowLabel / 65536)] ++
    bytes16 (h.flowLabel % 65536) ++ bytes16 h.payloadLength.toNat ++
    [nextHeader protocol h.extensions, h.hopLimit]

variable (h : IPv6Header) (protocol : UInt8)

@[simp] theorem length_front : (h.front protocol).length = 8 := by simp [front, bytes16]

theorem encode_eq : h.encode protocol =
    h.front protocol ++ (h.src.toList ++ (h.dst.toList ++ encodeChain protocol h.extensions)) := by
  simp [encode, front]

theorem length_encode :
    (h.encode protocol).length = 40 + (encodeChain protocol h.extensions).length := by
  simp only [encode_eq, List.length_append, length_front, Vector.length_toList]
  omega

end IPv6Header

namespace Datagram

def ethernet (d : Datagram) : List UInt8 :=
  d.destMac.toList ++ (d.srcMac.toList ++ bytes16 d.etherType)

variable (d : Datagram)

@[simp] theorem length_ethernet : d.ethernet.length = 14 := by simp [ethernet, bytes16]

theorem headers_eq : d.headers = d.ethernet ++ (d.ipHeader ++ d.segment.header) := by
  simp [headers, ethernet]

theorem encode_append_eq (trailer : List UInt8) : d.encode ++ trailer =
    d.ethernet ++ (d.ipHeader ++ (d.segment.header ++ (d.segment.payload ++ trailer))) := by
  simp [encode, headers_eq]

theorem wordAt_etherType (rest : List UInt8) : wordAt (d.ethernet ++ rest) 12 = d.etherType := by
  have hsmall : d.etherType < 2 ^ 16 := by unfold etherType; split <;> decide
  exact wordAt_eq (d.destMac.toList ++ d.srcMac.toList) rest (by simp [ethernet]) (by simp) hsmall

end Datagram

namespace PacketParser

variable {pre rest : List UInt8} {parsed : ParsedPacket} {protocol : UInt8}

theorem parseIPv4_encode (h : IPv4Header) :
    (parseIPv4 (pre ++ (h.encode protocol ++ rest)) parsed pre.length).value =
      some (some (h.parsed protocol parsed, pre.length + (h.encode protocol).length)) := by
  have hihl : 5 ≤ h.ihl ∧ h.ihl < 16 := h.ihl_bounds
  have hlength := h.length_encode protocol
  obtain ⟨data, hdata⟩ : ∃ data, data = pre ++ (h.encode protocol ++ rest) := ⟨_, rfl⟩
  have hlen : pre.length + h.ihl * 4 ≤ data.length := by
    simp only [hdata, List.length_append, hlength]
    omega
  have hfirst : (read data pre.length).value = some (nibbles 4 h.ihl) := by
    simp [hdata, IPv4Header.encode]
  have httl : (read data (pre.length + 8)).value = some h.ttl := by
    simp [hdata, IPv4Header.encode, bytes16]
  have hprotocol : (read data (pre.length + 9)).value = some protocol := by
    simp [hdata, IPv4Header.encode, bytes16]
  have hsrc : (read32LE data (pre.length + 12)).value = some h.src := by
    simp [hdata, IPv4Header.encode, bytes16, bytes32LE, be32_bytes]
  have hdst : (read32LE data (pre.length + 16)).value = some h.dst := by
    simp [hdata, IPv4Header.encode, bytes16, bytes32LE, be32_bytes]
  rw [← hdata, parseIPv4, if_neg (by omega), value_bind, hfirst, Option.bind_some,
    highNibble_nibbles (by omega) hihl.2, if_neg (by simp), lowNibble_nibbles (by omega) hihl.2,
    if_neg (by omega)]
  simp only [value_bind, httl, hprotocol, hsrc, hdst, Option.bind_some, value_pure, hlength]
  rfl

theorem parseTCP_encode (h : TCPHeader) :
    (parseTCP (pre ++ (h.encode ++ rest)) parsed pre.length).value =
      some (some (h.parsed parsed, pre.length + h.encode.length)) := by
  have hwords := h.options.words_le
  have hlength : h.encode.length = (5 + h.options.words) * 4 := by
    simp [TCPHeader.encode, bytes16, bytes32, h.options.length_eq]
    omega
  obtain ⟨data, hdata⟩ : ∃ data, data = pre ++ (h.encode ++ rest) := ⟨_, rfl⟩
  have hlen : pre.length + (5 + h.options.words) * 4 ≤ data.length := by
    simp only [hdata, List.length_append, hlength]
    omega
  have hsrc : (read16 data pre.length).value = some h.srcPort.toNat := by
    simp [hdata, TCPHeader.encode, bytes16]
  have hdest : (read16 data (pre.length + 2)).value = some h.destPort.toNat := by
    simp [hdata, TCPHeader.encode, bytes16]
  have hseq : (read32 data (pre.length + 4)).value = some h.seq := by
    simp [hdata, TCPHeader.encode, bytes16, bytes32, be32_bytes]
  have hack : (read32 data (pre.length + 8)).value = some h.ack := by
    simp [hdata, TCPHeader.encode, bytes16, bytes32, be32_bytes]
  have hoffset : (read data (pre.length + 12)).value =
      some (nibbles (5 + h.options.words) h.reserved) := by
    simp [hdata, TCPHeader.encode, bytes16, bytes32]
  have hflags : (read data (pre.length + 13)).value = some h.flags := by
    simp [hdata, TCPHeader.encode, bytes16, bytes32]
  rw [← hdata, parseTCP, if_neg (by omega)]
  simp only [value_bind, hsrc, hdest, hseq, hack, hoffset, Option.bind_some,
    highNibble_nibbles (show 5 + h.options.words < 16 by omega) h.reserved.isLt]
  rw [if_neg (by omega), if_neg (by omega), value_bind, hflags, Option.bind_some, value_pure,
    UInt16.ofNat_toNat, UInt16.ofNat_toNat, hlength]
  rfl

theorem parseUDP_encode (h : UDPHeader) {length : ℕ} (hmin : 8 ≤ length) (hmax : length < 2 ^ 16)
    (hrest : length ≤ 8 + rest.length) :
    (parseUDP (pre ++ (h.encode length ++ rest)) parsed pre.length).value =
      some (some (h.parsed parsed, pre.length + (h.encode length).length)) := by
  have hlength : (h.encode length).length = 8 := by simp [UDPHeader.encode, bytes16]
  obtain ⟨data, hdata⟩ : ∃ data, data = pre ++ (h.encode length ++ rest) := ⟨_, rfl⟩
  have hlen : pre.length + length ≤ data.length := by
    simp only [hdata, List.length_append, hlength]
    omega
  have hsrc : (read16 data pre.length).value = some h.srcPort.toNat := by
    simp [hdata, UDPHeader.encode, bytes16]
  have hdest : (read16 data (pre.length + 2)).value = some h.destPort.toNat := by
    simp [hdata, UDPHeader.encode, bytes16]
  have hudp : (read16 data (pre.length + 4)).value = some length := by
    simp [hdata, UDPHeader.encode, bytes16, be16_bytes hmax]
  rw [← hdata, parseUDP, if_neg (by omega)]
  simp only [value_bind, hsrc, hdest, hudp, Option.bind_some]
  rw [if_neg (by omega), if_neg (by omega), value_pure, UInt16.ofNat_toNat, UInt16.ofNat_toNat,
    hlength]
  rfl

theorem parseICMPHeader_encode (mark : ParsedPacket → ParsedPacket) (h : ICMPHeader) :
    (parseICMPHeader mark (pre ++ (h.encode ++ rest)) parsed pre.length).value =
      some (some (mark { parsed with icmpType := h.icmpType, icmpCode := h.icmpCode },
        pre.length + h.encode.length)) := by
  have hlength : h.encode.length = 8 := by simp [ICMPHeader.encode, bytes16, bytes32]
  obtain ⟨data, hdata⟩ : ∃ data, data = pre ++ (h.encode ++ rest) := ⟨_, rfl⟩
  have hlen : pre.length + 8 ≤ data.length := by
    simp only [hdata, List.length_append, hlength]
    omega
  have htype : (read data pre.length).value = some h.icmpType := by simp [hdata, ICMPHeader.encode]
  have hcode : (read data (pre.length + 1)).value = some h.icmpCode := by
    simp [hdata, ICMPHeader.encode]
  rw [← hdata, parseICMPHeader, if_neg (by omega)]
  simp only [value_bind, htype, hcode, Option.bind_some, value_pure, hlength]

section Chain

variable (e : ExtHeader) (es : List ExtHeader)

theorem isExtHeader_code : isExtHeader e.code = true := by
  cases e with
  | sized kind lengthByte body h => cases kind <;> rfl
  | fragment reserved flags identification => rfl

theorem fragOffset_eq_zero : ∀ flags : Fin 8, (flags.val &&& 0xFFF8) >>> 3 = 0 := by decide

theorem length_sized (nextHdr : UInt8) {kind : ExtKind} {lengthByte : UInt8} {body : List UInt8}
    (h : 2 + body.length = kind.size lengthByte) :
    ((ExtHeader.sized kind lengthByte body h).encode nextHdr).length =
      extHdrTotal kind.code lengthByte := by
  have hsize : kind.size lengthByte = extHdrTotal kind.code lengthByte := by
    cases kind <;> simp [ExtKind.size, ExtKind.code, extHdrTotal, Protocol.auth] <;> omega
  simp [ExtHeader.encode, ← hsize, ← h]
  omega

theorem walkHeader_encode (nextHdr : UInt8) :
    (walkHeader (pre ++ (e.encode nextHdr ++ rest)) pre.length e.code parsed).value =
      some (.next (pre.length + (e.encode nextHdr).length) nextHdr
        (markExtHeader parsed e.code)) := by
  obtain ⟨data, hdata⟩ : ∃ data, data = pre ++ (e.encode nextHdr ++ rest) := ⟨_, rfl⟩
  have hlen : pre.length + (e.encode nextHdr).length ≤ data.length := by
    simp only [hdata, List.length_append]
    omega
  have hnext : byteAt data pre.length = nextHdr := by
    cases e <;> simp [byteAt, hdata, ExtHeader.encode]
  rw [← hdata]
  cases e with
  | sized kind lengthByte body h =>
    have hlengthByte : byteAt data (pre.length + 1) = lengthByte := by
      simp [byteAt, hdata, ExtHeader.encode]
    have hne : kind.code ≠ Protocol.fragment := by cases kind <;> decide
    have hmin : 8 ≤ extHdrTotal kind.code lengthByte := by
      unfold extHdrTotal
      split_ifs <;> omega
    rw [length_sized] at hlen ⊢
    change (walkHeader data pre.length kind.code parsed).value = _
    rw [walkHeader, if_neg hne, value_walkVariable, hnext, hlengthByte, if_neg (by omega),
      if_neg (by omega)]
    rfl
  | fragment reserved flags identification =>
    have hlength :
        ((ExtHeader.fragment reserved flags identification).encode nextHdr).length = 8 := by
      simp [ExtHeader.encode, bytes32]
    have hoffset : (wordAt data (pre.length + 2) &&& 0xFFF8) >>> 3 = 0 := by
      have hword : wordAt data (pre.length + 2) = flags := by
        simp [wordAt, byteAt, hdata, ExtHeader.encode, be16_eq, Nat.add_assoc]
        omega
      rw [hword, fragOffset_eq_zero]
    rw [hlength] at hlen ⊢
    change (walkHeader data pre.length Protocol.fragment parsed).value = _
    rw [walkHeader, if_pos rfl, value_walkFragment, hnext, hoffset, if_neg (by omega),
      if_neg (by omega)]
    rfl

def markChain (p : ParsedPacket) (es : List ExtHeader) : ParsedPacket :=
  { p with
    hasIpv6HopByHop := p.hasIpv6HopByHop || es.any (·.code = 0)
    hasIpv6Routing := p.hasIpv6Routing || es.any (·.code = 43)
    hasIpv6Fragment := p.hasIpv6Fragment || es.any (·.code = 44)
    hasIpv6DestOpts := p.hasIpv6DestOpts || es.any (·.code = 60)
    hasIpv6Auth := p.hasIpv6Auth || es.any (·.code = 51) }

theorem markChain_nil (p : ParsedPacket) : markChain p [] = p := by
  simp [markChain]

theorem markChain_cons (p : ParsedPacket) :
    markChain (markExtHeader p e.code) es = markChain p (e :: es) := by
  cases e with
  | sized kind lengthByte body h =>
    cases kind <;> simp [markChain, markExtHeader, ExtHeader.code, ExtKind.code, Protocol.hopByHop,
      Protocol.routing, Protocol.fragment, Protocol.destOpts, Protocol.auth]
  | fragment reserved flags identification =>
    simp [markChain, markExtHeader, ExtHeader.code, Protocol.hopByHop, Protocol.routing,
      Protocol.fragment]

theorem walkIPv6ExtHeaders_encodeChain (pre rest : List UInt8) (parsed : ParsedPacket)
    (hprotocol : isExtHeader protocol = false) {count : ℕ} (hcount : es.length ≤ count) :
    (walkIPv6ExtHeaders (pre ++ (encodeChain protocol es ++ rest)) count pre.length
        (nextHeader protocol es) parsed).value =
      some (protocol, pre.length + (encodeChain protocol es).length, markChain parsed es) := by
  induction es generalizing count pre parsed with
  | nil =>
    cases count with
    | zero => simp [walkIPv6ExtHeaders, nextHeader, encodeChain, markChain_nil]
    | succ count => simp [walkIPv6ExtHeaders, nextHeader, encodeChain, hprotocol, markChain_nil]
  | cons e es ih =>
    cases count with
    | zero => simp at hcount
    | succ count =>
      have hrest : es.length ≤ count := Nat.le_of_succ_le_succ hcount
      have htail := ih (pre ++ e.encode (nextHeader protocol es)) (markExtHeader parsed e.code)
        hrest
      rw [List.append_assoc, List.length_append, markChain_cons, Nat.add_assoc] at htail
      rw [walkIPv6ExtHeaders, nextHeader, if_pos (isExtHeader_code e), encodeChain,
        List.append_assoc, value_bind, walkHeader_encode, Option.bind_some, htail,
        List.length_append]

end Chain

theorem value_readIPv6Address (pre rest : List UInt8) (a : IPv6Address) :
    (readIPv6Address (pre ++ (a.toList ++ rest)) pre.length).value = some a := by
  have hread : (readBytes (pre ++ (a.toList ++ rest)) pre.length 16).value = some a.toList := by
    rw [value_readBytes_of_le (by simp)]
    simp
  rw [readIPv6Address, value_bind, hread, Option.bind_some, value_pure]
  congr 1
  ext i hi
  simp

theorem trafficClass_nibbles (tc : UInt8) :
    UInt8.ofNat ((tc.toNat / 16) <<< 4 ||| tc.toNat % 16) = tc := by
  rw [shiftLeft_or 4 (by omega), show tc.toNat / 16 * 2 ^ 4 + tc.toNat % 16 = tc.toNat by omega,
    UInt8.ofNat_toNat]

theorem flowLabel_bytes (n : ℕ) :
    (n / 65536) <<< 16 ||| (UInt8.ofNat (n % 65536 / 256)).toNat <<< 8 |||
      (UInt8.ofNat (n % 65536)).toNat = n := by
  rw [UInt8.toNat_ofNat', UInt8.toNat_ofNat', Nat.or_assoc, shiftLeft_or 8 (by omega),
    shiftLeft_or 16 (by omega)]
  omega

/-- No extension header has been seen. -/
def Unmarked (p : ParsedPacket) : Prop :=
  p.hasIpv6HopByHop = false ∧ p.hasIpv6Routing = false ∧ p.hasIpv6Fragment = false ∧
    p.hasIpv6DestOpts = false ∧ p.hasIpv6Auth = false

section Addresses

variable (h : IPv6Header)

theorem value_src_encode :
    (readIPv6Address (pre ++ (h.encode protocol ++ rest)) (pre.length + 8)).value = some h.src := by
  have hread := value_readIPv6Address (pre ++ h.front protocol)
    (h.dst.toList ++ encodeChain protocol h.extensions ++ rest) h.src
  rw [List.length_append, h.length_front] at hread
  rw [← hread, h.encode_eq]
  simp only [List.append_assoc]

theorem value_dst_encode :
    (readIPv6Address (pre ++ (h.encode protocol ++ rest)) (pre.length + 24)).value =
      some h.dst := by
  have hread := value_readIPv6Address (pre ++ (h.front protocol ++ h.src.toList))
    (encodeChain protocol h.extensions ++ rest) h.dst
  rw [List.length_append, List.length_append, h.length_front, Vector.length_toList] at hread
  rw [← hread, h.encode_eq]
  simp only [List.append_assoc]

/-- The walk over the extension headers of an encoded header. -/
theorem value_walk_encode (p : ParsedPacket) (hprotocol : isExtHeader protocol = false) :
    (walkIPv6ExtHeaders (pre ++ (h.encode protocol ++ rest)) maxExtHeaders (pre.length + 40)
      (nextHeader protocol h.extensions) p).value =
      some (protocol, pre.length + (h.encode protocol).length, markChain p h.extensions) := by
  have hchain := walkIPv6ExtHeaders_encodeChain h.extensions
    (pre ++ (h.front protocol ++ (h.src.toList ++ h.dst.toList))) rest p hprotocol h.extensions_le
  simp only [List.length_append, h.length_front, Vector.length_toList] at hchain
  rw [h.length_encode, ← Nat.add_assoc, h.encode_eq, maxExtHeaders]
  rw [← hchain]
  simp only [List.append_assoc]

end Addresses

theorem parseIPv6_encode (h : IPv6Header) (hprotocol : isExtHeader protocol = false)
    (hunmarked : Unmarked parsed) :
    (parseIPv6 (pre ++ (h.encode protocol ++ rest)) parsed pre.length).value =
      some (some (h.parsed protocol parsed, pre.length + (h.encode protocol).length)) := by
  obtain ⟨data, hdata⟩ : ∃ data, data = pre ++ (h.encode protocol ++ rest) := ⟨_, rfl⟩
  obtain ⟨label, hlabel⟩ : ∃ label : ℕ, label = h.flowLabel := ⟨_, rfl⟩
  have hfits : label < 2 ^ 20 := hlabel ▸ h.flowLabel.isLt
  have hfront : h.front protocol = [nibbles 6 (h.trafficClass.toNat / 16),
      nibbles (h.trafficClass.toNat % 16) (label / 65536)] ++ bytes16 (label % 65536) ++
      bytes16 h.payloadLength.toNat ++ [nextHeader protocol h.extensions, h.hopLimit] := by
    rw [hlabel]
    rfl
  have hlen : pre.length + 40 ≤ data.length := by
    simp only [hdata, List.length_append, h.length_encode]
    omega
  have hb0 : (read data pre.length).value = some (nibbles 6 (h.trafficClass.toNat / 16)) := by
    simp [hdata, h.encode_eq, hfront]
  have hb1 : (read data (pre.length + 1)).value =
      some (nibbles (h.trafficClass.toNat % 16) (label / 65536)) := by
    simp [hdata, h.encode_eq, hfront]
  have hb2 : (read data (pre.length + 2)).value = some (.ofNat (label % 65536 / 256)) := by
    simp [hdata, h.encode_eq, hfront, bytes16]
  have hb3 : (read data (pre.length + 3)).value = some (.ofNat (label % 65536)) := by
    simp [hdata, h.encode_eq, hfront, bytes16]
  have hpayload : (read16 data (pre.length + 4)).value = some h.payloadLength.toNat := by
    simp [hdata, h.encode_eq, hfront, bytes16]
  have hnext : (read data (pre.length + 6)).value = some (nextHeader protocol h.extensions) := by
    simp [hdata, h.encode_eq, hfront, bytes16]
  have hhop : (read data (pre.length + 7)).value = some h.hopLimit := by
    simp [hdata, h.encode_eq, hfront, bytes16]
  have hsrc : (readIPv6Address data (pre.length + 8)).value = some h.src :=
    hdata ▸ value_src_encode h
  have hdst : (readIPv6Address data (pre.length + 24)).value = some h.dst :=
    hdata ▸ value_dst_encode h
  have hwalk (p : ParsedPacket) :
      (walkIPv6ExtHeaders data maxExtHeaders (pre.length + 40)
        (nextHeader protocol h.extensions) p).value =
        some (protocol, pre.length + (h.encode protocol).length, markChain p h.extensions) :=
    hdata ▸ value_walk_encode h p hprotocol
  have hclass : h.trafficClass.toNat / 16 < 16 := by have := h.trafficClass.toNat_lt; omega
  rw [← hdata, parseIPv6, if_neg (by omega), value_bind, hb0, Option.bind_some,
    highNibble_nibbles (by omega) hclass, if_neg (by simp)]
  simp only [value_bind, hb1, hb2, hb3, hpayload, hnext, hhop, hsrc, hdst, Option.bind_some, hwalk,
    value_pure, lowNibble_nibbles (show 6 < 16 by omega) hclass,
    lowNibble_nibbles (show h.trafficClass.toNat % 16 < 16 by omega)
      (show label / 65536 < 16 by omega),
    highNibble_nibbles (show h.trafficClass.toNat % 16 < 16 by omega)
      (show label / 65536 < 16 by omega),
    trafficClass_nibbles, flowLabel_bytes]
  obtain ⟨h0, h43, h44, h60, h51⟩ := hunmarked
  simp only [markChain, h0, h43, h44, h60, h51, Bool.false_or, hlabel]
  rfl

def parseTransportOf : IPHeader → List UInt8 → ParsedPacket → ℕ →
    Traced (Option (ParsedPacket × ℕ))
  | .v4 _ => parseTransport Protocol.ICMP parseICMP
  | .v6 _ => parseTransport Protocol.ICMPv6 parseICMPv6

theorem parseTransport_encode (pre : List UInt8) (parsed : ParsedPacket) (ip : IPHeader)
    (seg : TransportSegment) (trailer : List UInt8)
    (hprotocol : parsed.protocol = seg.protocol ip) :
    (parseTransportOf ip (pre ++ (seg.header ++ (seg.payload ++ trailer))) parsed
      pre.length).value =
      some (some (seg.parsed ip parsed, pre.length + seg.header.length)) := by
  cases seg with
  | tcp h payload =>
    have htcp : parsed.protocol = Protocol.TCP := hprotocol
    cases ip <;> rw [parseTransportOf, parseTransport, if_pos htcp] <;> exact parseTCP_encode h
  | udp h payload fits =>
    have hudp : parsed.protocol = Protocol.UDP := hprotocol
    have hne : parsed.protocol ≠ Protocol.TCP := by rw [hudp]; decide
    have hrest : 8 + payload.length ≤ 8 + (payload ++ trailer).length := by simp
    cases ip <;> rw [parseTransportOf, parseTransport, if_neg hne, if_pos hudp] <;>
      exact parseUDP_encode h (by omega) fits hrest
  | icmp h payload =>
    cases ip with
    | v4 _ =>
      have hicmp : parsed.protocol = Protocol.ICMP := hprotocol
      rw [parseTransportOf, parseTransport, hicmp, if_neg (by decide), if_neg (by decide),
        if_pos rfl]
      exact parseICMPHeader_encode _ h
    | v6 _ =>
      have hicmp : parsed.protocol = Protocol.ICMPv6 := hprotocol
      rw [parseTransportOf, parseTransport, hicmp, if_neg (by decide), if_neg (by decide),
        if_pos rfl]
      exact parseICMPHeader_encode _ h

theorem isExtHeader_protocol (ip : IPHeader) (seg : TransportSegment) :
    isExtHeader (seg.protocol ip) = false := by
  cases seg <;> cases ip <;> rfl

theorem parseLayers_encode (pre : List UInt8) (parsed : ParsedPacket) (d : Datagram)
    (trailer : List UInt8)
    (htype : parsed.etherType = d.etherType) (hunmarked : Unmarked parsed) :
    (parseLayers (pre ++ (d.ipHeader ++ (d.segment.header ++ (d.segment.payload ++ trailer))))
        parsed pre.length).value =
      some (some (d.layers parsed,
        pre.length + (d.ipHeader.length + d.segment.header.length))) := by
  obtain ⟨destMac, srcMac, ip, seg⟩ := d
  cases ip with
  | v4 h =>
    have htransport := parseTransport_encode (pre ++ h.encode (seg.protocol (.v4 h)))
      (h.parsed (seg.protocol (.v4 h)) parsed) (.v4 h) seg trailer rfl
    rw [List.append_assoc, List.length_append, Nat.add_assoc] at htransport
    have hip4 : parsed.etherType = EtherType.IPv4 := htype
    rw [parseLayers, if_pos hip4, value_bind, Datagram.ipHeader, parseIPv4_encode h,
      Option.bind_some]
    exact htransport
  | v6 h =>
    have htransport := parseTransport_encode (pre ++ h.encode (seg.protocol (.v6 h)))
      (h.parsed (seg.protocol (.v6 h)) parsed) (.v6 h) seg trailer rfl
    rw [List.append_assoc, List.length_append, Nat.add_assoc] at htransport
    have hip6 : parsed.etherType = EtherType.IPv6 := htype
    have hne : parsed.etherType ≠ EtherType.IPv4 := by rw [hip6]; decide
    rw [parseLayers, if_neg hne, if_pos hip6, value_bind, Datagram.ipHeader,
      parseIPv6_encode h (isExtHeader_protocol (.v6 h) seg) hunmarked, Option.bind_some]
    exact htransport

theorem parseEthernet_value {data : List UInt8} (h : 14 ≤ data.length) :
    (parseEthernet data parsed).value =
      some (some ({ parsed with etherType := wordAt data 12 }, 14)) := by
  rw [parseEthernet, if_neg (by omega)]
  simp (disch := omega) only [value_bind, value_readBytes_of_le, value_read16_of_lt,
    Option.bind_some, value_pure]

theorem payloadFields_layers (d : Datagram) :
    payloadFields (d.layers parsed) = payloadFields parsed := by
  obtain ⟨destMac, srcMac, ip, seg⟩ := d
  cases ip <;> cases seg <;> rfl

theorem with_payloadFields {p : ParsedPacket} {n : ℕ} {o : Option ℕ}
    (h : payloadFields p = (n, o)) :
    { p with payloadLength := n, payloadData := o } = p := by
  cases h
  rfl

/-- An encoded frame is accepted; whatever follows the payload counts as payload. -/
theorem parse_encode_append (d : Datagram) (trailer : List UInt8) (tsSec tsUsec : UInt32) :
    (parse ⟨tsSec, tsUsec, d.encode ++ trailer⟩).value =
      some (some (d.parsed tsSec tsUsec (d.segment.payload ++ trailer))) := by
  have hdata := d.encode_append_eq trailer
  have hheaders : d.headers.length = 14 + (d.ipHeader.length + d.segment.header.length) := by
    rw [d.headers_eq, List.length_append, d.length_ethernet, List.length_append]
  have hlen : 14 ≤ (d.encode ++ trailer).length := by
    rw [hdata, List.length_append, d.length_ethernet]
    exact Nat.le_add_right _ _
  have htype : wordAt (d.encode ++ trailer) 12 = d.etherType := hdata ▸ d.wordAt_etherType _
  have hlayers := parseLayers_encode d.ethernet
    { timestampSec := tsSec, timestampUsec := tsUsec, etherType := d.etherType } d trailer rfl
    ⟨rfl, rfl, rfl, rfl, rfl⟩
  rw [← hdata, d.length_ethernet] at hlayers
  rw [parse, value_bind, parseEthernet_value hlen, Option.bind_some, htype]
  dsimp only
  rw [value_bind, hlayers, Option.bind_some, ← hheaders]
  have htotal : (d.encode ++ trailer).length =
      d.headers.length + (d.segment.payload ++ trailer).length := by
    simp [Datagram.encode]
  simp only [value_pure, setPayload, htotal, Datagram.parsed, Nat.add_sub_cancel_left]
  by_cases hempty : d.segment.payload ++ trailer = []
  · rw [hempty, if_neg (by simp), if_pos rfl, List.length_nil]
    exact congrArg (some ∘ some) (with_payloadFields (payloadFields_layers d)).symm
  · have hpos := List.length_pos_iff.mpr hempty
    rw [if_pos (by omega), if_neg hempty]

end PacketParser

namespace Datagram

variable (d : Datagram) (trailer : List UInt8) (tsSec tsUsec : UInt32)

theorem payload_parsed :
    (d.parsed tsSec tsUsec (d.segment.payload ++ trailer)).payload (d.encode ++ trailer) =
      d.segment.payload ++ trailer := by
  unfold ParsedPacket.payload parsed
  dsimp only
  split_ifs with hempty
  · exact hempty.symm
  · simp [encode]

/-- Parsing undoes encoding. -/
theorem parse_encode :
    (PacketParser.parse ⟨tsSec, tsUsec, d.encode⟩).value =
        some (some (d.parsed tsSec tsUsec d.segment.payload)) ∧
      (d.parsed tsSec tsUsec d.segment.payload).payload d.encode = d.segment.payload := by
  constructor
  · simpa using PacketParser.parse_encode_append d [] tsSec tsUsec
  · simpa using payload_parsed d [] tsSec tsUsec

/-- An IPv4 datagram of TCP or UDP whose total length is its real size. -/
def WellFormedIPv4 (d : Datagram) : Prop :=
  match d.ip, d.segment with
  | .v4 h, .tcp _ _ | .v4 h, .udp _ _ _ =>
    h.totalLength.toNat = d.ipHeader.length + d.segment.header.length + d.segment.payload.length
  | _, _ => False

end Datagram

/-- The frames are accepted with the same payload. -/
def ParsesSamePayload (raw raw' : RawPacket) : Prop :=
  ∃ p p', (PacketParser.parse raw).value = some (some p) ∧
    (PacketParser.parse raw').value = some (some p') ∧ p.payloadLength = p'.payloadLength ∧
    p.payload raw.data = p'.payload raw'.data

namespace Datagram

variable (d : Datagram) (trailer : List UInt8) (tsSec tsUsec : UInt32)

/-- Appended bytes change no header field and count as payload behind the one of the datagram. -/
theorem parse_padded :
    ∃ p p', (PacketParser.parse ⟨tsSec, tsUsec, d.encode⟩).value = some (some p) ∧
      (PacketParser.parse ⟨tsSec, tsUsec, d.encode ++ trailer⟩).value = some (some p') ∧
      { p' with payloadLength := p.payloadLength, payloadData := p.payloadData } = p ∧
      p'.payloadLength = p.payloadLength + trailer.length ∧
      p'.payload (d.encode ++ trailer) = p.payload d.encode ++ trailer ∧
      (ParsesSamePayload ⟨tsSec, tsUsec, d.encode⟩ ⟨tsSec, tsUsec, d.encode ++ trailer⟩ ↔
        trailer = []) := by
  obtain ⟨hparse, hpayload⟩ := parse_encode d tsSec tsUsec
  have hparse' := PacketParser.parse_encode_append d trailer tsSec tsUsec
  have hlength : (d.parsed tsSec tsUsec (d.segment.payload ++ trailer)).payloadLength =
      (d.parsed tsSec tsUsec d.segment.payload).payloadLength + trailer.length :=
    List.length_append
  refine ⟨_, _, hparse, hparse', rfl, hlength, ?_, ?_⟩
  · rw [payload_parsed, hpayload]
  · constructor
    · rintro ⟨q, q', hq, hq', hsame, -⟩
      cases hparse.symm.trans hq
      cases hparse'.symm.trans hq'
      exact List.length_eq_zero_iff.mp (by omega)
    · rintro rfl
      rw [List.append_nil]
      exact ⟨_, _, hparse, hparse, rfl, rfl⟩

/-- An acknowledgement without payload. -/
def pureAck : Datagram where
  ip := .v4 { totalLength := 40, src := 1, dst := 2 }
  segment := .tcp { srcPort := 1000, destPort := 443, flags := 0x10 } []

/-- Padded to sixty bytes, an acknowledgement gets a payload of six bytes. -/
theorem padding_is_payload : ¬ ∀ d : Datagram, d.WellFormedIPv4 → ∀ trailer tsSec tsUsec,
    ParsesSamePayload ⟨tsSec, tsUsec, d.encode⟩ ⟨tsSec, tsUsec, d.encode ++ trailer⟩ := by
  intro h
  obtain ⟨p, p', hp, hp', hlength, -⟩ := h pureAck rfl (List.replicate 6 0) 0 0
  have hnone : (PacketParser.parse ⟨0, 0, pureAck.encode⟩).value.join.map
      (·.payloadLength) = some 0 := by rfl
  have hsix : (PacketParser.parse ⟨0, 0, pureAck.encode ++ List.replicate 6 0⟩).value.join.map
      (·.payloadLength) = some 6 := by rfl
  rw [hp] at hnone
  rw [hp'] at hsix
  have hzero : p.payloadLength = 0 := Option.some.inj hnone
  have hpadded : p'.payloadLength = 6 := Option.some.inj hsix
  omega

end Datagram

end DpiEngine
