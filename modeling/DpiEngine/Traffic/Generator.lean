import DpiEngine.Flow.Key
import DpiEngine.Inspect.Names
import DpiEngine.Library.Bytes
import DpiEngine.Pcap.Reader

/-! # The generator of test traffic

The script writes a capture of exchanges: connections that open with a
ClientHello, HTTP requests, DNS queries and attempts to connect. What it draws
is part of its input. It throws where a number does not fit its field or a
server name is not ASCII.
-/

namespace DpiEngine.TestPcap

open Traced

/-! ### `struct` and `str` -/

def packB (n : ℕ) : Option (List UInt8) := if n < 2 ^ 8 then some [.ofNat n] else none

def packH (n : ℕ) : Option (List UInt8) := if n < 2 ^ 16 then some (bytes16 n) else none

def packI (n : ℕ) : Option (List UInt8) := if n < 2 ^ 32 then some (bytes32 (.ofNat n)) else none

def packLE (n : ℕ) : Option (List UInt8) :=
  if n < 2 ^ 32 then some (bytes32LE (.ofNat n)) else none

def encodeAscii (s : List Char) : Option (List UInt8) :=
  if s.all fun c => c.toNat < 128 then some (s.map fun c => .ofNat c.toNat) else none

def encode (s : List Char) : List UInt8 := s.flatMap String.utf8EncodeChar

/-! ### Headers -/

abbrev MacAddress := Vector UInt8 6

structure Octets where
  a : UInt8
  b : UInt8
  c : UInt8
  d : UInt8
  deriving DecidableEq

def Octets.bytes (o : Octets) : List UInt8 := [o.a, o.b, o.c, o.d]

/-- The address as the memory of the engine's host holds it. -/
def Octets.addr (o : Octets) : UInt32 := be32 o.d o.c o.b o.a

def createEthernetHeader (srcMac dstMac : MacAddress) : List UInt8 :=
  dstMac.toList ++ srcMac.toList ++ bytes16 0x0800

def createIpHeader (ident : UInt16) (srcIp dstIp : Octets) (protocol : UInt8) (payloadLen : ℕ) :
    Option (List UInt8) := do
  let totalLen ← packH (20 + payloadLen)
  some ([0x45, 0] ++ totalLen ++ bytes16 ident.toNat ++ bytes16 0x4000 ++ [64, protocol] ++
    bytes16 0 ++ srcIp.bytes ++ dstIp.bytes)

def createTcpHeader (srcPort dstPort seq ack : ℕ) (flags : UInt8) : Option (List UInt8) := do
  let srcPort ← packH srcPort
  let dstPort ← packH dstPort
  let seq ← packI seq
  let ack ← packI ack
  let dataOffset := (5 : UInt8) <<< 4
  some (srcPort ++ dstPort ++ seq ++ ack ++ [dataOffset, flags] ++ bytes16 65535 ++ bytes16 0 ++
    bytes16 0)

def createUdpHeader (srcPort dstPort payloadLen : ℕ) : Option (List UInt8) := do
  let srcPort ← packH srcPort
  let dstPort ← packH dstPort
  let length ← packH (8 + payloadLen)
  some (srcPort ++ dstPort ++ length ++ bytes16 0)

/-! ### Payloads -/

def createTlsClientHello (random : Vector UInt8 32) (sni : List Char) : Option (List UInt8) := do
  let sniBytes ← encodeAscii sni
  let sniEntry := [0] ++ (← packH sniBytes.length) ++ sniBytes
  let sniList := (← packH sniEntry.length) ++ sniEntry
  let sniExt := bytes16 0x0000 ++ (← packH sniList.length) ++ sniList
  let supportedVersions := bytes16 0x002b ++ bytes16 3 ++ [2] ++ bytes16 0x0304
  let extensions := sniExt ++ supportedVersions
  let extensionsData := (← packH extensions.length) ++ extensions
  let cipherSuites := bytes16 4 ++ (bytes16 0x1301 ++ bytes16 0x1302)
  let clientHelloBody := bytes16 0x0303 ++ random.toList ++ [0] ++ cipherSuites ++ [1, 0] ++
    extensionsData
  let handshake := [0x01] ++ (← packI clientHelloBody.length).tail ++ clientHelloBody
  some ([0x16] ++ bytes16 0x0301 ++ (← packH handshake.length) ++ handshake)

def createHttpRequest (host path : List Char) : List UInt8 :=
  encode ("GET ".toList ++ path ++ " HTTP/1.1\r\nHost: ".toList ++ host ++
    "\r\nUser-Agent: DPI-Test/1.0\r\nAccept: */*\r\n\r\n".toList)

/-- The length of a label counts its characters. -/
def createDnsQuery (txid : UInt16) (domain : List Char) : Option (List UInt8) := do
  let labels ← (domain.splitOn '.').mapM fun label => do
    some ((← packB label.length) ++ encode label)
  let counts := bytes16 1 ++ bytes16 0 ++ bytes16 0 ++ bytes16 0
  some (bytes16 txid.toNat ++ bytes16 0x0100 ++ counts ++
    (labels.flatten ++ [0] ++ (bytes16 1 ++ bytes16 1)))

/-! ### The loops of `main` -/

def userMac : MacAddress := #v[0x00, 0x11, 0x22, 0x33, 0x44, 0x55]

def gatewayMac : MacAddress := #v[0xaa, 0xbb, 0xcc, 0xdd, 0xee, 0xff]

def blockedMac : MacAddress := #v[0x00, 0x11, 0x22, 0x33, 0x44, 0x56]

def userIp : Octets := ⟨192, 168, 1, 100⟩

def dnsServer : Octets := ⟨8, 8, 8, 8⟩

def blockedSourceIp : Octets := ⟨192, 168, 1, 50⟩

def blockedDstIp : Octets := ⟨172, 217, 0, 100⟩

inductive Subject
  | tls (dstIp : Octets) (sni : List Char) (dstPort : ℕ) (random : Vector UInt8 32)
  | http (dstIp : Octets) (host : List Char) (dstPort : ℕ)
  | dns (domain : List Char) (txid : UInt16)
  | blocked

/-- One pass of a loop, with the port and the identification of each packet that it draws. -/
structure Exchange where
  subject : Subject
  srcPort : ℕ
  srcPort_ge : 49152 ≤ srcPort
  srcPort_le : srcPort ≤ 65535
  ident : ℕ → UInt16

def tcpPacket (ident : UInt16) (srcMac dstMac : MacAddress) (srcIp dstIp : Octets)
    (srcPort dstPort seq ack : ℕ) (flags : UInt8) (data : List UInt8) : Option (List UInt8) := do
  let eth := createEthernetHeader srcMac dstMac
  let tcp ← createTcpHeader srcPort dstPort seq ack flags
  let ip ← createIpHeader ident srcIp dstIp 6 (tcp.length + data.length)
  some (eth ++ ip ++ tcp ++ data)

def udpPacket (ident : UInt16) (srcMac dstMac : MacAddress) (srcIp dstIp : Octets)
    (srcPort dstPort : ℕ) (data : List UInt8) : Option (List UInt8) := do
  let eth := createEthernetHeader srcMac dstMac
  let udp ← createUdpHeader srcPort dstPort data.length
  let ip ← createIpHeader ident srcIp dstIp 17 (udp.length + data.length)
  some (eth ++ ip ++ udp ++ data)

namespace Exchange

variable (e : Exchange)

def packets (seqBase : ℕ) : Option (List (List UInt8)) :=
  match e.subject with
  | .tls dstIp sni dstPort random => do
    let syn ← tcpPacket (e.ident 0) userMac gatewayMac userIp dstIp e.srcPort dstPort seqBase 0 0x02
      []
    let synAck ← tcpPacket (e.ident 1) gatewayMac userMac dstIp userIp dstPort e.srcPort
      (seqBase + 1000) (seqBase + 1) 0x12 []
    let ack ← tcpPacket (e.ident 2) userMac gatewayMac userIp dstIp e.srcPort dstPort (seqBase + 1)
      (seqBase + 1001) 0x10 []
    let tlsData ← createTlsClientHello random sni
    let hello ← tcpPacket (e.ident 3) userMac gatewayMac userIp dstIp e.srcPort dstPort
      (seqBase + 1) (seqBase + 1001) 0x18 tlsData
    some [syn, synAck, ack, hello]
  | .http dstIp host dstPort => do
    let syn ← tcpPacket (e.ident 0) userMac gatewayMac userIp dstIp e.srcPort dstPort seqBase 0 0x02
      []
    let httpData := createHttpRequest host ['/']
    let request ← tcpPacket (e.ident 1) userMac gatewayMac userIp dstIp e.srcPort dstPort
      (seqBase + 1) 1 0x18 httpData
    some [syn, request]
  | .dns domain txid => do
    let dnsData ← createDnsQuery txid domain
    let query ← udpPacket (e.ident 0) userMac gatewayMac userIp dnsServer e.srcPort 53 dnsData
    some [query]
  | .blocked => do
    let syn ← tcpPacket (e.ident 0) blockedMac gatewayMac blockedSourceIp blockedDstIp e.srcPort 443
      seqBase 0 0x02 []
    some [syn]

def seqStep : ℕ :=
  match e.subject with
  | .tls _ _ _ _ | .http _ _ _ => 10000
  | .dns _ _ => 0
  | .blocked => 1000

end Exchange

/-- The packets of the loops, one pass after the other. -/
def traffic (seqBase : ℕ) : List Exchange → Option (List (List (List UInt8)))
  | [] => some []
  | e :: es => do
    let packets ← e.packets seqBase
    let rest ← traffic (seqBase + e.seqStep) es
    some (packets :: rest)

namespace PCAPWriter

def writeGlobalHeader : List UInt8 :=
  bytes32LE 0xa1b2c3d4 ++ bytes16LE 2 ++ bytes16LE 4 ++ bytes32LE 0 ++ bytes32LE 0 ++
    bytes32LE 65535 ++ bytes32LE 1

def writePacket (timestamp tsUsec : ℕ) (data : List UInt8) : Option (List UInt8) := do
  let tsSec ← packLE timestamp
  let tsUsec ← packLE tsUsec
  let inclLen ← packLE data.length
  let origLen ← packLE data.length
  some (tsSec ++ tsUsec ++ inclLen ++ origLen ++ data)

/-- The records of the packets, one second after the other, with the microseconds that are
drawn. -/
def writePackets (tsUsec : ℕ → ℕ) (timestamp : ℕ) : List (List UInt8) → Option (List UInt8)
  | [] => some []
  | data :: packets => do
    let record ← writePacket timestamp (tsUsec timestamp) data
    let rest ← writePackets tsUsec (timestamp + 1) packets
    some (record ++ rest)

end PCAPWriter

/-- The file that the script leaves. -/
def main (exchanges : List Exchange) (tsUsec : ℕ → ℕ) : Option (List UInt8) := do
  let packets ← traffic 1000 exchanges
  let records ← PCAPWriter.writePackets tsUsec 1700000000 packets.flatten
  some (PCAPWriter.writeGlobalHeader ++ records)

end DpiEngine.TestPcap
