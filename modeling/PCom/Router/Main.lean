import PCom.Router.Packet
import PCom.Router.RoutingTable

/-! The loop of `main` in `router.c`: what one received frame does to the ARP table and the
packet queue, and what is sent. -/

namespace PCom.Router

open Lib

structure ArptableEntry where
  ip : Word32
  mac : Mac
  deriving DecidableEq

def addToArptable (table : List ArptableEntry) (ip : Word32) (mac : Mac) : List ArptableEntry :=
  table ++ [⟨ip, mac⟩]

def getMac (table : List ArptableEntry) (ip : Word32) : Option ArptableEntry :=
  table.find? fun entry => entry.ip = ip

def queueEnq (q : List Packet) (p : Packet) : List Packet := q ++ [p]

def queueTop : List Packet → Except Fault Packet
  | [] => .error .assertion
  | p :: _ => .ok p

/-- The addresses the system answers for the router's interfaces. -/
structure Interfaces where
  ip : Fin routerNumInterfaces → Word32
  mac : Fin routerNumInterfaces → Mac

/-- `interfaces[i]`, which is how the interface of a route is always used. -/
def interfaceIndex (i : Int) : Except Fault (Fin routerNumInterfaces) :=
  if h : 0 ≤ i ∧ i.toNat < routerNumInterfaces then .ok ⟨i.toNat, h.2⟩ else .error .badIndex

structure Transmission where
  interface : Fin routerNumInterfaces
  bytes : List Byte
  deriving DecidableEq

def sendPacket (interface : Fin routerNumInterfaces) (m : Packet) : Transmission :=
  ⟨interface, m.bytes⟩

def etherTypeIp : Word16 := 0x0800
def etherTypeArp : Word16 := 0x0806
def arpOpRequest : Word16 := 1
def arpOpReply : Word16 := 2
def icmpEchoReply : Byte := 0
def icmpDestUnreach : Byte := 3
def icmpEcho : Byte := 8
def icmpTimeExceeded : Byte := 11

structure EtherHeader where
  dhost : Mac
  shost : Mac
  type : Word16

def EtherHeader.bytes (h : EtherHeader) : List Byte :=
  h.dhost.toList ++ h.shost.toList ++ bytes16 h.type

def buildEthhdr (sha dha : Mac) (type : Word16) : EtherHeader := ⟨dha, sha, type⟩

/-- The header of `send_icmp`: version 4, no options, 28 bytes in all, TTL 64, ICMP. -/
def newIpHeader (daddr saddr : Word32) (check : Word16) : List Byte :=
  [0x45, 0] ++ bytes16 (htons 28) ++ bytes16 (htons 1) ++ bytes16 0 ++ [64, 1] ++ bytes16 check ++
    bytes32 saddr ++ bytes32 daddr

def newIcmpHeader (type code : Byte) (checksum id sequence : Word16) : List Byte :=
  [type, code] ++ bytes16 checksum ++ bytes16 id ++ bytes16 sequence

def sendIcmp (daddr saddr : Word32) (sha dha : Mac) (type code : Byte)
    (interface : Fin routerNumInterfaces) (id seq : Word16) : Transmission :=
  let ethHdr := buildEthhdr sha dha (htons etherTypeIp)
  -- both headers are local structures, which the compiler aligns
  let ipCheck := ipChecksum 0 (newIpHeader daddr saddr 0)
  let icmpCheck := icmpChecksum (newIcmpHeader type code 0 id seq)
  ⟨interface, ethHdr.bytes ++ newIpHeader daddr saddr ipCheck ++
    newIcmpHeader type code icmpCheck id seq⟩

def sendIcmpError (daddr saddr : Word32) (sha dha : Mac) (type code : Byte)
    (interface : Fin routerNumInterfaces) : Transmission :=
  sendIcmp daddr saddr sha dha type code interface 0 0

def sendArp (daddr saddr : Word32) (ethHdr : EtherHeader) (interface : Fin routerNumInterfaces)
    (arpOp : Word16) : Transmission :=
  ⟨interface, ethHdr.bytes ++ bytes16 (htons 1) ++ bytes16 (htons 2048) ++ [6, 4] ++ bytes16 arpOp ++
    ethHdr.shost.toList ++ bytes32 saddr ++ ethHdr.dhost.toList ++ bytes32 daddr⟩

def broadcastMac : Mac := .replicate 6 0xff

def parseArp (p : Mem) : Bool := ntohs (etherType p) = etherTypeArp

def parseIcmp (p : Mem) : Bool := ntohs (etherType p) = etherTypeIp && ipProtocol p = 1

structure State where
  arptable : List ArptableEntry
  q : List Packet
  /-- The payload of `main`'s one packet structure, which every frame is read into. -/
  m : Mem

/-- `get_packet`: a short frame leaves the later bytes of the buffer as they were. -/
def getPacket (m : Mem) (interface : Fin routerNumInterfaces) (frame : List Byte) : Packet where
  len := (frame.take maxLen).length
  payload := storeBytes m 0 (frame.take maxLen)
  interface := interface

variable (env : Interfaces) (rt : Rtable)

/-- The `while` of the ARP reply branch.  `p_eth_hdr` and `p_ip_hdr` keep pointing at `hdr`, the
payload of the packet that was in front before the loop; `first` says that it is still the packet
in hand. -/
def drainLoop (arptable : List ArptableEntry) :
    Mem → Bool → RtableEntry → Option ArptableEntry → List Packet →
      Except Fault (List Packet × List Transmission)
  | _, _, _, none, q => .ok (q, [])
  | _, _, _, some _, [] => .error .assertion -- `queue_deq`
  | hdr, first, bestRoute, some entry, p :: q => do
    let hdr := setEtherDhost hdr entry.mac
    let p := if first then { p with payload := hdr } else p
    let sent := sendPacket (← interfaceIndex bestRoute.interface) p
    if q.isEmpty then return (q, [sent])
    match ← getBestRoute rt (ipDaddr hdr) with
    | none => throw .nullPointer
    | some bestRoute =>
      let (q, rest) ← drainLoop arptable hdr false bestRoute (getMac arptable bestRoute.nextHop) q
      return (q, sent :: rest)

def arpReplyReceived (s : State) (spa : Word32) (sha : Mac) :
    Except Fault (State × List Transmission) := do
  let arptable := addToArptable s.arptable spa sha
  if s.q.isEmpty then return ({ s with arptable }, [])
  let p ← queueTop s.q
  match ← getBestRoute rt (ipDaddr p.payload) with
  | none => throw .nullPointer
  | some bestRoute =>
    let (q, sent) ←
      drainLoop rt arptable p.payload true bestRoute (getMac arptable bestRoute.nextHop) s.q
    return ({ s with arptable, q }, sent)

/-- What follows the ICMP and ARP branches, for every frame that none of them took. -/
def forward (s : State) (m : Packet) : Except Fault (State × List Transmission) :=
  let p := m.payload
  if (ipTtl p).toNat ≤ 1 then
    .ok (s, [sendIcmpError (ipSaddr p) (ipDaddr p) (etherDhost p) (etherShost p)
      icmpTimeExceeded 0 m.interface])
  else if ipChecksum ipAlign (ipHeader p) ≠ 0 then .ok (s, [])
  else do
    let p := decrementTtl p
    match ← getBestRoute rt (ipDaddr p) with
    | none =>
      return ({ s with m := p }, [sendIcmpError (ipSaddr p) (ipDaddr p) (etherDhost p)
        (etherShost p) icmpDestUnreach 0 m.interface])
    | some bestRoute =>
      let intf ← interfaceIndex bestRoute.interface
      let p := setEtherShost p (env.mac intf)
      match getMac s.arptable bestRoute.nextHop with
      | none =>
        let ethHdr := buildEthhdr (env.mac intf) broadcastMac (htons etherTypeArp)
        return ({ s with q := queueEnq s.q { m with payload := p }, m := p },
          [sendArp bestRoute.nextHop (env.ip intf) ethHdr intf (htons arpOpRequest)])
      | some entry =>
        let p := setEtherDhost p entry.mac
        return ({ s with m := p }, [sendPacket intf { m with payload := p }])

/-- One turn of the `while` of `main`. -/
def mainStep (s : State) (interface : Fin routerNumInterfaces) (frame : List Byte) :
    Except Fault (State × List Transmission) :=
  let m := getPacket s.m interface frame
  let p := m.payload
  let s := { s with m := p }
  if parseIcmp p ∧ icmpType p = icmpEcho ∧ ipDaddr p = env.ip m.interface then
    .ok (s, [sendIcmp (ipSaddr p) (ipDaddr p) (etherDhost p) (etherShost p) icmpEchoReply 0
      m.interface (icmpId p) (icmpSequence p)])
  else if parseArp p ∧ arpOp p = htons arpOpRequest ∧ arpTpa p = env.ip m.interface then
    let newEthHdr := buildEthhdr (env.mac m.interface) (arpSha p) (htons etherTypeArp)
    .ok (s, [sendArp (arpSpa p) (arpTpa p) newEthHdr m.interface (htons arpOpReply)])
  else if parseArp p ∧ arpOp p = htons arpOpReply then arpReplyReceived rt s (arpSpa p) (arpSha p)
  else forward env rt s m

end PCom.Router
