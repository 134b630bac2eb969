import Mathlib.Data.Finset.Basic
import Mathlib.Logic.Function.Basic
import PCom.PubSub.Protocol

/-! The loop of `server.cpp`, one ready descriptor at a time.  A `Client` is never freed or moved
to another ID while the server runs, so its ID stands for the pointer to it. -/

namespace PCom.PubSub

open Lib

structure Client where
  connected : Bool
  fd : Nat
  topics : Str → Option Bool
  sfQueue : List Packet

namespace Client

def new (fd : Nat) : Client := ⟨true, fd, fun _ => none, []⟩

def disconnect (cl : Client) : Client := { cl with connected := false }

/-- `reconnect` but for the packets it sends. -/
def reconnect (cl : Client) (fd : Nat) : Client :=
  { cl with fd := fd, connected := true, sfQueue := [] }

def subscribe (cl : Client) (topic : Str) (sf : Bool) : Client :=
  { cl with topics := Function.update cl.topics topic (some sf) }

def unsubscribe (cl : Client) (topic : Str) : Client :=
  { cl with topics := Function.update cl.topics topic none }

def clientHasTopic (cl : Client) (topic : Str) : Bool := (cl.topics topic).isSome

/-- `topics[topic]`, which inserts `false` for a topic that is missing. -/
def topicHasSf (cl : Client) (topic : Str) : Bool × Client :=
  let sf := (cl.topics topic).getD false
  (sf, cl.subscribe topic sf)

def storePacket (cl : Client) (pkt : Packet) : Client :=
  { cl with sfQueue := cl.sfQueue ++ [pkt] }

end Client

structure Send where
  fd : Nat
  bytes : List Byte
  deriving DecidableEq

/-- How the loop ends: a call without a defined result, a failed `send`, or the exit command. -/
inductive Stop
  | nullPointer | overflow | sendFailed | exit (sent : List Send)
  deriving DecidableEq

structure Server where
  /-- The client sockets in `read_fds`, which are the open ones. -/
  readFds : Finset Nat
  fdmax : Nat
  clients : Str → Option Client
  fdToId : Nat → Option Str
  topicToClients : Str → List Str

/-- One turn of the loop, with what the system hands to it.  `uninit` gives the value of the
uninitialised `content_size` in each call of `send_packet`. -/
inductive Event
  | stdin (word : Str)
  | udp (ip : Word32) (port : Word16) (bytes : List Byte) (uninit : Nat → Nat)
  | accept (newsockfd : Nat) (bytes : List Byte) (uninit : Nat → Nat)
  | recv (i : Nat) (bytes : List Byte)

/-- The fields of a message in a zeroed buffer. -/
def msgType (buffer : List Byte) : Byte := buffer.getD 0 0
def payloadStr (buffer : List Byte) : Str := cstr (buffer.drop 1)
def payloadSf (buffer : List Byte) : Bool := buffer.getD (1 + topicLen) 0 ≠ 0

def received (bytes : List Byte) : List Byte := zeroPad packetLen bytes

namespace Server

/-- Standard input and output and the two listening sockets come first. -/
def firstClientFd : Nat := 5

def init : Server := ⟨∅, 4, fun _ => none, fun _ => none, fun _ => []⟩

/-- Into a descriptor of its own.  That the other end may be closed is the network's matter. -/
def send (s : Server) (fd : Nat) (bytes : List Byte) : Except Stop Send :=
  if fd ∈ s.readFds then .ok ⟨fd, bytes⟩ else .error .sendFailed

def sendMsg (s : Server) (fd : Nat) (type : Byte) : Except Stop Send := s.send fd (protoMsg type [])

def sendPacket (s : Server) (fd : Nat) (uninit : Nat) (pkt : Packet) : Except Stop (List Send) :=
  if contentLen + 3 < pkt.contentSize uninit then .error .overflow
  else do
    let msg ← s.send fd (pkt.header uninit)
    let buffer ← s.send fd (pkt.body uninit)
    return [msg, buffer]

def sendQueue (s : Server) (fd : Nat) (uninit : Nat → Nat) :
    Nat → List Packet → Except Stop (List Send)
  | _, [] => .ok []
  | n, pkt :: sfQueue => do
    let sent ← s.sendPacket fd (uninit n) pkt
    let rest ← s.sendQueue fd uninit (n + 1) sfQueue
    return sent ++ rest

def setClient (s : Server) (id : Str) (cl : Client) : Server :=
  { s with clients := Function.update s.clients id (some cl) }

/-- `clients[fd_to_id[i]]`, dereferenced.  A descriptor that is missing gets an empty ID. -/
def clientOf (s : Server) (i : Nat) : Except Stop (Str × Client × Server) :=
  let id := (s.fdToId i).getD []
  match s.clients id with
  | none => .error .nullPointer
  | some cl => .ok (id, cl, { s with fdToId := Function.update s.fdToId i (some id) })

def closeFd (s : Server) (i : Nat) : Server := { s with readFds := s.readFds.erase i }

def publishTo (uninit : Nat → Nat) (pkt : Packet) :
    Nat → List Str → Server → Except Stop (Server × List Send)
  | _, [], s => .ok (s, [])
  | n, id :: ids, s =>
    match s.clients id with
    | none => .error .nullPointer
    | some cl =>
      if cl.connected then do
        let sent ← s.sendPacket cl.fd (uninit n) pkt
        let (s, rest) ← publishTo uninit pkt (n + 1) ids s
        return (s, sent ++ rest)
      else
        let (sf, cl) := cl.topicHasSf pkt.topicStr
        let cl := if sf then cl.storePacket pkt else cl
        publishTo uninit pkt (n + 1) ids (s.setClient id cl)

def udpBranch (s : Server) (ip : Word32) (port : Word16) (bytes : List Byte)
    (uninit : Nat → Nat) : Except Stop (Server × List Send) :=
  let pkt := Packet.ofDatagram ip port bytes
  publishTo uninit pkt 0 (s.topicToClients pkt.topicStr) s

def acceptBranch (s : Server) (newsockfd : Nat) (bytes : List Byte) (uninit : Nat → Nat) :
    Except Stop (Server × List Send) :=
  let s := { s with readFds := insert newsockfd s.readFds, fdmax := max s.fdmax newsockfd }
  let buffer := received bytes
  if msgType buffer = idMsg then
    let cliId := payloadStr buffer
    match s.clients cliId with
    | some cl =>
      if cl.connected then do
        let sent ← s.sendMsg newsockfd exitMsg
        return (s.closeFd newsockfd, [sent])
      else do
        let sent ← s.sendQueue newsockfd uninit 0 cl.sfQueue
        let fdToId := Function.update s.fdToId cl.fd none
        return ({ s.setClient cliId (cl.reconnect newsockfd) with
          fdToId := Function.update fdToId newsockfd (some cliId) }, sent)
    | none =>
      .ok ({ s.setClient cliId (.new newsockfd) with
        fdToId := Function.update s.fdToId newsockfd (some cliId) }, [])
  else .ok (s, [])

def recvBranch (s : Server) (i : Nat) (bytes : List Byte) : Except Stop (Server × List Send) :=
  if bytes = [] then do
    let (cliId, cl, s) ← s.clientOf i
    return ((s.setClient cliId cl.disconnect).closeFd i, [])
  else
    let buffer := received bytes
    let topic := payloadStr buffer
    if msgType buffer = subMsg then do
      let (cliId, cl, s) ← s.clientOf i
      if cl.clientHasTopic topic ∧ (cl.topicHasSf topic).1 = payloadSf buffer then
        return (s, [← s.sendMsg i errMsg])
      let conf ← s.sendMsg i confMsg
      return ({ s.setClient cliId (cl.subscribe topic (payloadSf buffer)) with
        topicToClients := Function.update s.topicToClients topic
          ((s.topicToClients topic).insert cliId) }, [conf])
    else if msgType buffer = unsubMsg then do
      let (cliId, cl, s) ← s.clientOf i
      if ¬ cl.clientHasTopic topic then
        return (s, [← s.sendMsg i errMsg])
      let conf ← s.sendMsg i confMsg
      return ({ s.setClient cliId (cl.unsubscribe topic) with
        topicToClients := Function.update s.topicToClients topic
          ((s.topicToClients topic).erase cliId) }, [conf])
    else .ok (s, [])

/-- `strncmp` with the four characters of `exit`, and the messages that go out then. -/
def stdinBranch (s : Server) (word : Str) : Except Stop (Server × List Send) :=
  if word.take 4 = [0x65, 0x78, 0x69, 0x74] then
    let fds := (List.range (s.fdmax + 1)).filter (· ∈ s.readFds)
    .error (.exit (fds.map fun j => ⟨j, protoMsg exitMsg []⟩))
  else .ok (s, [])

def handle (s : Server) : Event → Except Stop (Server × List Send)
  | .stdin word => s.stdinBranch word
  | .udp ip port bytes uninit => s.udpBranch ip port bytes uninit
  | .accept newsockfd bytes uninit => s.acceptBranch newsockfd bytes uninit
  | .recv i bytes => s.recvBranch i bytes

/-- What the system can hand over: the lowest free descriptor, data of open sockets only, and
never more bytes than were asked for. -/
def Offers (s : Server) : Event → Prop
  | .stdin _ => True
  | .udp _ _ bytes _ => bytes.length ≤ udpPacketLen
  | .accept newsockfd bytes _ =>
    (firstClientFd ≤ newsockfd ∧ newsockfd ∉ s.readFds ∧
      ∀ fd < newsockfd, firstClientFd ≤ fd → fd ∈ s.readFds) ∧ bytes.length ≤ msgLen
  | .recv i bytes => i ∈ s.readFds ∧ bytes.length ≤ msgLen

instance (s : Server) (e : Event) : Decidable (s.Offers e) :=
  match e with
  | .stdin _ => inferInstanceAs (Decidable True)
  | .udp _ _ bytes _ => inferInstanceAs (Decidable (bytes.length ≤ udpPacketLen))
  | .accept newsockfd bytes _ => inferInstanceAs (Decidable ((firstClientFd ≤ newsockfd ∧
      newsockfd ∉ s.readFds ∧ ∀ fd < newsockfd, firstClientFd ≤ fd → fd ∈ s.readFds) ∧
        bytes.length ≤ msgLen))
  | .recv i bytes => inferInstanceAs (Decidable (i ∈ s.readFds ∧ bytes.length ≤ msgLen))

end Server

end PCom.PubSub
