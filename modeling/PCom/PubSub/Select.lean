import Mathlib.Data.List.ReduceOption
import PCom.PubSub.StoreForward

/-! The `select` loop of `server.cpp`, with what waits at its descriptors and what is on its way to
the other ends of its connections.  A close at such an end is seen at once; it depends on what was
still unread there how the server's `recv` and `send` end after it. -/

namespace PCom.PubSub

open Lib

/-- In the order in which the server opens them; the connections come behind. -/
def stdinFileno : Nat := 0
def udpsockfd : Nat := 3
def tcpsockfd : Nat := 4

/-- What a `recvfrom` returns. -/
structure Datagram where
  ip : Word32
  port : Word16
  bytes : List Byte
  size : bytes.length ≤ udpPacketLen

/-- What a `recv` returns on a connection with something to read. -/
structure Chunk where
  bytes : List Byte
  ne_nil : bytes ≠ []
  size : bytes.length ≤ msgLen

/-- A packet on a connection, and whether its client had SF on for the topic. -/
structure Copy where
  call : Call
  sf : Bool

/-- The other end of a connection.  While it is open there is what it did not read yet: packets,
and answers as `none`.  Closed with nothing unread it has `finished`: `recv` returns 0, and a `send`
still succeeds, but is answered with a reset, after which the next one raises `SIGPIPE`; `hit` says
that one was made.  Closed with something unread it has `reset` the connection: both fail. -/
inductive Far
  | reading (unread : List (Option Copy))
  | finished (hit : Bool)
  | reset

namespace Far

def isClosed : Far → Bool
  | reading _ => false
  | _ => true

def isReset : Far → Bool
  | reset => true
  | _ => false

/-- What was still under way when the end was closed, as `crossed` says, comes to a closed socket. -/
def close (crossed : Bool) : Far → Far
  | reading [] => finished false
  | reading _ => if crossed then finished true else reset
  | far => far

/-- Whether the server survives so many calls of `send`.  `late` says that the reset which answers
the first one does not come back before the last one. -/
def bears (late : Bool) (sends : Nat) : Far → Bool
  | reading _ => true
  | finished hit => late || sends = 0 || (sends = 1 && !hit)
  | reset => sends = 0

def take (parcels : List (Option Copy)) : Far → Far
  | reading unread => reading (unread ++ parcels)
  | finished hit => finished (hit || !parcels.isEmpty)
  | reset => reset

/-- The packets on their way; `none` once the end is closed, as they are lost then. -/
def outbox : Far → Option (List Copy)
  | reading unread => some unread.reduceOption
  | _ => none

end Far

/-- A connection: the first message from the other end, those that were not read yet, and that
end. -/
structure Conn where
  hello : Chunk
  inbox : List Chunk
  far : Far

namespace Conn

def dialled (hello : Chunk) : Conn := ⟨hello, [], .reading []⟩

def id (c : Conn) : Str := payloadStr (received c.hello.bytes)

def closed (c : Conn) : Bool := c.far.isClosed

def outbox (c : Conn) : Option (List Copy) := c.far.outbox

def close (c : Conn) (crossed : Bool) : Conn := { c with far := c.far.close crossed }

def say (c : Conn) (chunk : Chunk) : Conn := { c with inbox := c.inbox ++ [chunk] }

def push (c : Conn) (parcels : List (Option Copy)) : Conn := { c with far := c.far.take parcels }

end Conn

/-- What one turn sends to a descriptor: a packet or an answer. -/
structure Parcel where
  fd : Nat
  copy : Option Copy

/-- `alive` says that no fault has ended the server, and `ready` is what is left of the descriptors
that the last `select` returned.  The last two fields record what was read at the other ends, by the
ID they announced, and which packets were published for each client on topics it had with SF on. -/
structure Network where
  server : Server
  alive : Bool
  ready : List Nat
  stdin : List Str
  datagrams : List Datagram
  backlog : List Conn
  conns : Nat → Option Conn
  delivered : Str → List Copy
  due : Str → List Packet

/-- A connection that waits to be accepted, by its place, or an open one, by its descriptor. -/
inductive End
  | waiting (k : Nat)
  | accepted (i : Nat)

/-- What happens outside of the server, what `select` does, and one turn of the loop: `fd` is what
an `accept` returns, and `late` says for which descriptors the resets come late. -/
inductive Act
  | type (word : Str)
  | publish (d : Datagram)
  | dial (hello : Chunk)
  | say (e : End) (chunk : Chunk)
  | close (e : End) (crossed : Bool)
  | read (i : Nat)
  | select
  | serve (fd : Nat) (uninit : Nat → Nat) (late : Nat → Bool)

namespace Server

def sfOf (s : Server) : Event → Call → Bool
  | .udp .., c => s.entry c.id c.pkt.topicStr = some true
  | _, _ => true

def copiesOf (s : Server) (e : Event) : List Copy := (s.calls e).map fun c => ⟨c, s.sfOf e c⟩

def answers (s : Server) : Event → List Nat
  | .accept fd bytes _ =>
    if msgType (received bytes) = idMsg ∧ s.isConnected (payloadStr (received bytes)) = true then [fd]
    else []
  | .recv i bytes =>
    if bytes ≠ [] ∧ (msgType (received bytes) = subMsg ∨ msgType (received bytes) = unsubMsg) then [i]
    else []
  | _ => []

def parcels (s : Server) (e : Event) : List Parcel :=
  ((s.copiesOf e).map fun c => ⟨c.call.fd, some c⟩) ++ ((s.answers e).map fun fd => ⟨fd, none⟩)

def dueSf (s : Server) (id : Str) : Event → List Packet
  | .udp ip port bytes _ =>
    let pkt := Packet.ofDatagram ip port bytes
    if s.entry id pkt.topicStr = some true then [pkt] else []
  | _ => []

end Server

namespace Network

def start : Network := ⟨.init, true, [], [], [], [], fun _ => none, fun _ => [], fun _ => []⟩

def conn? (n : Network) : End → Option Conn
  | .waiting k => n.backlog[k]?
  | .accepted i => if i ∈ n.server.readFds then n.conns i else none

def setConn (n : Network) (c : Conn) : End → Network
  | .waiting k => { n with backlog := n.backlog.set k c }
  | .accepted i => { n with conns := Function.update n.conns i (some c) }

/-- Whether `select` returns a descriptor: there is something to read, or the end of it. -/
def pending (n : Network) (i : Nat) : Bool :=
  if i = stdinFileno then ¬ n.stdin.isEmpty
  else if i = udpsockfd then ¬ n.datagrams.isEmpty
  else if i = tcpsockfd then ¬ n.backlog.isEmpty
  else (n.conn? (.accepted i)).any fun c => ¬ c.inbox.isEmpty ∨ c.closed

/-- What the loop finds at descriptor `i`, and the network without it. -/
def next (n : Network) (fd : Nat) (uninit : Nat → Nat) (i : Nat) : Option (Event × Network) :=
  if i = stdinFileno then
    match n.stdin with
    | [] => none
    | word :: stdin => some (.stdin word, { n with stdin := stdin })
  else if i = udpsockfd then
    match n.datagrams with
    | [] => none
    | d :: datagrams => some (.udp d.ip d.port d.bytes uninit, { n with datagrams := datagrams })
  else if i = tcpsockfd then
    match n.backlog with
    | [] => none
    | c :: backlog =>
      some (.accept fd c.hello.bytes uninit,
        { n with backlog := backlog, conns := Function.update n.conns fd (some c) })
  else
    (n.conn? (.accepted i)).bind fun c =>
      match c.inbox with
      | chunk :: inbox => some (.recv i chunk.bytes, n.setConn { c with inbox := inbox } (.accepted i))
      | [] =>
        match c.far with
        | .finished _ => some (.recv i [], n)
        | _ => none

/-- Whether the `recv` on the descriptor fails, which is a `DIE`. -/
def failsAt (n : Network) (i : Nat) : Bool :=
  i ≠ stdinFileno ∧ i ≠ udpsockfd ∧ i ≠ tcpsockfd ∧
    (n.conn? (.accepted i)).any fun c => c.inbox.isEmpty && c.far.isReset

/-- Whether every connection bears the calls of `send` that a turn makes on it. -/
def bears (n : Network) (late : Nat → Bool) (sent : List Send) : Bool :=
  sent.all fun x => (n.conns x.fd).all fun c =>
    c.far.bears (late x.fd) (sent.countP (·.fd = x.fd))

def deliver (n : Network) (parcels : List Parcel) : Network :=
  { n with conns := fun i =>
      (n.conns i).map (·.push ((parcels.filter (·.fd = i)).map (·.copy))) }

theorem deliver_conns {n : Network} {i : Nat} {c : Conn} (h : n.conns i = some c)
    (parcels : List Parcel) :
    (n.deliver parcels).conns i
      = some (c.push ((parcels.filter (·.fd = i)).map (·.copy))) := by
  simp [deliver, h]

/-- A failed call ends the server, by a `DIE` or a signal. -/
def ended (n : Network) : Network := { n with alive := false }

/-- The network after a turn for `e` that goes well; `n₁` is the one it was taken from. -/
def after (n n₁ : Network) (e : Event) (server : Server) (ready : List Nat) : Network :=
  { n₁.deliver (n.server.parcels e) with
    server := server
    ready := ready
    due := fun id => n.due id ++ n.server.dueSf id e }

/-- One turn of the loop, for descriptor `i`. -/
def serve (n : Network) (fd : Nat) (uninit : Nat → Nat) (late : Nat → Bool) (i : Nat)
    (ready : List Nat) : Option Network :=
  if n.failsAt i then some n.ended
  else
    (n.next fd uninit i).bind fun r =>
      if n.server.Offers r.1 then
        match n.server.handle r.1 with
        | .error (.exit _) => none
        | .error _ => some n.ended
        | .ok (server, sent) =>
          if r.2.bears late sent then some (n.after r.2 r.1 server ready) else some n.ended
      else none

/-- What happens while the server runs; `none` where nothing of the kind can. -/
def act (n : Network) : Act → Option Network
  | .type word => some { n with stdin := n.stdin ++ [word] }
  | .publish d => some { n with datagrams := n.datagrams ++ [d] }
  | .dial hello => some { n with backlog := n.backlog ++ [.dialled hello] }
  | .say e chunk =>
    (n.conn? e).bind fun c => if c.closed then none else some (n.setConn (c.say chunk) e)
  | .close e crossed =>
    (n.conn? e).bind fun c => if c.closed then none else some (n.setConn (c.close crossed) e)
  | .read i =>
    (n.conn? (.accepted i)).bind fun c =>
      match c.far with
      | .reading (copy :: unread) =>
        some { n.setConn { c with far := .reading unread } (.accepted i) with
          delivered :=
            Function.update n.delivered c.id (n.delivered c.id ++ copy.toList) }
      | _ => none
  | .select =>
    if n.ready = [] then
      some { n with ready := (List.range (n.server.fdmax + 1)).filter n.pending }
    else none
  | .serve fd uninit late =>
    match n.ready with
    | [] => none
    | i :: ready => n.serve fd uninit late i ready

/-- A fault ends a run, and so does the exit command, which is no step itself. -/
def step (n : Network) (a : Act) : Option Network := if n.alive then n.act a else none

def Step (n : Network) (a : Act) (n' : Network) : Prop := n.step a = some n'

/-! ## What the loop finds -/

theorem conn?_accepted {n : Network} {i : Nat} {c : Conn} (h : n.conn? (.accepted i) = some c) :
    i ∈ n.server.readFds ∧ n.conns i = some c := by
  rw [conn?] at h
  split at h
  next hi => exact ⟨hi, h⟩
  next => cases h

inductive Finds (n : Network) (fd : Nat) (uninit : Nat → Nat) : Nat → Event → Network → Prop
  | stdin {word stdin} : n.stdin = word :: stdin →
      Finds n fd uninit stdinFileno (.stdin word) { n with stdin := stdin }
  | udp {d datagrams} : n.datagrams = d :: datagrams →
      Finds n fd uninit udpsockfd (.udp d.ip d.port d.bytes uninit) { n with datagrams := datagrams }
  | accept {c backlog} : n.backlog = c :: backlog →
      Finds n fd uninit tcpsockfd (.accept fd c.hello.bytes uninit)
        { n with backlog := backlog, conns := Function.update n.conns fd (some c) }
  | recv {i c chunk inbox} : i ≠ udpsockfd → i ≠ tcpsockfd → n.conn? (.accepted i) = some c →
      c.inbox = chunk :: inbox →
      Finds n fd uninit i (.recv i chunk.bytes) (n.setConn { c with inbox := inbox } (.accepted i))
  | closed {i c hit} : i ≠ udpsockfd → i ≠ tcpsockfd → n.conn? (.accepted i) = some c →
      c.inbox = [] → c.far = .finished hit → Finds n fd uninit i (.recv i []) n

theorem next_finds {n n' : Network} {fd i : Nat} {uninit : Nat → Nat} {e : Event}
    (h : n.next fd uninit i = some (e, n')) : Finds n fd uninit i e n' := by
  rw [next] at h
  split at h
  next hi =>
    subst hi
    cases hstdin : n.stdin with
    | nil => simp [hstdin] at h
    | cons word stdin =>
      rw [hstdin] at h
      cases h
      exact .stdin hstdin
  next =>
    split at h
    next hi =>
      subst hi
      cases hds : n.datagrams with
      | nil => simp [hds] at h
      | cons d datagrams =>
        rw [hds] at h
        cases h
        exact .udp hds
    next hudp =>
      split at h
      next hi =>
        subst hi
        cases hcs : n.backlog with
        | nil => simp [hcs] at h
        | cons c backlog =>
          rw [hcs] at h
          cases h
          exact .accept hcs
      next htcp =>
        obtain ⟨c, hc, h⟩ := Option.bind_eq_some_iff.mp h
        cases hin : c.inbox with
        | nil =>
          simp only [hin] at h
          split at h
          next hit hfar =>
            cases h
            exact .closed hudp htcp hc hin hfar
          next => cases h
        | cons chunk inbox =>
          simp only [hin] at h
          cases h
          exact .recv hudp htcp hc hin

@[simp] theorem alive_ended (n : Network) : n.ended.alive = false := rfl

@[simp] theorem server_ended (n : Network) : n.ended.server = n.server := rfl

@[simp] theorem alive_setConn (n : Network) (c : Conn) (e : End) :
    (n.setConn c e).alive = n.alive := by
  cases e <;> rfl

theorem Finds.server {n n' : Network} {fd i : Nat} {uninit : Nat → Nat} {e : Event}
    (h : Finds n fd uninit i e n') : n'.server = n.server := by
  cases h <;> rfl

theorem Finds.alive {n n' : Network} {fd i : Nat} {uninit : Nat → Nat} {e : Event}
    (h : Finds n fd uninit i e n') : n'.alive = n.alive := by
  cases h <;> rfl

theorem step_alive {n n' : Network} {a : Act} (h : n.step a = some n') :
    n.alive = true ∧ n.act a = some n' := by
  rw [step] at h
  split at h
  next halive => exact ⟨halive, h⟩
  next => cases h

/-- A turn of the loop that goes well handles what it finds at the first descriptor of the rest. -/
structure Serves (n : Network) (fd : Nat) (uninit : Nat → Nat) (late : Nat → Bool) (i : Nat)
    (e : Event) (n₁ : Network) (server : Server) (sent : List Send) : Prop where
  works : n.failsAt i = false
  found : n.next fd uninit i = some (e, n₁)
  offers : n.server.Offers e
  handles : n.server.handle e = .ok (server, sent)
  bears : n₁.bears late sent = true

theorem Serves.finds {n n₁ : Network} {fd i : Nat} {uninit : Nat → Nat} {late : Nat → Bool}
    {e : Event} {server : Server} {sent : List Send}
    (h : n.Serves fd uninit late i e n₁ server sent) : Finds n fd uninit i e n₁ := next_finds h.found

theorem serve_cases {n n' : Network} {fd i : Nat} {uninit : Nat → Nat} {late : Nat → Bool}
    {ready : List Nat} (h : n.serve fd uninit late i ready = some n') :
    n' = n.ended ∨ ∃ e n₁ server sent, n.Serves fd uninit late i e n₁ server sent ∧
      n' = n.after n₁ e server ready := by
  rw [serve] at h
  split at h
  next => exact .inl (Option.some.inj h).symm
  next hworks =>
    obtain ⟨⟨e, n₁⟩, hnext, h⟩ := Option.bind_eq_some_iff.mp h
    split at h
    next hoffer =>
      split at h
      next => cases h
      next => exact .inl (Option.some.inj h).symm
      next server sent hok =>
        split at h
        next hbears =>
          have hserves : n.Serves fd uninit late i e n₁ server sent :=
            ⟨Bool.eq_false_of_not_eq_true hworks, hnext, hoffer, hok, hbears⟩
          exact .inr ⟨e, n₁, server, sent, hserves, (Option.some.inj h).symm⟩
        next => exact .inl (Option.some.inj h).symm
    next => cases h

theorem step_serves {n n' : Network} {fd : Nat} {uninit : Nat → Nat} {late : Nat → Bool}
    (h : n.step (.serve fd uninit late) = some n') (halive : n'.alive = true) :
    ∃ i ready e n₁ server sent, n.ready = i :: ready ∧
      n.Serves fd uninit late i e n₁ server sent ∧ n' = n.after n₁ e server ready := by
  have hact := (step_alive h).2
  rw [act] at hact
  split at hact
  next => cases hact
  next i ready hready =>
    rcases serve_cases hact with rfl | ⟨e, n₁, server, sent, hserves, rfl⟩
    · cases halive
    · exact ⟨i, ready, e, n₁, server, sent, hready, hserves, rfl⟩

end Network

end PCom.PubSub
