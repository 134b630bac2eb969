import PCom.PubSub.Delivery

/-! A client that has left and dials again: when the server takes it back. -/

namespace PCom.PubSub

open Lib

namespace Server

/-- What one turn of the loop says about a client: it was registered, or its close was served. -/
def mark (s : Server) (id : Str) : Event → Option Bool
  | .accept _ bytes _ => if s.accepted bytes = some id then some true else none
  | .recv i bytes => if bytes = [] ∧ s.idOf i = id then some false else none
  | _ => none

/-- The server keeps the connection, registers the client with it and sends just the packets that
were stored, which leaves none. -/
structure TakesBack (s : Server) (id : Str) (fd : Nat) (uninit : Nat → Nat) (s' : Server)
    (sent : List Send) : Prop where
  isOpen : fd ∈ s'.readFds
  registered : s'.link id = some (true, fd)
  flushed : sent = (flushCalls id fd uninit 0 (s.queueOf id)).flatMap Call.sends
  emptied : s'.queueOf id = []

theorem TakesBack.of_clients {s s' : Server} {id : Str} {fd : Nat} {uninit : Nat → Nat}
    {sent : List Send} {cl : Client} (hfd : fd ∈ s'.readFds) (hcl : s'.clients id = some cl)
    (hconn : cl.connected = true) (hown : cl.fd = fd) (hempty : cl.sfQueue = [])
    (hsent : sent = (flushCalls id fd uninit 0 (s.queueOf id)).flatMap Call.sends) :
    s.TakesBack id fd uninit s' sent := by
  have hlink : s'.link id = some (cl.connected, cl.fd) := by rw [link, hcl]; rfl
  exact ⟨hfd, by rw [hlink, hconn, hown], hsent, (queueOf_of_clients hcl).trans hempty⟩

end Server

namespace Network

def handles (n : Network) : Act → Option Event
  | .serve fd uninit _ => n.ready.head?.bind fun i => (n.next fd uninit i).map Prod.fst
  | _ => none

/-- The next turn of the loop accepts `c`, which has announced an ID that no other open connection
uses. -/
structure Returns (n : Network) (c : Conn) (fd : Nat) (uninit : Nat → Nat) : Prop where
  turn : n.ready.head? = some tcpsockfd
  first : n.backlog.head? = some c
  announces : msgType (received c.hello.bytes) = idMsg
  offered : n.server.Offers (.accept fd c.hello.bytes uninit)
  alone : ∀ e c', n.conn? e = some c' → e ≠ .waiting 0 →
    msgType (received c'.hello.bytes) = idMsg → c'.id = c.id → c'.closed = true

theorem Returns.next {n : Network} {c : Conn} {fd : Nat} {uninit : Nat → Nat}
    (hret : n.Returns c fd uninit) : ∃ n₁ : Network, n.next fd uninit tcpsockfd
      = some (.accept fd c.hello.bytes uninit, n₁) ∧
        n₁.conns = Function.update n.conns fd (some c) := by
  obtain ⟨backlog, hbacklog⟩ := List.head?_eq_some_iff.mp hret.first
  rw [Network.next, if_neg (by decide), if_neg (by decide), if_pos rfl, hbacklog]
  exact ⟨_, rfl, rfl⟩

end Network

end PCom.PubSub
