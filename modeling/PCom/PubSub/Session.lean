import PCom.PubSub.Subscriber

/-! A subscriber and the server, with the messages that are on their way between them.  The
channels keep messages whole and in order, and everything else that the server does goes on
meanwhile. -/

namespace PCom.PubSub

open Lib

/-- The server, the subscriber whose connection is its descriptor `i`, and the two channels.  The
last three fields record what was printed, which packets were sent to the subscriber, and how
the server answered each request. -/
structure Session where
  server : Server
  mode : Mode
  toServer : List (List Byte)
  toSubscriber : List (List Byte)
  printed : List Print
  sent : List Packet
  answered : List (Byte × Feedback)

inductive SessionEvent
  | command (type : Byte) (topic : Str) (sf : Bool)
  | serve
  | other (e : Event)
  | receive

def sentTo (i : Nat) (sent : List Send) : List (List Byte) :=
  (sent.filter (·.fd = i)).map (·.bytes)

/-- Something that happens to the server other than a message or a close on descriptor `i`. -/
def Event.Elsewhere (i : Nat) : Event → Prop
  | .recv j _ => j ≠ i
  | _ => True

instance (i : Nat) (e : Event) : Decidable (e.Elsewhere i) :=
  match e with
  | .recv j _ => inferInstanceAs (Decidable (j ≠ i))
  | .stdin _ | .udp .. | .accept .. => inferInstanceAs (Decidable True)

namespace Server

/-- The copies of a datagram that go out on descriptor `i`, each with the size it finds for a
content of unknown type. -/
def copiesTo (s : Server) (i : Nat) : Event → List (Packet × Nat)
  | .udp ip port bytes uninit =>
    let pkt := Packet.ofDatagram ip port bytes
    ((s.copies uninit 0 (s.topicToClients pkt.topicStr)).filter (·.1 = i)).map fun c => (pkt, c.2)
  | _ => []

end Server

namespace Mode

/-- A `recv` that returns the message `m`, which it can if it asks for that much. -/
def read (mode : Mode) (m : List Byte) : Option (Mode × List Print) :=
  if m.length ≤ mode.want then mode.act (received m) else none

def readAll : Mode → List (List Byte) → Option (Mode × List Print)
  | mode, [] => some (mode, [])
  | mode, m :: ms =>
    match mode.read m with
    | none => none
    | some (mode, prints) => (readAll mode ms).map fun r => (r.1, prints ++ r.2)

end Mode

namespace Session

def start (server : Server) : Session := ⟨server, .main, [], [], [], [], []⟩

/-- `none` where nothing of the kind can happen, or the server ends. -/
def step (i : Nat) (s : Session) : SessionEvent → Option Session
  | .command type topic sf =>
    if s.mode = .main ∧ (type = subMsg ∨ type = unsubMsg) ∧ topic.length ≤ topicLen then
      some { s with
        mode := .feedback type
        toServer := s.toServer ++ [subsRequest type topic sf] }
    else none
  | .serve =>
    match s.toServer with
    | [] => none
    | m :: ms =>
      match s.server.recvBranch i m with
      | .error _ => none
      | .ok (server, sent) =>
        some { s with
          server := server
          toServer := ms
          toSubscriber := s.toSubscriber ++ sentTo i sent
          answered := s.answered ++ (sentTo i sent).map fun reply =>
            (msgType (received m), .ofType (msgType (received reply))) }
  | .other e =>
    if s.server.Offers e ∧ e.Elsewhere i then
      match s.server.handle e with
      | .error _ => none
      | .ok (server, sent) =>
        some { s with
          server := server
          toSubscriber := s.toSubscriber ++ sentTo i sent
          sent := s.sent ++ (s.server.copiesTo i e).map fun c => c.1.trimmed c.2 }
    else none
  | .receive =>
    match s.toSubscriber with
    | [] => none
    | m :: ms =>
      match s.mode.read m with
      | none => none
      | some (mode, prints) =>
        some { s with
          mode := mode
          toSubscriber := ms
          printed := s.printed ++ prints }

def Step (i : Nat) (s : Session) (e : SessionEvent) (s' : Session) : Prop := s.step i e = some s'

def play (i : Nat) (s : Session) : List SessionEvent → Option Session
  | [] => some s
  | e :: es => (s.step i e).bind fun s' => s'.play i es

theorem run_of_play {i : Nat} {s₀ s s' : Session} {log : List (Session × SessionEvent)}
    {es : List SessionEvent} (hrun : Run (Step i) s₀ log s) (hplay : s.play i es = some s') :
    ∃ log', Run (Step i) s₀ log' s' ∧ log'.map Prod.snd = log.map Prod.snd ++ es := by
  induction es generalizing s log with
  | nil =>
    obtain rfl := Option.some.inj hplay
    exact ⟨log, hrun, by simp⟩
  | cons e es ih =>
    obtain ⟨s₁, hstep, hrest⟩ := Option.bind_eq_some_iff.mp hplay
    obtain ⟨log', hrun', hlog⟩ := ih (hrun.snoc hstep) hrest
    exact ⟨log', hrun', by simpa using hlog⟩

end Session

end PCom.PubSub
