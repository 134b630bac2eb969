import PCom.Lib.Runs
import PCom.PubSub.Server

namespace PCom.PubSub

open Lib

@[simp] theorem getD_zeroPad (n : Nat) (bs : List Byte) (i : Nat) :
    (zeroPad n bs).getD i 0 = bs.getD i 0 := by
  rw [zeroPad, List.getD_eq_getElem?_getD, List.getD_eq_getElem?_getD]
  by_cases h : i < bs.length
  · rw [List.getElem?_append_left h]
  · rw [List.getElem?_append_right (by omega), List.getElem?_replicate,
      List.getElem?_eq_none (by omega)]
    split <;> rfl

@[simp] theorem cstr_drop_zeroPad (n k : Nat) (bs : List Byte) :
    cstr ((zeroPad n bs).drop k) = cstr (bs.drop k) := by
  rw [zeroPad, List.drop_append, List.drop_replicate]
  exact cstr_append_replicate _ _

theorem msgType_received (bytes : List Byte) : msgType (received bytes) = bytes.getD 0 0 :=
  getD_zeroPad _ _ _

theorem payloadStr_received (bytes : List Byte) :
    payloadStr (received bytes) = cstr (bytes.drop 1) := cstr_drop_zeroPad _ _ _

theorem payloadSf_received (bytes : List Byte) :
    payloadSf (received bytes) = decide (bytes.getD (1 + topicLen) 0 ≠ 0) := by
  rw [payloadSf, received, getD_zeroPad]

theorem subsRequest_ne_nil (type : Byte) (topic : Str) (sf : Bool) :
    subsRequest type topic sf ≠ [] := by simp [subsRequest, protoMsg, zeroPad]

@[simp] theorem msgType_subsRequest (type : Byte) (topic : Str) (sf : Bool) :
    msgType (received (subsRequest type topic sf)) = type := by
  rw [msgType_received, subsRequest, protoMsg, getD_zeroPad, List.getD_cons_zero]

namespace Client

theorem not_clientHasTopic_iff {cl : Client} {topic : Str} :
    ¬ cl.clientHasTopic topic = true ↔ cl.topics topic = none := by
  rw [clientHasTopic, Option.isSome_iff_ne_none, not_not]

theorem topicHasSf_iff {cl : Client} {topic : Str} {sf : Bool} :
    (cl.clientHasTopic topic = true ∧ (cl.topicHasSf topic).1 = sf) ↔ cl.topics topic = some sf := by
  rw [clientHasTopic, topicHasSf]
  cases cl.topics topic <;> simp

def missed (cl : Client) (pkt : Packet) : Client :=
  if (cl.topicHasSf pkt.topicStr).1 then (cl.topicHasSf pkt.topicStr).2.storePacket pkt
  else (cl.topicHasSf pkt.topicStr).2

@[simp] theorem missed_connected (cl : Client) (pkt : Packet) :
    (cl.missed pkt).connected = cl.connected := by
  rw [missed]
  split <;> rfl

@[simp] theorem missed_fd (cl : Client) (pkt : Packet) : (cl.missed pkt).fd = cl.fd := by
  rw [missed]
  split <;> rfl

end Client

namespace Server

theorem send_ok {s : Server} {fd : Nat} {bytes : List Byte} {x : Send}
    (h : s.send fd bytes = .ok x) : x = ⟨fd, bytes⟩ := by
  unfold send at h
  split at h
  · cases h
    rfl
  · cases h

theorem sendPacket_ok {s : Server} {fd uninit : Nat} {pkt : Packet} {sent : List Send}
    (h : s.sendPacket fd uninit pkt = .ok sent) :
    sent = [⟨fd, pkt.header uninit⟩, ⟨fd, pkt.body uninit⟩] ∧
      pkt.contentSize uninit ≤ contentLen + 3 := by
  unfold sendPacket at h
  split at h
  next => cases h
  next hsize =>
    obtain ⟨msg, hmsg, h⟩ := bind_ok h
    obtain ⟨buffer, hbuffer, h⟩ := bind_ok h
    obtain rfl := send_ok hmsg
    obtain rfl := send_ok hbuffer
    cases h
    exact ⟨rfl, not_lt.mp hsize⟩

theorem sendQueue_fd {s : Server} {fd : Nat} {uninit : Nat → Nat} {n : Nat} {sfQueue : List Packet}
    {sent : List Send} (h : s.sendQueue fd uninit n sfQueue = .ok sent) : ∀ x ∈ sent, x.fd = fd := by
  induction sfQueue generalizing n sent with
  | nil =>
    cases h
    simp
  | cons pkt sfQueue ih =>
    obtain ⟨sent₁, hsend, h⟩ := bind_ok h
    obtain ⟨rest, hrest, h⟩ := bind_ok h
    obtain ⟨rfl, -⟩ := sendPacket_ok hsend
    cases h
    simpa using ih hrest

theorem publishTo_cons {uninit : Nat → Nat} {pkt : Packet} {n : Nat} {id : Str} {ids : List Str}
    {s s' : Server} {sent : List Send} (h : publishTo uninit pkt n (id :: ids) s = .ok (s', sent)) :
    ∃ cl, s.clients id = some cl ∧
      ((cl.connected = true ∧ pkt.contentSize (uninit n) ≤ contentLen + 3 ∧
        ∃ rest, publishTo uninit pkt (n + 1) ids s = .ok (s', rest) ∧
          sent = ⟨cl.fd, pkt.header (uninit n)⟩ :: ⟨cl.fd, pkt.body (uninit n)⟩ :: rest) ∨
      (cl.connected = false ∧
        publishTo uninit pkt (n + 1) ids (s.setClient id (cl.missed pkt)) = .ok (s', sent))) := by
  rw [publishTo] at h
  cases hcl : s.clients id with
  | none =>
    rw [hcl] at h
    cases h
  | some cl =>
    refine ⟨cl, rfl, ?_⟩
    simp only [hcl] at h
    split at h
    next hconn =>
      obtain ⟨sent₁, hsend, h⟩ := bind_ok h
      obtain ⟨⟨s₂, rest⟩, hloop, h⟩ := bind_ok h
      obtain ⟨rfl, hsize⟩ := sendPacket_ok hsend
      cases h
      exact .inl ⟨hconn, hsize, rest, hloop, rfl⟩
    next hconn => exact .inr ⟨Bool.eq_false_of_not_eq_true hconn, h⟩

def opened (s : Server) (fd : Nat) : Server :=
  { s with readFds := insert fd s.readFds, fdmax := max s.fdmax fd }

inductive Accepts (s : Server) (fd : Nat) (bytes : List Byte) : Server → List Send → Prop
  | silent : msgType (received bytes) ≠ idMsg → Accepts s fd bytes (s.opened fd) []
  | duplicate {cl} : msgType (received bytes) = idMsg →
      s.clients (payloadStr (received bytes)) = some cl → cl.connected = true →
      Accepts s fd bytes ((s.opened fd).closeFd fd) [⟨fd, protoMsg exitMsg []⟩]
  | returning {cl uninit sent} : msgType (received bytes) = idMsg →
      s.clients (payloadStr (received bytes)) = some cl → cl.connected = false →
      (s.opened fd).sendQueue fd uninit 0 cl.sfQueue = .ok sent →
      Accepts s fd bytes { (s.opened fd).setClient (payloadStr (received bytes)) (cl.reconnect fd) with
        fdToId := Function.update (Function.update s.fdToId cl.fd none) fd
          (some (payloadStr (received bytes))) } sent
  | fresh : msgType (received bytes) = idMsg → s.clients (payloadStr (received bytes)) = none →
      Accepts s fd bytes { (s.opened fd).setClient (payloadStr (received bytes)) (.new fd) with
        fdToId := Function.update s.fdToId fd (some (payloadStr (received bytes))) } []

theorem acceptBranch_cases {s s' : Server} {fd : Nat} {bytes : List Byte} {uninit : Nat → Nat}
    {sent : List Send} (h : s.acceptBranch fd bytes uninit = .ok (s', sent)) :
    Accepts s fd bytes s' sent := by
  simp only [acceptBranch] at h
  split at h
  next hid =>
    split at h
    next cl hcl =>
      split at h
      next hconn =>
        obtain ⟨msg, hmsg, h⟩ := bind_ok h
        obtain rfl := send_ok hmsg
        cases h
        exact .duplicate hid hcl hconn
      next hconn =>
        obtain ⟨queue, hqueue, h⟩ := bind_ok h
        cases h
        exact .returning hid hcl (Bool.eq_false_of_not_eq_true hconn) hqueue
    next hnone =>
      cases h
      exact .fresh hid hnone
  next hid =>
    cases h
    exact .silent hid

theorem Accepts.fd_eq {s s' : Server} {fd : Nat} {bytes : List Byte} {sent : List Send}
    (h : Accepts s fd bytes s' sent) : ∀ x ∈ sent, x.fd = fd := by
  cases h with
  | silent => simp
  | duplicate => simp
  | returning _ _ _ hqueue => exact sendQueue_fd hqueue
  | fresh => simp

/-! ## What a message does -/

/-- The ID that messages on descriptor `i` are attributed to. -/
def idOf (s : Server) (i : Nat) : Str := (s.fdToId i).getD []

theorem idOf_of_fdToId {s : Server} {i : Nat} {id : Str} (h : s.fdToId i = some id) :
    s.idOf i = id := by
  rw [idOf, h, Option.getD_some]

/-- `fd_to_id[i]` has an entry once it was looked up. -/
def lookedUp (s : Server) (i : Nat) : Server :=
  { s with fdToId := Function.update s.fdToId i (some (s.idOf i)) }

theorem clientOf_ok {s s₁ : Server} {i : Nat} {id : Str} {cl : Client}
    (h : s.clientOf i = .ok (id, cl, s₁)) :
    id = s.idOf i ∧ s.clients (s.idOf i) = some cl ∧ s₁ = s.lookedUp i := by
  simp only [clientOf] at h
  split at h
  next => cases h
  next cl' hcl =>
    cases h
    exact ⟨rfl, hcl, rfl⟩

def IsRequest (bytes : List Byte) : Prop :=
  bytes = [] ∨ msgType (received bytes) = subMsg ∨ msgType (received bytes) = unsubMsg

theorem recvBranch_of_not_isRequest {s : Server} {i : Nat} {bytes : List Byte}
    (h : ¬ IsRequest bytes) : s.recvBranch i bytes = .ok (s, []) := by
  simp only [IsRequest, not_or] at h
  simp only [recvBranch]
  rw [if_neg h.1, if_neg h.2.1, if_neg h.2.2]

inductive Asks (bytes : List Byte) : Option Bool → Prop
  | sub : bytes ≠ [] → msgType (received bytes) = subMsg →
      Asks bytes (some (payloadSf (received bytes)))
  | unsub : bytes ≠ [] → msgType (received bytes) = unsubMsg → Asks bytes none

theorem Asks.ne_nil {bytes : List Byte} {entry : Option Bool} (h : Asks bytes entry) :
    bytes ≠ [] := by
  cases h with
  | sub hne => exact hne
  | unsub hne => exact hne

theorem Asks.isRequest {bytes : List Byte} {entry : Option Bool} (h : Asks bytes entry) :
    IsRequest bytes := by
  cases h with
  | sub _ htype => exact .inr (.inl htype)
  | unsub _ htype => exact .inr (.inr htype)

theorem Asks.unique {bytes : List Byte} {entry entry' : Option Bool} (h : Asks bytes entry)
    (h' : Asks bytes entry') : entry = entry' := by
  have hdiff : subMsg ≠ unsubMsg := by decide
  cases h with
  | sub _ htype =>
    cases h' with
    | sub => rfl
    | unsub _ htype' => exact absurd (htype.symm.trans htype') hdiff
  | unsub _ htype =>
    cases h' with
    | sub _ htype' => exact absurd (htype'.symm.trans htype) hdiff
    | unsub => rfl

inductive Handles (s : Server) (i : Nat) (bytes : List Byte) : Server → List Send → Prop
  | ignored : ¬ IsRequest bytes → Handles s i bytes s []
  | closed {cl} : bytes = [] → s.clients (s.idOf i) = some cl →
      Handles s i bytes (((s.lookedUp i).setClient (s.idOf i) cl.disconnect).closeFd i) []
  | refused {cl entry} : Asks bytes entry → s.clients (s.idOf i) = some cl →
      cl.topics (payloadStr (received bytes)) = entry →
      Handles s i bytes (s.lookedUp i) [⟨i, protoMsg errMsg []⟩]
  | granted {cl entry} : Asks bytes entry → s.clients (s.idOf i) = some cl →
      cl.topics (payloadStr (received bytes)) ≠ entry →
      Handles s i bytes { (s.lookedUp i).setClient (s.idOf i)
          { cl with topics := Function.update cl.topics (payloadStr (received bytes)) entry } with
        topicToClients := Function.update s.topicToClients (payloadStr (received bytes))
          (if entry.isSome then (s.topicToClients (payloadStr (received bytes))).insert (s.idOf i)
          else (s.topicToClients (payloadStr (received bytes))).erase (s.idOf i)) }
        [⟨i, protoMsg confMsg []⟩]

theorem recvBranch_cases {s s' : Server} {i : Nat} {bytes : List Byte} {sent : List Send}
    (h : s.recvBranch i bytes = .ok (s', sent)) : Handles s i bytes s' sent := by
  have hanswer {s : Server} {type : Byte} {x : Send} (hx : s.sendMsg i type = .ok x) :
      x = ⟨i, protoMsg type []⟩ := send_ok hx
  by_cases hreq : IsRequest bytes
  · simp only [recvBranch] at h
    split at h
    next hnil =>
      obtain ⟨⟨id, cl, s₁⟩, hof, h⟩ := bind_ok h
      obtain ⟨rfl, hcl, rfl⟩ := clientOf_ok hof
      cases h
      exact .closed hnil hcl
    next hne =>
      split at h
      next hsub =>
        obtain ⟨⟨id, cl, s₁⟩, hof, h⟩ := bind_ok h
        obtain ⟨rfl, hcl, rfl⟩ := clientOf_ok hof
        split at h
        next hsame =>
          obtain ⟨msg, hmsg, h⟩ := bind_ok h
          obtain rfl := hanswer hmsg
          cases h
          exact .refused (.sub hne hsub) hcl (Client.topicHasSf_iff.mp hsame)
        next hsame =>
          obtain ⟨msg, hmsg, h⟩ := bind_ok h
          obtain rfl := hanswer hmsg
          cases h
          exact .granted (.sub hne hsub) hcl fun htopic => hsame (Client.topicHasSf_iff.mpr htopic)
      next hsub =>
        have hunsub := (hreq.resolve_left hne).resolve_left hsub
        rw [if_pos hunsub] at h
        obtain ⟨⟨id, cl, s₁⟩, hof, h⟩ := bind_ok h
        obtain ⟨rfl, hcl, rfl⟩ := clientOf_ok hof
        split at h
        next hhas =>
          obtain ⟨msg, hmsg, h⟩ := bind_ok h
          obtain rfl := hanswer hmsg
          cases h
          exact .refused (.unsub hne hunsub) hcl (Client.not_clientHasTopic_iff.mp hhas)
        next hhas =>
          obtain ⟨msg, hmsg, h⟩ := bind_ok h
          obtain rfl := hanswer hmsg
          cases h
          exact .granted (.unsub hne hunsub) hcl fun hnone => hhas (Client.not_clientHasTopic_iff.mpr hnone)
  · rw [recvBranch_of_not_isRequest hreq] at h
    cases h
    exact .ignored hreq

theorem Handles.fd_eq {s s' : Server} {i : Nat} {bytes : List Byte} {sent : List Send}
    (h : Handles s i bytes s' sent) : ∀ x ∈ sent, x.fd = i := by
  cases h <;> simp

theorem Handles.answers {s s' : Server} {i : Nat} {bytes : List Byte} {sent : List Send}
    (h : Handles s i bytes s' sent) (hne : bytes ≠ []) (hreq : IsRequest bytes) :
    ∃ reply, (reply = confMsg ∨ reply = errMsg) ∧ sent = [⟨i, protoMsg reply []⟩] := by
  cases h with
  | ignored hnot => exact absurd hreq hnot
  | closed hnil => exact absurd hnil hne
  | refused => exact ⟨errMsg, .inr rfl, rfl⟩
  | granted => exact ⟨confMsg, .inl rfl, rfl⟩

/-! ## The registry -/

def link (s : Server) (id : Str) : Option (Bool × Nat) :=
  (s.clients id).map fun cl => (cl.connected, cl.fd)

structure SameRegistry (s s' : Server) : Prop where
  readFds : s'.readFds = s.readFds
  fdToId : s'.fdToId = s.fdToId
  link : ∀ id, s'.link id = s.link id

theorem SameRegistry.rfl {s : Server} : SameRegistry s s := ⟨Eq.refl _, Eq.refl _, fun _ => Eq.refl _⟩

theorem SameRegistry.trans {s₁ s₂ s₃ : Server} (h : SameRegistry s₁ s₂) (h' : SameRegistry s₂ s₃) :
    SameRegistry s₁ s₃ :=
  ⟨h'.readFds.trans h.readFds, h'.fdToId.trans h.fdToId, fun id => (h'.link id).trans (h.link id)⟩

@[simp] theorem link_setClient (s : Server) (id : Str) (cl : Client) :
    (s.setClient id cl).link = Function.update s.link id (some (cl.connected, cl.fd)) := by
  funext id'
  by_cases h : id' = id
  · subst h
    simp [link, setClient]
  · simp [link, setClient, Function.update_of_ne h]

theorem sameRegistry_setClient {s : Server} {id : Str} {cl cl' : Client}
    (h : s.clients id = some cl) (hconn : cl'.connected = cl.connected) (hfd : cl'.fd = cl.fd) :
    SameRegistry s (s.setClient id cl') := by
  refine ⟨Eq.refl _, Eq.refl _, fun id' => ?_⟩
  rw [link_setClient]
  by_cases hid : id' = id
  · subst hid
    simp [link, h, hconn, hfd]
  · rw [Function.update_of_ne hid]

theorem publishTo_registry {uninit : Nat → Nat} {pkt : Packet} {n : Nat} {ids : List Str}
    {s s' : Server} {sent : List Send} (h : publishTo uninit pkt n ids s = .ok (s', sent)) :
    SameRegistry s s' := by
  induction ids generalizing n s sent with
  | nil =>
    cases h
    exact .rfl
  | cons id ids ih =>
    obtain ⟨cl, hcl, ⟨-, -, rest, hloop, -⟩ | ⟨-, hloop⟩⟩ := publishTo_cons h
    · exact ih hloop
    · exact (sameRegistry_setClient hcl (cl.missed_connected pkt) (cl.missed_fd pkt)).trans (ih hloop)

/-- The copies of a packet that the loop sends: the descriptor and the size it finds for a content
of unknown type. -/
def copies (s : Server) (uninit : Nat → Nat) : Nat → List Str → List (Nat × Nat)
  | _, [] => []
  | n, id :: ids =>
    match s.link id with
    | some (true, fd) => (fd, uninit n) :: s.copies uninit (n + 1) ids
    | _ => s.copies uninit (n + 1) ids

theorem SameRegistry.copies {s s' : Server} (h : SameRegistry s s') (uninit : Nat → Nat) (n : Nat)
    (ids : List Str) : s'.copies uninit n ids = s.copies uninit n ids := by
  induction ids generalizing n with
  | nil => rfl
  | cons id ids ih => simp only [Server.copies, h.link, ih]

theorem publishTo_sent {uninit : Nat → Nat} {pkt : Packet} {n : Nat} {ids : List Str}
    {s s' : Server} {sent : List Send} (h : publishTo uninit pkt n ids s = .ok (s', sent)) :
    sent = (s.copies uninit n ids).flatMap
        (fun c => [⟨c.1, pkt.header c.2⟩, ⟨c.1, pkt.body c.2⟩]) ∧
      ∀ c ∈ s.copies uninit n ids, pkt.contentSize c.2 ≤ contentLen + 3 := by
  induction ids generalizing n s sent with
  | nil =>
    cases h
    exact ⟨rfl, by simp [copies]⟩
  | cons id ids ih =>
    obtain ⟨cl, hcl, hstep⟩ := publishTo_cons h
    have hlink : s.link id = some (cl.connected, cl.fd) := by simp [link, hcl]
    rcases hstep with ⟨hconn, hsize, rest, hloop, rfl⟩ | ⟨hconn, hloop⟩
    · have hcopies : s.copies uninit n (id :: ids)
          = (cl.fd, uninit n) :: s.copies uninit (n + 1) ids := by
        rw [copies, hlink, hconn]
      obtain ⟨hrest, hsizes⟩ := ih hloop
      rw [hcopies, List.flatMap_cons, ← hrest]
      exact ⟨rfl, List.forall_mem_cons.mpr ⟨hsize, hsizes⟩⟩
    · have hcopies : s.copies uninit n (id :: ids) = s.copies uninit (n + 1) ids := by
        rw [copies, hlink, hconn]
      have hsame := sameRegistry_setClient hcl (cl.missed_connected pkt) (cl.missed_fd pkt)
      have hrest := ih hloop
      rwa [hsame.copies, ← hcopies] at hrest

theorem udpBranch_registry {s s' : Server} {ip : Word32} {port : Word16} {bytes : List Byte}
    {uninit : Nat → Nat} {sent : List Send} (h : s.udpBranch ip port bytes uninit = .ok (s', sent)) :
    SameRegistry s s' := publishTo_registry h

theorem stdinBranch_registry {s s' : Server} {word : Str} {sent : List Send}
    (h : s.stdinBranch word = .ok (s', sent)) : SameRegistry s s' := by
  unfold stdinBranch at h
  split at h
  · cases h
  · cases h
    exact .rfl

def accepted (s : Server) (bytes : List Byte) : Option Str :=
  if msgType (received bytes) = idMsg then
    if ∀ cl, s.clients (payloadStr (received bytes)) = some cl → cl.connected = false then
      some (payloadStr (received bytes))
    else none
  else none

theorem Accepts.rejected {s s' : Server} {fd : Nat} {bytes : List Byte} {sent : List Send}
    (h : Accepts s fd bytes s' sent) (hacc : s.accepted bytes = none) :
    s'.fdToId = s.fdToId ∧ s'.link = s.link ∧
      (s'.readFds = insert fd s.readFds ∨ s'.readFds = (insert fd s.readFds).erase fd) := by
  cases h with
  | silent => exact ⟨rfl, rfl, .inl rfl⟩
  | duplicate => exact ⟨rfl, rfl, .inr rfl⟩
  | returning hid hcl hconn => simp [accepted, hid, hcl, hconn] at hacc
  | fresh hid hcl => simp [accepted, hid, hcl] at hacc

/-- What an accepted ID changes; the client may have had another descriptor before. -/
structure Registers (s s' : Server) (fd : Nat) (id : Str) : Prop where
  readFds : s'.readFds = insert fd s.readFds
  fdToId : s'.fdToId = Function.update (match s.clients id with
    | some cl => Function.update s.fdToId cl.fd none
    | none => s.fdToId) fd (some id)
  link : s'.link = Function.update s.link id (some (true, fd))
  idle : ∀ cl, s.clients id = some cl → cl.connected = false

theorem Accepts.registers {s s' : Server} {fd : Nat} {bytes : List Byte} {sent : List Send}
    {id : Str} (h : Accepts s fd bytes s' sent) (hacc : s.accepted bytes = some id) :
    Registers s s' fd id := by
  cases h with
  | silent hid => simp [accepted, hid] at hacc
  | duplicate hid hcl hconn => simp [accepted, hid, hcl, hconn] at hacc
  | returning hid hcl hconn =>
    obtain rfl : payloadStr (received bytes) = id := by
      simpa [accepted, hid, hcl, hconn] using hacc
    refine ⟨rfl, by rw [hcl], link_setClient _ _ _, fun cl' hcl' => ?_⟩
    obtain rfl := Option.some.inj (hcl.symm.trans hcl')
    exact hconn
  | fresh hid hcl =>
    obtain rfl : payloadStr (received bytes) = id := by simpa [accepted, hid, hcl] using hacc
    refine ⟨rfl, by rw [hcl], link_setClient _ _ _, fun cl' hcl' => ?_⟩
    rw [hcl] at hcl'
    cases hcl'

theorem Accepts.readFds {s s' : Server} {fd : Nat} {bytes : List Byte} {sent : List Send}
    (h : Accepts s fd bytes s' sent) {i : Nat} (hi : i ∈ s.readFds) (hfd : i ≠ fd) :
    i ∈ s'.readFds := by
  cases h <;> simp [opened, closeFd, setClient, hi, hfd]

theorem Handles.close {s s' : Server} {i : Nat} {sent : List Send}
    (h : Handles s i [] s' sent) :
    ∃ cl, s.clients (s.idOf i) = some cl ∧ s'.readFds = s.readFds.erase i ∧
      s'.fdToId = Function.update s.fdToId i (some (s.idOf i)) ∧
      s'.link = Function.update s.link (s.idOf i) (some (false, cl.fd)) := by
  cases h with
  | ignored hnot => exact absurd (.inl rfl) hnot
  | closed _ hcl => exact ⟨_, hcl, rfl, rfl, link_setClient _ _ _⟩
  | refused hasks => exact absurd rfl hasks.ne_nil
  | granted hasks => exact absurd rfl hasks.ne_nil

/-- A message that is no close leaves every connection as it is, but may map a descriptor that
was missing to the empty ID. -/
theorem Handles.message {s s' : Server} {i : Nat} {bytes : List Byte} {sent : List Send}
    (h : Handles s i bytes s' sent) (hne : bytes ≠ []) :
    s'.readFds = s.readFds ∧ s'.link = s.link ∧ (s'.fdToId = s.fdToId ∨
      s'.fdToId = Function.update s.fdToId i (some (s.idOf i))) := by
  cases h with
  | ignored => exact ⟨rfl, rfl, .inl rfl⟩
  | closed hnil => exact absurd hnil hne
  | refused => exact ⟨rfl, rfl, .inr rfl⟩
  | @granted cl entry _ hcl =>
    have hsame : SameRegistry (s.lookedUp i) ((s.lookedUp i).setClient (s.idOf i) { cl with
        topics := Function.update cl.topics (payloadStr (received bytes)) entry }) :=
      sameRegistry_setClient hcl rfl rfl
    exact ⟨rfl, funext hsame.link, .inr rfl⟩

end Server

end PCom.PubSub
