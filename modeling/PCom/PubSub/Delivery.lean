import PCom.PubSub.Survival

/-! What one client receives, whatever the order of its connections, its closes and the datagrams. -/

namespace PCom.PubSub

open Lib

namespace Network

def sfPackets (id : Str) (copies : List Copy) : List Packet :=
  (copies.filter fun c => c.call.id = id ∧ c.sf = true).map (·.call.pkt)

/-- The packets on their way over a connection, `none` if its other end is closed. -/
def outboxAt (n : Network) (fd : Nat) : Option (List Copy) := (n.conns fd).bind (·.outbox)

/-- The packets on their way to a client over the connection it is registered with. -/
def inFlight (n : Network) (id : Str) : List Packet :=
  match n.server.link id with
  | some (true, fd) => sfPackets id ((n.outboxAt fd).getD [])
  | _ => []

/-- The client is connected, and has not closed the connection at its end. -/
def Reached (n : Network) (id : Str) : Prop :=
  ∃ fd, n.server.link id = some (true, fd) ∧ n.outboxAt fd ≠ none

/-- The server runs, and each packet that was published for a client with SF on was received once,
or is on its way over an open connection, or is stored, in this order. -/
structure Lossless (id : Str) (n : Network) : Prop where
  alive : n.alive = true
  balance : sfPackets id (n.delivered id) ++ n.inFlight id ++ n.server.queueOf id = n.due id
  /-- What the client did not receive before it left is stored. -/
  stored : ¬ n.Reached id → sfPackets id (n.delivered id) ++ n.server.queueOf id = n.due id
  /-- Once it is back and has read what was sent, it has received everything. -/
  complete : ∀ i c, n.conn? (.accepted i) = some c → c.outbox = some [] →
    sfPackets id (n.delivered id) = n.due id

/-- The client closes no connection with packets on their way, and no packet is handed to a
connection that it has closed: neither a published one nor, when it connects, a stored one. -/
def Carries (id : Str) (n : Network) : Act → Prop
  | .close (.accepted i) _ => n.server.link id = some (true, i) → n.inFlight id = []
  | .serve _ _ _ =>
    (n.ready.head? = some udpsockfd → ∀ d ∈ n.datagrams.head?, ∀ fd,
      n.server.link id = some (true, fd) →
      n.server.entry id (Packet.ofDatagram d.ip d.port d.bytes).topicStr = some true →
      n.outboxAt fd ≠ none) ∧
    (n.ready.head? = some tcpsockfd → ∀ c ∈ n.backlog.head?,
      n.server.accepted c.hello.bytes = some id → c.closed = true → n.server.queueOf id = [])
  | _ => True

/-- The step carries the packets of the client, and the server survives it. -/
def Kept (id : Str) (n : Network) (a : Act) : Prop := n.Survives a ∧ n.Carries id a

def OneClient (id : Str) (n : Network) (a : Act) (n' : Network) : Prop :=
  n.Step a n' ∧ ∀ hello, a = .dial hello →
    msgType (received hello.bytes) = idMsg ∧ payloadStr (received hello.bytes) = id

/-! ## Packets -/

@[simp] theorem sfPackets_nil (id : Str) : sfPackets id [] = [] := rfl

theorem sfPackets_append (id : Str) (cs cs' : List Copy) :
    sfPackets id (cs ++ cs') = sfPackets id cs ++ sfPackets id cs' := by
  simp [sfPackets]

theorem sfPackets_filter {id : Str} {fd : Nat} {copies : List Copy}
    (h : ∀ c ∈ copies, c.call.id = id → c.call.fd = fd) :
    sfPackets id (copies.filter (·.call.fd = fd)) = sfPackets id copies := by
  rw [sfPackets, sfPackets, List.filter_filter]
  congr 1
  refine List.filter_congr fun c hc => ?_
  by_cases hid : c.call.id = id
  · simp [hid, h c hc hid]
  · simp [hid]

theorem outboxAt_eq {n : Network} {fd : Nat} {c : Conn} (h : n.conns fd = some c) :
    n.outboxAt fd = c.outbox := by
  rw [outboxAt, h, Option.bind_some]

theorem outboxAt_congr {n n' : Network} {fd : Nat} (h : n'.conns fd = n.conns fd) :
    n'.outboxAt fd = n.outboxAt fd := by
  rw [outboxAt, outboxAt, h]

theorem outbox_take (far : Far) (parcels : List (Option Copy)) :
    (far.take parcels).outbox = far.outbox.map (· ++ parcels.reduceOption) := by
  cases far <;> simp [Far.take, Far.outbox, List.reduceOption_append]

@[simp] theorem outbox_close (c : Conn) (crossed : Bool) : (c.close crossed).outbox = none := by
  rcases c with ⟨hello, inbox, far⟩
  cases far with
  | reading unread => cases unread <;> cases crossed <;> rfl
  | finished hit => rfl
  | reset => rfl

theorem outbox_of_cons {c : Conn} {copy : Option Copy} {unread : List (Option Copy)}
    (h : c.far = .reading (copy :: unread)) :
    c.outbox = some (copy.toList ++ unread.reduceOption) := by
  rw [Conn.outbox, h, Far.outbox]
  cases copy <;> rfl

theorem outbox_of_finished {c : Conn} {hit : Bool} (h : c.far = .finished hit) :
    c.outbox = none := by
  rw [Conn.outbox, h]
  rfl

theorem closed_iff {c : Conn} : c.closed = true ↔ c.outbox = none := by
  rcases c with ⟨hello, inbox, far⟩
  cases far <;> simp [Conn.closed, Conn.outbox, Far.isClosed, Far.outbox]

theorem filterMap_parcels (s : Server) (e : Event) (fd : Nat) :
    (((s.parcels e).filter (·.fd = fd)).map (·.copy)).reduceOption
      = (s.copiesOf e).filter (·.call.fd = fd) := by
  have hanswers (fds : List Nat) : ((fds.map fun fd => (⟨fd, none⟩ : Parcel)).filter
      (·.fd = fd)).filterMap (·.copy) = [] := by
    simp [List.filterMap_eq_nil_iff]
  have hcopies (cs : List Copy) : ((cs.map fun c => (⟨c.call.fd, some c⟩ : Parcel)).filter
      (·.fd = fd)).filterMap (·.copy) = cs.filter (·.call.fd = fd) := by
    rw [List.filter_map, List.filterMap_map]
    exact List.filterMap_some
  rw [List.reduceOption, List.filterMap_map]
  change ((s.parcels e).filter (·.fd = fd)).filterMap (·.copy) = _
  rw [Server.parcels, List.filter_append, List.filterMap_append, hcopies, hanswers,
    List.append_nil]

theorem outboxAt_deliver (n : Network) (s : Server) (e : Event) (fd : Nat) :
    (n.deliver (s.parcels e)).outboxAt fd
      = (n.outboxAt fd).map (· ++ (s.copiesOf e).filter (·.call.fd = fd)) := by
  cases hc : n.conns fd with
  | none => simp [outboxAt, deliver, hc]
  | some c =>
    rw [outboxAt_eq (deliver_conns hc _), outboxAt_eq hc, Conn.outbox, Conn.push, outbox_take,
      filterMap_parcels]
    rfl

end Network

namespace Server

theorem mem_publishCalls {s : Server} {uninit : Nat → Nat} {pkt : Packet} {n : Nat} {ids : List Str}
    {c : Call} (h : c ∈ s.publishCalls uninit pkt n ids) :
    s.link c.id = some (true, c.fd) ∧ c.pkt = pkt := by
  induction ids generalizing n with
  | nil => cases h
  | cons id ids ih =>
    rw [publishCalls] at h
    split at h
    next fd hlink =>
      rcases List.mem_cons.mp h with rfl | h
      · exact ⟨hlink, rfl⟩
      · exact ih h
    next => exact ih h

theorem mem_flushCalls {id : Str} {fd : Nat} {uninit : Nat → Nat} {n : Nat} {sfQueue : List Packet}
    {c : Call} (h : c ∈ flushCalls id fd uninit n sfQueue) : c.id = id ∧ c.fd = fd := by
  induction sfQueue generalizing n with
  | nil => cases h
  | cons pkt sfQueue ih =>
    rw [flushCalls] at h
    rcases List.mem_cons.mp h with rfl | h
    · exact ⟨rfl, rfl⟩
    · exact ih h

theorem isConnected_iff {s : Server} {id : Str} :
    s.isConnected id = true ↔ ∃ fd, s.link id = some (true, fd) := by
  rw [isConnected, Option.any_eq_true]
  constructor
  · rintro ⟨⟨conn, fd⟩, hlink, rfl⟩
    exact ⟨fd, hlink⟩
  · rintro ⟨fd, hlink⟩
    exact ⟨(true, fd), hlink, rfl⟩

theorem Registers.not_linked {s s' : Server} {fd : Nat} {id : Str} (h : Registers s s' fd id)
    (i : Nat) : s.link id ≠ some (true, i) := by
  intro hlink
  obtain ⟨cl, hcl, hconn, -⟩ := History.link_eq_some_iff.mp hlink
  rw [h.idle cl hcl] at hconn
  cases hconn

theorem Registers.linked {s s' : Server} {fd : Nat} {id : Str} (h : Registers s s' fd id) :
    s'.link id = some (true, fd) := by
  rw [h.link, Function.update_self]

theorem link_of_mem_calls {s s' : Server} {e : Event} {sent : List Send} {c : Call}
    (h : s.handle e = .ok (s', sent)) (hc : c ∈ s.calls e) : s'.link c.id = some (true, c.fd) := by
  cases e with
  | stdin | recv => cases hc
  | udp ip port bytes uninit =>
    rw [(udpBranch_registry h).link]
    exact (mem_publishCalls hc).1
  | accept fd bytes uninit =>
    simp only [calls] at hc
    split at hc
    next id hacc =>
      obtain ⟨rfl, rfl⟩ := mem_flushCalls hc
      exact ((acceptBranch_cases h).registers hacc).linked
    next => cases hc

theorem sfPackets_copiesOf {s : Server} {e : Event} {id : Str} (sf : Bool)
    (h : ∀ c ∈ s.calls e, c.id = id → s.sfOf e c = sf) :
    Network.sfPackets id (s.copiesOf e) = if sf then s.handed id e else [] := by
  have hfilter : (s.calls e).filter (fun c => c.id = id ∧ s.sfOf e c = true)
      = (s.calls e).filter (fun c => c.id = id ∧ sf = true) := by
    refine List.filter_congr fun c hc => ?_
    by_cases hid : c.id = id
    · simp [hid, h c hc hid]
    · simp [hid]
  have hmap : Network.sfPackets id (s.copiesOf e)
      = ((s.calls e).filter (fun c => c.id = id ∧ s.sfOf e c = true)).map (·.pkt) := by
    rw [Network.sfPackets, copiesOf, List.filter_map, List.map_map]
    rfl
  rw [hmap, hfilter]
  cases sf <;> simp [handed]

theorem mem_topicToClients_of_entry {s : Server} (hidx : s.Indexed) {id topic : Str} {sf : Bool}
    (h : s.entry id topic = some sf) : id ∈ s.topicToClients topic := by
  obtain ⟨topics, hsubs, htopic⟩ := Option.bind_eq_some_iff.mp h
  exact (hidx.agree topic id).mpr ⟨topics, hsubs, by simp [htopic]⟩

theorem Idle.queueOf {s : Server} (hidle : s.Idle) {id : Str} (h : s.isConnected id = true) :
    s.queueOf id = [] := by
  cases hcl : s.clients id with
  | none => simp [isConnected, link, hcl] at h
  | some cl =>
    rw [isConnected_of_clients hcl] at h
    rw [queueOf_of_clients hcl]
    exact hidle id cl hcl h

theorem handed_udp {s : Server} (hidx : s.Indexed) (ip : Word32) (port : Word16)
    (bytes : List Byte) (uninit : Nat → Nat) (id : Str) :
    s.handed id (.udp ip port bytes uninit) =
      if id ∈ s.topicToClients (Packet.ofDatagram ip port bytes).topicStr ∧ s.isConnected id = true
      then [Packet.ofDatagram ip port bytes] else [] :=
  publishCalls_handed s uninit _ 0 (hidx.nodup _) id

theorem sfPackets_publish {s : Server} (hidx : s.Indexed) (ip : Word32) (port : Word16)
    (bytes : List Byte) (uninit : Nat → Nat) (id : Str) :
    Network.sfPackets id (s.copiesOf (.udp ip port bytes uninit)) =
      if s.isConnected id = true then s.dueSf id (.udp ip port bytes uninit) else [] := by
  set pkt := Packet.ofDatagram ip port bytes
  have hsf : ∀ c ∈ s.calls (.udp ip port bytes uninit), c.id = id →
      s.sfOf (.udp ip port bytes uninit) c = decide (s.entry id pkt.topicStr = some true) := by
    rintro c hc rfl
    simp only [sfOf, (mem_publishCalls hc).2, pkt]
  rw [sfPackets_copiesOf _ hsf, handed_udp hidx]
  by_cases hentry : s.entry id pkt.topicStr = some true
  · simp [hentry, dueSf, pkt, mem_topicToClients_of_entry hidx hentry]
  · simp [hentry, dueSf, pkt]

/-- The balance of a turn, for the packets published with SF on alone. -/
theorem sf_balance {s s' : Server} {e : Event} {sent : List Send} (hidx : s.Indexed)
    (hidle : s.Idle) (h : s.handle e = .ok (s', sent)) (id : Str) :
    Network.sfPackets id (s.copiesOf e) ++ s'.queueOf id = s.queueOf id ++ s.dueSf id e := by
  have hturn := handed_append_queueOf hidx hidle h id
  cases e with
  | stdin | accept | recv =>
    rw [sfPackets_copiesOf true fun _ _ _ => rfl]
    exact hturn
  | udp ip port bytes uninit =>
    rw [sfPackets_publish hidx]
    cases hconn : s.isConnected id with
    | true =>
      have hconn' : s'.isConnected id = true := by
        rw [(udpBranch_registry h).isConnected, hconn]
      simp [hidle.queueOf hconn, (hidle.handle hidx h).queueOf hconn']
    | false =>
      have hdue : s.due id (.udp ip port bytes uninit) = s.dueSf id (.udp ip port bytes uninit) := by
        simp only [due, dueSf, hconn, Bool.false_eq_true, false_or]
        by_cases hentry : s.entry id (Packet.ofDatagram ip port bytes).topicStr = some true
        · simp [hentry, mem_topicToClients_of_entry hidx hentry]
        · simp [hentry]
      simpa [hconn, handed_udp hidx, hdue] using hturn

end Server

namespace Network

/-! ## One client -/

structure Dialled (id : Str) (c : Conn) : Prop where
  type : msgType (received c.hello.bytes) = idMsg
  id_eq : c.id = id
  outbox : c.outbox.getD [] = []

/-- Whatever is open belongs to the client, and it is what the client is registered with. -/
structure Sole (id : Str) (n : Network) : Prop where
  indexed : n.server.Indexed
  idle : n.server.Idle
  backlog : ∀ c ∈ n.backlog, Dialled id c
  linked : ∀ i ∈ n.server.readFds, n.server.link id = some (true, i)
  mapped : ∀ i ∈ n.server.readFds, n.server.fdToId i = some id
  conns : ∀ i ∈ n.server.readFds, ∃ c, n.conns i = some c ∧ c.id = id
  opened : ∀ i, n.server.link id = some (true, i) → i ∈ n.server.readFds

theorem Sole.start (id : Str) : Sole id start where
  indexed := .init
  idle _ _ h := by cases h
  backlog := by simp [Network.start]
  linked := by simp [Network.start, Server.init]
  mapped := by simp [Network.start, Server.init]
  conns := by simp [Network.start, Server.init]
  opened i h := by simp [Network.start, Server.init, Server.link] at h

theorem Sole.dialled {id : Str} {n : Network} {c : Conn} {backlog : List Conn} (hsole : Sole id n)
    (h : n.backlog = c :: backlog) : Dialled id c := hsole.backlog c (h ▸ List.mem_cons_self)

theorem Sole.idOf {id : Str} {n : Network} (hsole : Sole id n) {i : Nat}
    (hi : i ∈ n.server.readFds) : n.server.idOf i = id :=
  Server.idOf_of_fdToId (hsole.mapped i hi)

theorem Sole.setConn {id : Str} {n : Network} (hsole : Sole id n) {e : End} {c c' : Conn}
    (hc : n.conn? e = some c) (hhello : c'.hello = c.hello)
    (houtbox : c.outbox.getD [] = [] → c'.outbox.getD [] = []) : Sole id (n.setConn c' e) := by
  have hid : c'.id = c.id := by rw [Conn.id, Conn.id, hhello]
  cases e with
  | waiting k =>
    have hmem : c ∈ n.backlog := List.mem_of_getElem? hc
    refine { hsole with backlog := fun x hx => ?_ }
    rcases List.mem_or_eq_of_mem_set hx with hx | rfl
    · exact hsole.backlog x hx
    · obtain ⟨htype, heq, hempty⟩ := hsole.backlog c hmem
      exact ⟨hhello ▸ htype, hid.trans heq, houtbox hempty⟩
  | accepted i =>
    obtain ⟨hi, hc⟩ := conn?_accepted hc
    refine { hsole with conns := fun j hj => ?_ }
    obtain ⟨c₀, hc₀, heq⟩ := hsole.conns j hj
    by_cases hji : j = i
    · subst hji
      obtain rfl := Option.some.inj (hc.symm.trans hc₀)
      exact ⟨c', Function.update_self _ _ _, hid.trans heq⟩
    · exact ⟨c₀, (Function.update_of_ne hji _ _).trans hc₀, heq⟩

/-- What a turn does that leaves every connection with its client. -/
structure SameEnds (n n' : Network) : Prop where
  backlog : ∀ c ∈ n'.backlog, c ∈ n.backlog
  conns : ∀ i ∈ n.server.readFds, ∀ c, n.conns i = some c →
    ∃ c', n'.conns i = some c' ∧ c'.id = c.id

theorem SameEnds.deliver {n n₁ : Network} (h : SameEnds n n₁) (parcels : List Parcel) :
    SameEnds n (n₁.deliver parcels) where
  backlog := h.backlog
  conns i hi c hc := by
    obtain ⟨c', hc', heq⟩ := h.conns i hi c hc
    exact ⟨_, deliver_conns hc' parcels, heq⟩

theorem Sole.of_sameEnds {id : Str} {n n' : Network} (hsole : Sole id n)
    (hidx : n'.server.Indexed) (hidle : n'.server.Idle) (hends : SameEnds n n')
    (hfds : n'.server.readFds = n.server.readFds) (hlink : n'.server.link id = n.server.link id)
    (hmap : ∀ i ∈ n.server.readFds, n'.server.fdToId i = n.server.fdToId i) : Sole id n' where
  indexed := hidx
  idle := hidle
  backlog c hc := hsole.backlog c (hends.backlog c hc)
  linked i hi := by
    rw [hlink]
    exact hsole.linked i (hfds ▸ hi)
  mapped i hi := by
    rw [hmap i (hfds ▸ hi)]
    exact hsole.mapped i (hfds ▸ hi)
  conns i hi := by
    obtain ⟨c, hc, heq⟩ := hsole.conns i (hfds ▸ hi)
    obtain ⟨c', hc', heq'⟩ := hends.conns i (hfds ▸ hi) c hc
    exact ⟨c', hc', heq'.trans heq⟩
  opened i hi := by
    rw [hfds]
    exact hsole.opened i (hlink ▸ hi)

theorem Sole.hungUp {id : Str} {n n' : Network} {i : Nat} {sent : List Send} (hsole : Sole id n)
    (hidx : n'.server.Indexed) (hidle : n'.server.Idle) (hends : SameEnds n n')
    (hi : i ∈ n.server.readFds) (h : n.server.Handles i [] n'.server sent) : Sole id n' := by
  obtain ⟨cl, hcl, hfds, -, hlink⟩ := h.close
  rw [hsole.idOf hi] at hlink
  have hnone : ∀ j, j ∉ n'.server.readFds := by
    intro j hj
    rw [hfds, Finset.mem_erase] at hj
    have := (hsole.linked i hi).symm.trans (hsole.linked j hj.2)
    exact hj.1 (by simpa using this.symm)
  refine ⟨hidx, hidle, fun c hc => hsole.backlog c (hends.backlog c hc), ?_, ?_, ?_, ?_⟩
  · exact fun j hj => absurd hj (hnone j)
  · exact fun j hj => absurd hj (hnone j)
  · exact fun j hj => absurd hj (hnone j)
  · intro j hj
    rw [hlink, Function.update_self] at hj
    cases hj

theorem Sole.registers {id : Str} {n n' : Network} {fd : Nat} (hsole : Sole id n)
    (hidx : n'.server.Indexed) (hidle : n'.server.Idle) (hbacklog : ∀ c ∈ n'.backlog, c ∈ n.backlog)
    (hconn : ∃ c, n'.conns fd = some c ∧ c.id = id)
    (h : n.server.Registers n'.server fd id) : Sole id n' := by
  have hnone : ∀ j, j ∉ n.server.readFds := fun j hj => h.not_linked j (hsole.linked j hj)
  have hfds : ∀ j, j ∈ n'.server.readFds ↔ j = fd := by
    intro j
    rw [h.readFds, Finset.mem_insert]
    exact or_iff_left (hnone j)
  refine ⟨hidx, hidle, fun c hc => hsole.backlog c (hbacklog c hc), ?_, ?_, ?_, ?_⟩
  · intro j hj
    obtain rfl := (hfds j).mp hj
    exact h.linked
  · intro j hj
    obtain rfl := (hfds j).mp hj
    rw [h.fdToId, Function.update_self]
  · intro j hj
    obtain rfl := (hfds j).mp hj
    exact hconn
  · intro j hj
    rw [h.linked] at hj
    rw [hfds]
    simpa using hj.symm

theorem Finds.sameEnds {n n₁ : Network} {fd i : Nat} {uninit : Nat → Nat} {e : Event}
    (h : Finds n fd uninit i e n₁) (hoffer : n.server.Offers e) : SameEnds n n₁ := by
  cases h with
  | stdin => exact ⟨fun _ hc => hc, fun _ _ c hc => ⟨c, hc, rfl⟩⟩
  | udp => exact ⟨fun _ hc => hc, fun _ _ c hc => ⟨c, hc, rfl⟩⟩
  | accept hbacklog =>
    refine ⟨fun c hc => hbacklog ▸ List.mem_cons_of_mem _ hc, fun j hj c hc => ⟨c, ?_, rfl⟩⟩
    have hne : j ≠ fd := fun heq => hoffer.1.2.1 (heq ▸ hj)
    exact (Function.update_of_ne hne _ _).trans hc
  | @recv i c chunk inbox _ _ hconn =>
    refine ⟨fun _ hc => hc, fun j _ c' hc' => ?_⟩
    by_cases hji : j = i
    · subst hji
      obtain rfl := Option.some.inj ((conn?_accepted hconn).2.symm.trans hc')
      exact ⟨{ c with inbox := inbox }, Function.update_self _ _ _, rfl⟩
    · exact ⟨c', (Function.update_of_ne hji _ _).trans hc', rfl⟩
  | closed => exact ⟨fun _ hc => hc, fun _ _ c hc => ⟨c, hc, rfl⟩⟩

theorem Dialled.accepted {id : Str} {c : Conn} (hc : Dialled id c) (n : Network) :
    n.server.accepted c.hello.bytes = some id ∨ n.server.accepted c.hello.bytes = none := by
  have hid : payloadStr (received c.hello.bytes) = id := hc.id_eq
  rw [Server.accepted, if_pos hc.type, hid]
  split
  · exact .inl rfl
  · exact .inr rfl

theorem refused_readFds {s s' : Server} {fd : Nat} {bytes : List Byte} {sent : List Send}
    (h : s.Accepts fd bytes s' sent) (htype : msgType (received bytes) = idMsg)
    (hacc : s.accepted bytes = none) (hfd : fd ∉ s.readFds) : s'.readFds = s.readFds := by
  cases h with
  | silent hid => exact absurd htype hid
  | duplicate => exact Finset.erase_insert hfd
  | returning hid hcl hconn => simp [Server.accepted, hid, hcl, hconn] at hacc
  | fresh hid hcl => simp [Server.accepted, hid, hcl] at hacc

theorem Sole.serve {id : Str} {n n₁ : Network} {fd i : Nat} {uninit : Nat → Nat}
    {late : Nat → Bool} {e : Event} {server : Server} {sent : List Send} (hsole : Sole id n)
    (h : n.Serves fd uninit late i e n₁ server sent) (ready : List Nat) :
    Sole id (n.after n₁ e server ready) := by
  have hfinds := h.finds
  obtain ⟨-, -, hoffer, hok, -⟩ := h
  have hidx := hsole.indexed.handle hok
  have hidle := hsole.idle.handle hsole.indexed hok
  obtain ⟨hbacklog, hconns⟩ := (hfinds.sameEnds hoffer).deliver (n.server.parcels e)
  cases hfinds with
  | stdin =>
    have hsame := Server.stdinBranch_registry hok
    exact hsole.of_sameEnds hidx hidle ⟨hbacklog, hconns⟩ hsame.readFds (hsame.link id)
      fun j _ => congrFun hsame.fdToId j
  | udp =>
    have hsame := Server.udpBranch_registry hok
    exact hsole.of_sameEnds hidx hidle ⟨hbacklog, hconns⟩ hsame.readFds (hsame.link id)
      fun j _ => congrFun hsame.fdToId j
  | @accept c backlog hhead =>
    have hc := hsole.dialled hhead
    have haccepts := Server.acceptBranch_cases hok
    rcases hc.accepted n with hacc | hacc
    · exact hsole.registers hidx hidle hbacklog
        ⟨_, deliver_conns (Function.update_self _ _ _) _, hc.id_eq⟩ (haccepts.registers hacc)
    · obtain ⟨hmap, hlink, -⟩ := haccepts.rejected hacc
      exact hsole.of_sameEnds hidx hidle ⟨hbacklog, hconns⟩
        (refused_readFds haccepts hc.type hacc hoffer.1.2.1) (congrFun hlink id)
        fun j _ => congrFun hmap j
  | @recv i c chunk inbox =>
    obtain ⟨hfds, hlink, hmap⟩ := (Server.recvBranch_cases hok).message chunk.ne_nil
    refine hsole.of_sameEnds hidx hidle ⟨hbacklog, hconns⟩ hfds (congrFun hlink id) fun j hj => ?_
    rcases hmap with hmap | hmap
    · exact congrFun hmap j
    · have hi := hsole.mapped i hoffer.1
      change server.fdToId j = n.server.fdToId j
      rw [hmap, Server.idOf_of_fdToId hi, ← hi, Function.update_eq_self]
  | closed =>
    exact hsole.hungUp hidx hidle ⟨hbacklog, hconns⟩ hoffer.1 (Server.recvBranch_cases hok)

theorem Sole.step {id : Str} {n n' : Network} {a : Act} (hsole : Sole id n)
    (h : OneClient id n a n') (halive : n'.alive = true) : Sole id n' := by
  obtain ⟨hstep, hdial⟩ := h
  have hact := (step_alive hstep).2
  cases a with
  | type | publish =>
    cases hact
    exact { hsole with }
  | dial hello =>
    cases hact
    obtain ⟨htype, heq⟩ := hdial hello rfl
    refine { hsole with backlog := fun c hc => ?_ }
    rcases List.mem_append.mp hc with hc | hc
    · exact hsole.backlog c hc
    · obtain rfl := List.mem_singleton.mp hc
      exact ⟨htype, heq, rfl⟩
  | say e chunk =>
    obtain ⟨c, hc, h⟩ := Option.bind_eq_some_iff.mp hact
    split at h
    next => cases h
    next =>
      cases h
      exact hsole.setConn hc rfl fun hempty => hempty
  | close e crossed =>
    obtain ⟨c, hc, h⟩ := Option.bind_eq_some_iff.mp hact
    split at h
    next => cases h
    next =>
      cases h
      exact hsole.setConn hc rfl fun _ => by simp
  | read i =>
    obtain ⟨c, hc, h⟩ := Option.bind_eq_some_iff.mp hact
    split at h
    next copy unread hfar =>
      cases h
      have hset : Sole id (n.setConn { c with far := .reading unread } (.accepted i)) :=
        hsole.setConn hc rfl fun hempty => by
          rw [outbox_of_cons hfar, Option.getD_some, List.append_eq_nil_iff] at hempty
          exact hempty.2
      exact { hset with }
    next => cases h
  | select =>
    simp only [act] at hact
    split at hact
    next =>
      cases hact
      exact { hsole with }
    next => cases hact
  | serve fd uninit late =>
    obtain ⟨i, ready, e, n₁, server, sent, -, hserves, rfl⟩ := step_serves hstep halive
    exact hsole.serve hserves ready

/-! ## Packets on their way -/

theorem inFlight_of_link {n : Network} {id : Str} {fd : Nat}
    (h : n.server.link id = some (true, fd)) :
    n.inFlight id = sfPackets id ((n.outboxAt fd).getD []) := by
  rw [inFlight, h]

theorem inFlight_of_off {n : Network} {id : Str}
    (h : ∀ fd, n.server.link id ≠ some (true, fd)) : n.inFlight id = [] := by
  rw [inFlight]
  split
  next fd hlink => exact absurd hlink (h fd)
  next => rfl

theorem inFlight_congr {n n' : Network} {id : Str} (hlink : n'.server.link id = n.server.link id)
    (hout : ∀ fd, n.server.link id = some (true, fd) →
      (n'.outboxAt fd).getD [] = (n.outboxAt fd).getD []) : n'.inFlight id = n.inFlight id := by
  by_cases hon : ∃ fd, n.server.link id = some (true, fd)
  · obtain ⟨fd, hfd⟩ := hon
    rw [inFlight_of_link hfd, inFlight_of_link (hlink.trans hfd), hout fd hfd]
  · have hoff : ∀ fd, n.server.link id ≠ some (true, fd) := not_exists.mp hon
    rw [inFlight_of_off hoff, inFlight_of_off fun fd => hlink ▸ hoff fd]

theorem inFlight_deliver_reached {n : Network} {id : Str} {s : Server} {e : Event}
    (hto : ∀ c ∈ s.copiesOf e, c.call.id = id → n.server.link id = some (true, c.call.fd))
    (h : n.Reached id) :
    (n.deliver (s.parcels e)).inFlight id = n.inFlight id ++ sfPackets id (s.copiesOf e) := by
  obtain ⟨fd, hlink, hout⟩ := h
  obtain ⟨cs, hcs⟩ := Option.ne_none_iff_exists'.mp hout
  have hfd : ∀ c ∈ s.copiesOf e, c.call.id = id → c.call.fd = fd := by
    intro c hc hid
    have := (hto c hc hid).symm.trans hlink
    simpa using this
  have hlink' : (n.deliver (s.parcels e)).server.link id = some (true, fd) := hlink
  rw [inFlight_of_link hlink', inFlight_of_link hlink, outboxAt_deliver, hcs, Option.map_some,
    Option.getD_some, Option.getD_some, sfPackets_append, sfPackets_filter hfd]

theorem inFlight_of_not_reached {n : Network} {id : Str} (h : ¬ n.Reached id) :
    n.inFlight id = [] := by
  by_cases hon : ∃ fd, n.server.link id = some (true, fd)
  · obtain ⟨fd, hlink⟩ := hon
    have hnone : n.outboxAt fd = none := by
      by_contra hout
      exact h ⟨fd, hlink, hout⟩
    rw [inFlight_of_link hlink, hnone, Option.getD_none, sfPackets_nil]
  · exact inFlight_of_off (not_exists.mp hon)

theorem reached_deliver {n : Network} {id : Str} {s : Server} {e : Event} :
    (n.deliver (s.parcels e)).Reached id ↔ n.Reached id := by
  simp only [Reached, outboxAt_deliver, ne_eq, Option.map_eq_none_iff]
  rfl

theorem Sole.carried {id : Str} {n n₁ : Network} {fd i : Nat} {uninit : Nat → Nat} {e : Event}
    {server : Server} {sent : List Send} (hsole : Sole id n) (hfinds : Finds n fd uninit i e n₁)
    (hoffer : n.server.Offers e) (hok : n.server.handle e = .ok (server, sent)) :
    ({ n₁ with server := server } : Network).inFlight id = n.inFlight id := by
  cases hfinds with
  | stdin => exact inFlight_congr ((Server.stdinBranch_registry hok).link id) fun _ _ => rfl
  | udp => exact inFlight_congr ((Server.udpBranch_registry hok).link id) fun _ _ => rfl
  | @accept c backlog hhead =>
    have hc := hsole.dialled hhead
    have haccepts := Server.acceptBranch_cases hok
    rcases hc.accepted n with hacc | hacc
    · have hreg := haccepts.registers hacc
      rw [inFlight_of_off hreg.not_linked, inFlight_of_link hreg.linked,
        outboxAt_eq (Function.update_self _ _ _),
        hc.outbox, sfPackets_nil]
    · refine inFlight_congr (congrFun (haccepts.rejected hacc).2.1 id) fun j hj => ?_
      have hne : j ≠ fd := fun heq => hoffer.1.2.1 (heq ▸ hsole.opened j hj)
      refine congrArg (·.getD []) (outboxAt_congr ?_)
      exact Function.update_of_ne hne _ _
  | @recv i c chunk inbox _ _ hconn =>
    have hlink := ((Server.recvBranch_cases hok).message chunk.ne_nil).2.1
    refine inFlight_congr (congrFun hlink id) fun j _ => ?_
    by_cases hji : j = i
    · subst hji
      rw [outboxAt_eq (conn?_accepted hconn).2, outboxAt_eq (Function.update_self _ _ _)]
      rfl
    · refine congrArg (·.getD []) (outboxAt_congr ?_)
      exact Function.update_of_ne hji _ _
  | @closed i c hit _ _ hconn _ hfar =>
    obtain ⟨cl, -, -, -, hlink⟩ := (Server.recvBranch_cases hok).close
    rw [hsole.idOf hoffer.1] at hlink
    have hoff : ∀ j, server.link id ≠ some (true, j) := by
      intro j hj
      rw [hlink, Function.update_self] at hj
      cases hj
    rw [inFlight_of_off hoff, inFlight_of_link (hsole.linked i hoffer.1),
      outboxAt_eq (conn?_accepted hconn).2, outbox_of_finished hfar, Option.getD_none, sfPackets_nil]

/-! ## What is kept -/

theorem reached_of_link {n : Network} {id : Str} {fd : Nat}
    (h : n.server.link id = some (true, fd)) : n.Reached id ↔ n.outboxAt fd ≠ none := by
  simp [Reached, h]

theorem carries_udp {id : Str} {n : Network} {d : Datagram} {datagrams : List Datagram}
    {ready : List Nat} (hready : n.ready = udpsockfd :: ready) (hds : n.datagrams = d :: datagrams)
    (fd : Nat) (uninit : Nat → Nat) (late : Nat → Bool) :
    Carries id n (.serve fd uninit late) ↔ ∀ fd, n.server.link id = some (true, fd) →
      n.server.entry id (Packet.ofDatagram d.ip d.port d.bytes).topicStr = some true →
      n.outboxAt fd ≠ none := by
  have hne : udpsockfd ≠ tcpsockfd := by decide
  simp [Carries, hready, hds, hne]

theorem carries_accept {id : Str} {n : Network} {c : Conn} {backlog : List Conn}
    {ready : List Nat} (hready : n.ready = tcpsockfd :: ready) (hcs : n.backlog = c :: backlog)
    (fd : Nat) (uninit : Nat → Nat) (late : Nat → Bool) :
    Carries id n (.serve fd uninit late) ↔ (n.server.accepted c.hello.bytes = some id → c.closed = true →
      n.server.queueOf id = []) := by
  have hne : tcpsockfd ≠ udpsockfd := by decide
  simp [Carries, hready, hcs, hne]

theorem carries_of_ne {id : Str} {n : Network} {i : Nat} {ready : List Nat}
    (hready : n.ready = i :: ready) (hudp : i ≠ udpsockfd) (htcp : i ≠ tcpsockfd) (fd : Nat)
    (uninit : Nat → Nat) (late : Nat → Bool) : Carries id n (.serve fd uninit late) := by
  simp [Carries, hready, hudp, htcp]

theorem Sole.carries_iff {id : Str} {n n₁ : Network} {fd i : Nat} {uninit : Nat → Nat}
    (late : Nat → Bool) {e : Event} {ready : List Nat} {server : Server} {sent : List Send}
    (hsole : Sole id n)
    (hready : n.ready = i :: ready) (hfinds : Finds n fd uninit i e n₁)
    (hok : n.server.handle e = .ok (server, sent)) :
    Carries id n (.serve fd uninit late) ↔ sfPackets id (n.server.copiesOf e) = [] ∨
      ({ n₁ with server := server } : Network).Reached id := by
  cases hfinds with
  | stdin =>
    exact iff_of_true (carries_of_ne hready (by decide) (by decide) _ _ _) (.inl rfl)
  | @udp d datagrams hds =>
    have hlink := (Server.udpBranch_registry hok).link id
    rw [carries_udp hready hds, Server.sfPackets_publish hsole.indexed]
    by_cases hon : ∃ j, n.server.link id = some (true, j)
    · obtain ⟨j, hj⟩ := hon
      have hconn := Server.isConnected_iff.mpr ⟨j, hj⟩
      rw [reached_of_link (hlink.trans hj)]
      change _ ↔ _ ∨ n.outboxAt j ≠ none
      simp only [hj, hconn, Server.dueSf, if_true, Option.some.injEq, Prod.mk.injEq, true_and,
        forall_eq']
      split <;> simp [*]
    · have hoff : ¬ n.server.isConnected id = true := mt Server.isConnected_iff.mp hon
      refine iff_of_true (fun j hj => absurd ⟨j, hj⟩ hon) (.inl ?_)
      simp [hoff]
  | @accept c backlog hhead =>
    have hc := hsole.dialled hhead
    have haccepts := Server.acceptBranch_cases hok
    rw [carries_accept hready hhead,
      Server.sfPackets_copiesOf true fun _ _ _ => rfl, if_pos rfl]
    rcases hc.accepted n with hacc | hacc
    · have hlink := (haccepts.registers hacc).linked
      rw [Server.handed_of_accepted hacc, if_pos rfl, reached_of_link hlink,
        outboxAt_eq (Function.update_self _ _ _), hacc, closed_iff]
      simp only [true_implies]
      tauto
    · refine iff_of_true (fun hacc' => ?_) (.inl ?_)
      · rw [hacc] at hacc'
        cases hacc'
      · rw [Server.handed, Server.calls_of_rejected hacc]
        rfl
  | recv hudp htcp => exact iff_of_true (carries_of_ne hready hudp htcp _ _ _) (.inl rfl)
  | closed hudp htcp => exact iff_of_true (carries_of_ne hready hudp htcp _ _ _) (.inl rfl)

/-- What was published with SF on was read, is on its way or is stored. -/
def Balanced (id : Str) (n : Network) : Prop :=
  sfPackets id (n.delivered id) ++ n.inFlight id ++ n.server.queueOf id = n.due id

/-- A turn that goes well keeps the balance exactly when it carries: what it hands to a closed
connection is in neither place. -/
theorem Sole.serve_balance {id : Str} {n n' : Network} {fd : Nat} {uninit : Nat → Nat}
    {late : Nat → Bool} (hsole : Sole id n) (hbalance : Balanced id n)
    (h : n.step (.serve fd uninit late) = some n') (halive : n'.alive = true) :
    Balanced id n' ↔ Carries id n (.serve fd uninit late) := by
  obtain ⟨i, ready, e, n₁, server, sent, hready, hserves, rfl⟩ := step_serves h halive
  have hfinds := hserves.finds
  obtain ⟨-, -, hoffer, hok, -⟩ := hserves
  have hcarried := hsole.carried hfinds hoffer hok
  have hturn := Server.sf_balance hsole.indexed hsole.idle hok id
  have hto : ∀ c ∈ n.server.copiesOf e, c.call.id = id →
      server.link id = some (true, c.call.fd) := by
    rintro c hc rfl
    obtain ⟨call, hcall, rfl⟩ := List.mem_map.mp hc
    exact Server.link_of_mem_calls hok hcall
  have hdelivered : n₁.delivered = n.delivered := by cases hfinds <;> rfl
  rw [hsole.carries_iff late hready hfinds hok]
  set m : Network := { n₁ with server := server }
  set copies := sfPackets id (n.server.copiesOf e)
  change sfPackets id (n₁.delivered id) ++ (m.deliver (n.server.parcels e)).inFlight id ++
    server.queueOf id = n.due id ++ n.server.dueSf id e ↔ _
  rw [hdelivered, ← hbalance, List.append_assoc _ (n.server.queueOf id), ← hturn]
  by_cases hreached : m.Reached id
  · rw [inFlight_deliver_reached hto hreached, hcarried]
    simp [hreached, copies]
  · rw [inFlight_of_not_reached (mt reached_deliver.mp hreached), ← hcarried,
      inFlight_of_not_reached hreached]
    simp [hreached]

theorem Sole.inFlight_eq {id : Str} {n : Network} {i : Nat} {c : Conn} (hsole : Sole id n)
    (hc : n.conn? (.accepted i) = some c) : n.inFlight id = sfPackets id (c.outbox.getD []) := by
  obtain ⟨hi, hc⟩ := conn?_accepted hc
  rw [inFlight_of_link (hsole.linked i hi), outboxAt_eq hc]

theorem Sole.inFlight_setConn {id : Str} {n : Network} {i : Nat} {c : Conn} (hsole : Sole id n)
    (hc : n.conn? (.accepted i) = some c) (c' : Conn) :
    (n.setConn c' (.accepted i)).inFlight id = sfPackets id (c'.outbox.getD []) := by
  have hlink : (n.setConn c' (.accepted i)).server.link id = some (true, i) :=
    hsole.linked i (conn?_accepted hc).1
  rw [inFlight_of_link hlink, outboxAt_eq (Function.update_self _ _ _)]

theorem Sole.say_balanced {id : Str} {n : Network} {e : End} {c : Conn} (hsole : Sole id n)
    (hbalance : Balanced id n) (hc : n.conn? e = some c) (chunk : Chunk) :
    Balanced id (n.setConn (c.say chunk) e) := by
  cases e with
  | waiting k => exact hbalance
  | accepted i =>
    have hafter : (n.setConn (c.say chunk) (.accepted i)).inFlight id = n.inFlight id :=
      (hsole.inFlight_setConn hc _).trans (hsole.inFlight_eq hc).symm
    rw [Balanced, hafter]
    exact hbalance

theorem Sole.close_balanced_iff {id : Str} {n : Network} {e : End} {c : Conn} (hsole : Sole id n)
    (hbalance : Balanced id n) (hc : n.conn? e = some c) (crossed : Bool) :
    Balanced id (n.setConn (c.close crossed) e) ↔ Carries id n (.close e crossed) := by
  cases e with
  | waiting k => exact iff_of_true hbalance trivial
  | accepted i =>
    have hlink := hsole.linked i (conn?_accepted hc).1
    rw [Balanced, hsole.inFlight_setConn hc, outbox_close, Carries, imp_iff_right hlink]
    change sfPackets id (n.delivered id) ++ [] ++ n.server.queueOf id = n.due id ↔ _
    rw [← hbalance]
    simp

theorem Sole.read_balanced {id : Str} {n : Network} {i : Nat} {c : Conn} {copy : Option Copy}
    {unread : List (Option Copy)} (hsole : Sole id n) (hbalance : Balanced id n)
    (hc : n.conn? (.accepted i) = some c) (hfar : c.far = .reading (copy :: unread)) :
    Balanced id { n.setConn { c with far := .reading unread } (.accepted i) with
      delivered := Function.update n.delivered c.id (n.delivered c.id ++ copy.toList) } := by
  obtain ⟨hi, hconn⟩ := conn?_accepted hc
  obtain ⟨c₀, hc₀, hid⟩ := hsole.conns i hi
  obtain rfl := Option.some.inj (hconn.symm.trans hc₀)
  have hafter : (n.setConn { c with far := .reading unread } (.accepted i)).inFlight id
      = sfPackets id unread.reduceOption := hsole.inFlight_setConn hc _
  have hbefore := hsole.inFlight_eq hc
  rw [outbox_of_cons hfar, Option.getD_some, sfPackets_append] at hbefore
  have hread : sfPackets id
      (Function.update n.delivered c.id (n.delivered c.id ++ copy.toList) id)
        = sfPackets id (n.delivered id) ++ sfPackets id copy.toList := by
    rw [hid, Function.update_self, sfPackets_append]
  calc
    sfPackets id (Function.update n.delivered c.id (n.delivered c.id ++ copy.toList) id) ++
        (n.setConn { c with far := .reading unread } (.accepted i)).inFlight id ++
          n.server.queueOf id
      = sfPackets id (n.delivered id) ++ n.inFlight id ++ n.server.queueOf id := by
        rw [hread, hafter, hbefore, List.append_assoc (sfPackets _ _)]
    _ = n.due id := hbalance

/-- The steps outside of the server keep the balance, but for a close that leaves packets on their
way. -/
theorem Sole.outside_balance {id : Str} {n n' : Network} {a : Act} (hsole : Sole id n)
    (hbalance : Balanced id n) (hserve : ∀ fd uninit late, a ≠ .serve fd uninit late)
    (h : n.step a = some n') : Balanced id n' ↔ Carries id n a := by
  have hact := (step_alive h).2
  cases a with
  | type | publish | dial =>
    cases hact
    exact iff_of_true hbalance trivial
  | say e chunk =>
    obtain ⟨c, hc, h⟩ := Option.bind_eq_some_iff.mp hact
    split at h
    next => cases h
    next =>
      cases h
      exact iff_of_true (hsole.say_balanced hbalance hc chunk) trivial
  | close e crossed =>
    obtain ⟨c, hc, h⟩ := Option.bind_eq_some_iff.mp hact
    split at h
    next => cases h
    next =>
      cases h
      exact hsole.close_balanced_iff hbalance hc crossed
  | read i =>
    obtain ⟨c, hc, h⟩ := Option.bind_eq_some_iff.mp hact
    split at h
    next copy unread hfar =>
      cases h
      exact iff_of_true (hsole.read_balanced hbalance hc hfar) trivial
    next => cases h
  | select =>
    simp only [act] at hact
    split at hact
    next =>
      cases hact
      exact iff_of_true hbalance trivial
    next => cases hact
  | serve fd uninit late => exact absurd rfl (hserve fd uninit late)

theorem Sole.balance_iff {id : Str} {n n' : Network} {a : Act} (hsole : Sole id n)
    (hbalance : Balanced id n) (h : n.step a = some n') (halive : n'.alive = true) :
    Balanced id n' ↔ Carries id n a := by
  by_cases hserve : ∃ fd uninit late, a = .serve fd uninit late
  · obtain ⟨fd, uninit, late, rfl⟩ := hserve
    exact hsole.serve_balance hbalance h halive
  · refine hsole.outside_balance hbalance (fun fd uninit late ha => ?_) h
    exact hserve ⟨fd, uninit, late, ha⟩

theorem Sole.lossless {id : Str} {n : Network} (hsole : Sole id n) (halive : n.alive = true)
    (hbalance : Balanced id n) : Lossless id n where
  alive := halive
  balance := hbalance
  stored hgone := by
    rwa [Balanced, inFlight_of_not_reached hgone, List.append_nil] at hbalance
  complete i c hc hread := by
    have hconn := Server.isConnected_iff.mpr ⟨i, hsole.linked i (conn?_accepted hc).1⟩
    rwa [Balanced, hsole.inFlight_eq hc, hread, Option.getD_some, sfPackets_nil,
      hsole.idle.queueOf hconn,
      List.append_nil, List.append_nil] at hbalance

/-- What holds of one client as long as every step is kept. -/
structure Tracked (id : Str) (n : Network) : Prop where
  sole : Sole id n
  lossless : Lossless id n

theorem Tracked.start (id : Str) : Tracked id start := ⟨.start id, (Sole.start id).lossless rfl rfl⟩

theorem Tracked.step {id : Str} {n n' : Network} {a : Act} (h : Tracked id n) (hkept : Kept id n a)
    (hstep : OneClient id n a n') : Tracked id n' := by
  have halive := (alive_iff h.sole.indexed hstep.1).mpr hkept.1
  have hbalance := (h.sole.balance_iff h.lossless.balance hstep.1 halive).mpr hkept.2
  exact ⟨h.sole.step hstep halive, (h.sole.step hstep halive).lossless halive hbalance⟩

/-- A subscribes to "t" with SF on, gets the answer and leaves while there is a datagram on "t": one
`select` returns both. -/
def crossing : List Act :=
  [.dial ⟨idRequest [65], List.cons_ne_nil _ _, Nat.le_of_ble_eq_true rfl⟩, .select,
    .serve 5 (fun _ => 0) fun _ => false,
    .say (.accepted 5) ⟨subsRequest subMsg [116] true, List.cons_ne_nil _ _,
      Nat.le_of_ble_eq_true rfl⟩, .select, .serve 5 (fun _ => 0) fun _ => false, .read 5,
    .close (.accepted 5) false,
    .publish ⟨1, 2, datagram (zeroPad topicLen [116]) 3 [], Nat.le_of_ble_eq_true rfl⟩, .select]

theorem run_of_play {es : List Act} {n : Network} (hplay : es.foldlM Network.step start = some n)
    (hdial : ∀ hello, Act.dial hello ∈ es → hello.bytes = idRequest [65]) :
    ∃ log, Run (OneClient [65]) start log n ∧ log.map Prod.snd = es := by
  obtain ⟨log, hrun, hlog⟩ := Run.of_foldlM (fun h => h) (.nil : Run Step start [] start) hplay
  rw [List.map_nil, List.nil_append] at hlog
  refine ⟨log, hrun.imp fun x hx n' hstep => ⟨hstep, fun hello ha => ?_⟩, hlog⟩
  have hmem : Act.dial hello ∈ es := by
    have := List.mem_map_of_mem (f := Prod.snd) hx
    rwa [ha, hlog] at this
  rw [hdial hello hmem]
  exact ⟨by decide, by decide⟩

end Network

end PCom.PubSub
