import PCom.PubSub.Topics

/-! Which packets each client was sent and which wait for it, over whole runs of the server. -/

namespace PCom.PubSub

open Lib

/-- A call of a client's `send_packet`. -/
structure Call where
  id : Str
  fd : Nat
  pkt : Packet
  uninit : Nat

def Call.sends (c : Call) : List Send :=
  [⟨c.fd, c.pkt.header c.uninit⟩, ⟨c.fd, c.pkt.body c.uninit⟩]

namespace Server

def queueOf (s : Server) (id : Str) : List Packet := ((s.clients id).map (·.sfQueue)).getD []

def publishCalls (s : Server) (uninit : Nat → Nat) (pkt : Packet) : Nat → List Str → List Call
  | _, [] => []
  | n, id :: ids =>
    match s.link id with
    | some (true, fd) => ⟨id, fd, pkt, uninit n⟩ :: s.publishCalls uninit pkt (n + 1) ids
    | _ => s.publishCalls uninit pkt (n + 1) ids

def flushCalls (id : Str) (fd : Nat) (uninit : Nat → Nat) : Nat → List Packet → List Call
  | _, [] => []
  | n, pkt :: sfQueue => ⟨id, fd, pkt, uninit n⟩ :: flushCalls id fd uninit (n + 1) sfQueue

def calls (s : Server) : Event → List Call
  | .udp ip port bytes uninit =>
    let pkt := Packet.ofDatagram ip port bytes
    s.publishCalls uninit pkt 0 (s.topicToClients pkt.topicStr)
  | .accept fd bytes uninit =>
    match s.accepted bytes with
    | some id => flushCalls id fd uninit 0 (s.queueOf id)
    | none => []
  | _ => []

def handed (s : Server) (id : Str) (e : Event) : List Packet :=
  ((s.calls e).filter (·.id = id)).map (·.pkt)

/-- What one turn publishes for a client: a packet on a topic the client is listed for, if the
client is connected or has SF on for the topic. -/
def due (s : Server) (id : Str) : Event → List Packet
  | .udp ip port bytes _ =>
    let pkt := Packet.ofDatagram ip port bytes
    if id ∈ s.topicToClients pkt.topicStr ∧
        (s.isConnected id = true ∨ s.entry id pkt.topicStr = some true) then [pkt] else []
  | _ => []

/-! ## The calls are what is sent -/

/-- The calls, and besides at most messages without a packet. -/
def SentAs (calls : List Call) (sent : List Send) : Prop :=
  ∃ replies, sent = calls.flatMap Call.sends ++ replies ∧
    ∀ x ∈ replies, ∃ type, (type = exitMsg ∨ type = confMsg ∨ type = errMsg) ∧
      x.bytes = protoMsg type []

theorem publishCalls_sends (s : Server) (uninit : Nat → Nat) (pkt : Packet) (n : Nat)
    (ids : List Str) : (s.publishCalls uninit pkt n ids).flatMap Call.sends
      = (s.copies uninit n ids).flatMap
        (fun c => [⟨c.1, pkt.header c.2⟩, ⟨c.1, pkt.body c.2⟩]) := by
  induction ids generalizing n with
  | nil => rfl
  | cons id ids ih =>
    rw [publishCalls, copies]
    cases hlink : s.link id with
    | none => exact ih _
    | some l =>
      obtain ⟨conn, fd⟩ := l
      cases conn with
      | false => exact ih _
      | true => exact congrArg (_ :: _ :: ·) (ih _)

theorem sendQueue_sends {s : Server} {fd : Nat} {uninit : Nat → Nat} {n : Nat}
    {sfQueue : List Packet} {sent : List Send} (h : s.sendQueue fd uninit n sfQueue = .ok sent)
    (id : Str) : sent = (flushCalls id fd uninit n sfQueue).flatMap Call.sends := by
  induction sfQueue generalizing n sent with
  | nil =>
    cases h
    rfl
  | cons pkt sfQueue ih =>
    obtain ⟨sent₁, hsend, h⟩ := bind_ok h
    obtain ⟨rest, hrest, h⟩ := bind_ok h
    obtain ⟨rfl, -⟩ := sendPacket_ok hsend
    cases h
    rw [ih hrest]
    rfl

theorem sentAs_calls {calls : List Call} {sent : List Send}
    (h : sent = calls.flatMap Call.sends) : SentAs calls sent :=
  ⟨[], by simpa using h, List.forall_mem_nil _⟩

theorem sentAs_reply (i : Nat) {type : Byte}
    (h : type = exitMsg ∨ type = confMsg ∨ type = errMsg) :
    SentAs [] [⟨i, protoMsg type []⟩] := by
  refine ⟨[⟨i, protoMsg type []⟩], rfl, fun x hx => ⟨type, h, ?_⟩⟩
  rw [List.mem_singleton.mp hx]

theorem acceptBranch_sends {s s' : Server} {fd : Nat} {bytes : List Byte} {uninit : Nat → Nat}
    {sent : List Send} (h : s.acceptBranch fd bytes uninit = .ok (s', sent)) :
    SentAs (s.calls (.accept fd bytes uninit)) sent := by
  cases hacc : s.accepted bytes with
  | none =>
    have hcalls : s.calls (.accept fd bytes uninit) = [] := by simp [calls, hacc]
    rw [hcalls]
    cases acceptBranch_cases h with
    | silent => exact sentAs_calls rfl
    | duplicate => exact sentAs_reply fd (.inl rfl)
    | returning hid hcl hconn => simp [accepted, hid, hcl, hconn] at hacc
    | fresh hid hcl => simp [accepted, hid, hcl] at hacc
  | some id =>
    have hcalls : s.calls (.accept fd bytes uninit) = flushCalls id fd uninit 0 (s.queueOf id) := by
      simp [calls, hacc]
    rw [hcalls]
    simp only [acceptBranch] at h
    split at h
    next hid =>
      split at h
      next cl hcl =>
        split at h
        next hconn => simp [accepted, hid, hcl, hconn] at hacc
        next hconn =>
          obtain ⟨queue, hqueue, h⟩ := bind_ok h
          cases h
          obtain rfl : payloadStr (received bytes) = id := by
            simpa [accepted, hid, hcl, hconn] using hacc
          have hwait : s.queueOf (payloadStr (received bytes)) = cl.sfQueue := by
            simp [queueOf, hcl]
          exact sentAs_calls (hwait ▸ sendQueue_sends hqueue _)
      next hnone =>
        cases h
        obtain rfl : payloadStr (received bytes) = id := by
          simpa [accepted, hid, hnone] using hacc
        have hwait : s.queueOf (payloadStr (received bytes)) = [] := by simp [queueOf, hnone]
        rw [hwait]
        exact sentAs_calls rfl
    next hid => simp [accepted, hid] at hacc

theorem handle_sends {s s' : Server} {e : Event} {sent : List Send}
    (h : s.handle e = .ok (s', sent)) : SentAs (s.calls e) sent := by
  cases e with
  | stdin word =>
    simp only [handle, stdinBranch] at h
    split at h
    next => cases h
    next =>
      cases h
      exact sentAs_calls rfl
  | udp ip port bytes uninit =>
    refine sentAs_calls ?_
    rw [calls, publishCalls_sends]
    exact (publishTo_sent h).1
  | accept fd bytes uninit => exact acceptBranch_sends h
  | recv i bytes =>
    cases recvBranch_cases h with
    | ignored => exact sentAs_calls rfl
    | closed => exact sentAs_calls rfl
    | refused => exact sentAs_reply i (.inr (.inr rfl))
    | granted => exact sentAs_reply i (.inr (.inl rfl))

/-! ## One turn -/

theorem isConnected_of_clients {s : Server} {id : Str} {cl : Client}
    (h : s.clients id = some cl) : s.isConnected id = cl.connected := by
  simp [isConnected, link, h]

theorem SameRegistry.isConnected {s s' : Server} (h : SameRegistry s s') (id : Str) :
    s'.isConnected id = s.isConnected id := by
  rw [Server.isConnected, Server.isConnected, h.link]

theorem publishTo_clients {uninit : Nat → Nat} {pkt : Packet} {n : Nat} {ids : List Str}
    {s s' : Server} {sent : List Send} (h : publishTo uninit pkt n ids s = .ok (s', sent))
    (hnodup : ids.Nodup) (id : Str) :
    s'.clients id = if id ∈ ids ∧ s.isConnected id = false then
      (s.clients id).map (·.missed pkt) else s.clients id := by
  induction ids generalizing n s sent with
  | nil =>
    cases h
    simp
  | cons first ids ih =>
    obtain ⟨hnot, hnodup⟩ := List.nodup_cons.mp hnodup
    obtain ⟨cl, hcl, ⟨hconn, -, rest, hloop, -⟩ | ⟨hconn, hloop⟩⟩ := publishTo_cons h
    · rw [ih hloop hnodup]
      by_cases hid : id = first
      · subst hid
        simp [hnot, isConnected_of_clients hcl, hconn]
      · simp [hid]
    · have hsame := sameRegistry_setClient hcl (cl.missed_connected pkt) (cl.missed_fd pkt)
      rw [ih hloop hnodup, hsame.isConnected]
      by_cases hid : id = first
      · subst hid
        simp [hnot, isConnected_of_clients hcl, hconn, setClient, hcl]
      · simp [hid, setClient]

theorem publishCalls_handed (s : Server) (uninit : Nat → Nat) (pkt : Packet) (n : Nat)
    {ids : List Str} (hnodup : ids.Nodup) (id : Str) :
    ((s.publishCalls uninit pkt n ids).filter (·.id = id)).map (·.pkt)
      = if id ∈ ids ∧ s.isConnected id = true then [pkt] else [] := by
  induction ids generalizing n with
  | nil => simp [publishCalls]
  | cons first ids ih =>
    obtain ⟨hnot, hnodup⟩ := List.nodup_cons.mp hnodup
    have hrest := ih (n + 1) hnodup
    by_cases hid : id = first
    · subst hid
      rw [if_neg fun hmem => hnot hmem.1] at hrest
      rw [publishCalls]
      cases hlink : s.link id with
      | none => simp [hrest, isConnected, hlink]
      | some l =>
        obtain ⟨conn, fd⟩ := l
        cases conn <;> simp [hrest, isConnected, hlink]
    · have hfirst : first ≠ id := Ne.symm hid
      have hmem : id ∈ first :: ids ↔ id ∈ ids := by simp [hid]
      simp only [hmem]
      rw [← hrest, publishCalls]
      split
      · simp [hfirst]
      · rfl

theorem flushCalls_handed (id : Str) (fd : Nat) (uninit : Nat → Nat) (n : Nat)
    (sfQueue : List Packet) (id' : Str) :
    ((flushCalls id fd uninit n sfQueue).filter (·.id = id')).map (·.pkt)
      = if id' = id then sfQueue else [] := by
  induction sfQueue generalizing n with
  | nil => simp [flushCalls]
  | cons pkt sfQueue ih =>
    by_cases hid : id = id'
    · subst hid
      simpa [flushCalls] using ih (n + 1)
    · have := ih (n + 1)
      simp [flushCalls, hid, this, Ne.symm hid]

theorem queueOf_of_update {s s' : Server} {id : Str} {cl : Client}
    (h : s'.clients = Function.update s.clients id (some cl)) (id' : Str) :
    s'.queueOf id' = if id' = id then cl.sfQueue else s.queueOf id' := by
  rw [queueOf, h]
  by_cases hid : id' = id
  · subst hid
    simp
  · simp [queueOf, hid]

theorem queueOf_of_clients {s : Server} {id : Str} {cl : Client} (h : s.clients id = some cl) :
    s.queueOf id = cl.sfQueue := by
  simp [queueOf, h]

theorem missed_sfQueue (cl : Client) (pkt : Packet) : (cl.missed pkt).sfQueue
    = cl.sfQueue ++ if cl.topics pkt.topicStr = some true then [pkt] else [] := by
  rw [Client.missed, Client.topicHasSf]
  cases cl.topics pkt.topicStr with
  | none => simp [Client.subscribe]
  | some sf => cases sf <;> simp [Client.subscribe, Client.storePacket]

/-- A client that is connected has nothing waiting for it. -/
def Idle (s : Server) : Prop :=
  ∀ id cl, s.clients id = some cl → cl.connected = true → cl.sfQueue = []

theorem publish_balance {s s' : Server} {pkt : Packet} {uninit : Nat → Nat} {sent : List Send}
    (hidx : Indexed s) (hidle : Idle s)
    (h : publishTo uninit pkt 0 (s.topicToClients pkt.topicStr) s = .ok (s', sent)) (id : Str) :
    ((s.publishCalls uninit pkt 0 (s.topicToClients pkt.topicStr)).filter (·.id = id)).map (·.pkt)
        ++ s'.queueOf id
      = s.queueOf id ++ if id ∈ s.topicToClients pkt.topicStr ∧
          (s.isConnected id = true ∨ s.entry id pkt.topicStr = some true) then [pkt] else [] := by
  have hnodup := hidx.nodup pkt.topicStr
  have hclients := publishTo_clients h hnodup id
  rw [publishCalls_handed s uninit pkt 0 hnodup id]
  by_cases hmem : id ∈ s.topicToClients pkt.topicStr
  · obtain ⟨topics, hsubs, -⟩ := (hidx.agree _ id).mp hmem
    obtain ⟨cl, hcl, rfl⟩ := Option.map_eq_some_iff.mp hsubs
    have hconn := isConnected_of_clients hcl
    have hentry : s.entry id pkt.topicStr = cl.topics pkt.topicStr := by simp [entry, subs, hcl]
    cases hc : cl.connected with
    | true =>
      have hafter : s'.clients id = some cl := by simpa [hconn, hc, hcl] using hclients
      rw [queueOf_of_clients hafter, queueOf_of_clients hcl, hidle id cl hcl hc]
      simp [hmem, hconn, hc]
    | false =>
      have hafter : s'.clients id = some (cl.missed pkt) := by
        simpa [hmem, hconn, hc, hcl] using hclients
      rw [queueOf_of_clients hafter, queueOf_of_clients hcl, missed_sfQueue]
      simp [hmem, hconn, hc, hentry]
  · have hafter : s'.clients id = s.clients id := by simpa [hmem] using hclients
    simp [hmem, queueOf, hafter]

theorem calls_of_rejected {s : Server} {fd : Nat} {bytes : List Byte} {uninit : Nat → Nat}
    (h : s.accepted bytes = none) : s.calls (.accept fd bytes uninit) = [] := by
  simp [calls, h]

theorem handed_of_accepted {s : Server} {fd : Nat} {bytes : List Byte} {uninit : Nat → Nat}
    {new : Str} (h : s.accepted bytes = some new) (id : Str) :
    s.handed id (.accept fd bytes uninit) = if id = new then s.queueOf new else [] := by
  simp only [handed, calls, h]
  exact flushCalls_handed new fd uninit 0 (s.queueOf new) id

theorem Accepts.clients {s s' : Server} {fd : Nat} {bytes : List Byte} {sent : List Send}
    (h : Accepts s fd bytes s' sent) :
    (s.accepted bytes = none ∧ s'.clients = s.clients) ∨ ∃ new cl, s.accepted bytes = some new ∧
      s'.clients = Function.update s.clients new (some cl) ∧ cl.sfQueue = [] := by
  cases h with
  | silent hid => exact .inl ⟨by simp [accepted, hid], rfl⟩
  | duplicate hid hcl hconn => exact .inl ⟨by simp [accepted, hid, hcl, hconn], rfl⟩
  | returning hid hcl hconn =>
    exact .inr ⟨_, _, by simp [accepted, hid, hcl, hconn], rfl, rfl⟩
  | fresh hid hnone => exact .inr ⟨_, _, by simp [accepted, hid, hnone], rfl, rfl⟩

theorem Handles.clients {s s' : Server} {i : Nat} {bytes : List Byte} {sent : List Send}
    (h : Handles s i bytes s' sent) :
    s'.clients = s.clients ∨ ∃ cl cl', s.clients (s.idOf i) = some cl ∧
      s'.clients = Function.update s.clients (s.idOf i) (some cl') ∧ cl'.sfQueue = cl.sfQueue ∧
      (cl'.connected = true → cl.connected = true) := by
  cases h with
  | ignored | refused => exact .inl rfl
  | closed _ hcl => exact .inr ⟨_, _, hcl, rfl, rfl, fun hoff => by cases hoff⟩
  | granted _ hcl => exact .inr ⟨_, _, hcl, rfl, rfl, id⟩

theorem accept_balance {s s' : Server} {fd : Nat} {bytes : List Byte} {uninit : Nat → Nat}
    {sent : List Send} (h : Accepts s fd bytes s' sent) (id : Str) :
    s.handed id (.accept fd bytes uninit) ++ s'.queueOf id = s.queueOf id := by
  rcases h.clients with ⟨hacc, hsame⟩ | ⟨new, cl, hacc, hnew, hempty⟩
  · rw [handed, calls_of_rejected hacc, queueOf, hsame]
    rfl
  · rw [handed_of_accepted hacc, queueOf_of_update hnew, hempty]
    by_cases hid : id = new
    · simp [hid]
    · simp [hid]

theorem recv_balance {s s' : Server} {i : Nat} {bytes : List Byte} {sent : List Send}
    (h : Handles s i bytes s' sent) (id : Str) : s'.queueOf id = s.queueOf id := by
  rcases h.clients with hsame | ⟨cl, cl', hcl, hnew, hqueue, -⟩
  · rw [queueOf, hsame, queueOf]
  · rw [queueOf_of_update hnew, hqueue, ← queueOf_of_clients hcl]
    by_cases hid : id = s.idOf i
    · simp [hid]
    · simp [hid]

/-- A turn keeps the balance between what is published for a client and what it was sent or
waits for. -/
theorem handed_append_queueOf {s s' : Server} {e : Event} {sent : List Send} (hidx : Indexed s)
    (hidle : Idle s) (h : s.handle e = .ok (s', sent)) (id : Str) :
    s.handed id e ++ s'.queueOf id = s.queueOf id ++ s.due id e := by
  cases e with
  | stdin word =>
    simp only [handle, stdinBranch] at h
    split at h
    next => cases h
    next =>
      cases h
      exact (List.append_nil _).symm
  | udp ip port bytes uninit => exact publish_balance hidx hidle h id
  | accept fd bytes uninit =>
    exact (accept_balance (acceptBranch_cases h) id).trans (List.append_nil _).symm
  | recv i bytes => exact (recv_balance (recvBranch_cases h) id).trans (List.append_nil _).symm

theorem Idle.update {s s' : Server} {id : Str} {cl : Client} (hidle : Idle s)
    (h : s'.clients = Function.update s.clients id (some cl))
    (hcl : cl.connected = true → cl.sfQueue = []) : Idle s' := by
  intro id' cl' hcl' hconn
  rw [h] at hcl'
  by_cases hid : id' = id
  · subst hid
    rw [Function.update_self] at hcl'
    obtain rfl := Option.some.inj hcl'
    exact hcl hconn
  · rw [Function.update_of_ne hid] at hcl'
    exact hidle id' cl' hcl' hconn

theorem Idle.of_clients {s s' : Server} (hidle : Idle s) (h : s'.clients = s.clients) : Idle s' := by
  intro id cl hcl
  rw [h] at hcl
  exact hidle id cl hcl

theorem Idle.handle {s s' : Server} {e : Event} {sent : List Send} (hidle : Idle s)
    (hidx : Indexed s) (h : s.handle e = .ok (s', sent)) : Idle s' := by
  cases e with
  | stdin word =>
    simp only [Server.handle, stdinBranch] at h
    split at h
    next => cases h
    next =>
      cases h
      exact hidle
  | udp ip port bytes uninit =>
    intro id cl' hcl' hconn
    have hclients := publishTo_clients h (hidx.nodup _) id
    split at hclients
    next hmissed =>
      rw [hclients] at hcl'
      obtain ⟨cl, hcl, rfl⟩ := Option.map_eq_some_iff.mp hcl'
      rw [Client.missed_connected, ← isConnected_of_clients hcl, hmissed.2] at hconn
      cases hconn
    next => exact hidle id cl' (hclients ▸ hcl') hconn
  | accept fd bytes uninit =>
    rcases (acceptBranch_cases h).clients with ⟨-, hsame⟩ | ⟨new, cl, -, hnew, hempty⟩
    · exact hidle.of_clients hsame
    · exact hidle.update hnew fun _ => hempty
  | recv i bytes =>
    rcases (recvBranch_cases h).clients with hsame | ⟨cl, cl', hcl, hnew, hqueue, hconn⟩
    · exact hidle.of_clients hsame
    · exact hidle.update hnew fun hc => hqueue.trans (hidle _ cl hcl (hconn hc))

end Server

namespace History

def handedTo (log : List (History × Event)) (id : Str) : List Packet :=
  log.flatMap fun x => x.1.server.handed id x.2

def dueTo (log : List (History × Event)) (id : Str) : List Packet :=
  log.flatMap fun x => x.1.server.due id x.2

/-- Every packet that was published for a client was sent to it once and in order, or waits for
it; and nothing waits for a client that is connected. -/
theorem store_and_forward {log : List (History × Event)} {h : History}
    (hrun : Run Step start log h) :
    (∀ x ∈ log, ∀ server sent, x.1.server.handle x.2 = .ok (server, sent) →
      Server.SentAs (x.1.server.calls x.2) sent) ∧
    ∀ id cl, h.server.clients id = some cl →
      handedTo log id ++ cl.sfQueue = dueTo log id ∧ (cl.connected = true → cl.sfQueue = []) := by
  refine ⟨fun x _ server sent hok => Server.handle_sends hok, ?_⟩
  have hinv : h.server.Idle ∧
      ∀ id, handedTo log id ++ h.server.queueOf id = dueTo log id := by
    induction hrun with
    | nil => exact ⟨fun id cl hcl => (by cases hcl), fun id => rfl⟩
    | snoc hrun hstep ih =>
      obtain ⟨hidle, hbalance⟩ := ih
      obtain ⟨-, ⟨sent, hok⟩, -⟩ := hstep
      have hidx := History.indexed hrun
      refine ⟨hidle.handle hidx hok, fun id => ?_⟩
      have hturn := Server.handed_append_queueOf hidx hidle hok id
      simp only [handedTo, dueTo, List.flatMap_append, List.flatMap_singleton] at hbalance ⊢
      rw [List.append_assoc, hturn, ← List.append_assoc, hbalance]
  intro id cl hcl
  have hbalance := hinv.2 id
  rw [Server.queueOf_of_clients hcl] at hbalance
  exact ⟨hbalance, hinv.1 id cl hcl⟩

/-- A subscribes to "t" with SF on and leaves; then there is a datagram on "t". -/
def storing : List Event :=
  subscribing ++ [.recv 5 [], .udp 1 2 (datagram (zeroPad topicLen [116]) 3 []) fun _ => 0]

theorem storing_run : ∃ log h, Run Step start log h ∧ log.map Prod.snd = storing ∧
    (h.server.queueOf [65]).length = 1 := by
  have hplay : (start.play storing).map (fun h => (h.server.queueOf [65]).length) = some 1 := by
    decide +kernel
  obtain ⟨h, hh, hval⟩ := Option.map_eq_some_iff.mp hplay
  obtain ⟨log, hrun, hlog⟩ := run_of_play .nil hh
  exact ⟨log, h, hrun, hlog, hval⟩

theorem store_and_forward_storing : ∃ log h, Run Step start log h ∧ log.map Prod.snd = storing ∧
    (h.server.queueOf [65]).length = 1 ∧
    (∀ x ∈ log, ∀ server sent, x.1.server.handle x.2 = .ok (server, sent) →
      Server.SentAs (x.1.server.calls x.2) sent) ∧
    ∀ id cl, h.server.clients id = some cl →
      handedTo log id ++ cl.sfQueue = dueTo log id ∧
        (cl.connected = true → cl.sfQueue = []) := by
  obtain ⟨log, h, hrun, hlog, hwait⟩ := storing_run
  exact ⟨log, h, hrun, hlog, hwait, store_and_forward hrun⟩

end History

end PCom.PubSub
