import PCom.PubSub.Select

/-! Which turns of the loop end the server: those that look up a client that is not there, send on
a descriptor that is closed, copy a content that is too long, or call `recv` or `send` once too
often on a connection whose other end is closed. -/

namespace PCom.PubSub

open Lib

namespace Server

/-! ## The calls of a turn -/

/-- The turn finds each client it looks up, and each packet fits its buffer and goes to an open
descriptor. -/
def Completes (s : Server) : Event → Prop
  | .stdin _ => True
  | .udp ip port bytes uninit => ∀ c ∈ s.calls (.udp ip port bytes uninit),
      c.fd ∈ s.readFds ∧ c.pkt.contentSize c.uninit ≤ contentLen + 3
  | .accept fd bytes uninit => ∀ c ∈ s.calls (.accept fd bytes uninit),
      c.pkt.contentSize c.uninit ≤ contentLen + 3
  | .recv i bytes => IsRequest bytes → s.clients (s.idOf i) ≠ none

theorem sendPacket_of_le {s : Server} {fd uninit : Nat} {pkt : Packet} (hfd : fd ∈ s.readFds)
    (h : pkt.contentSize uninit ≤ contentLen + 3) : ∃ sent, s.sendPacket fd uninit pkt = .ok sent := by
  refine ⟨[⟨fd, pkt.header uninit⟩, ⟨fd, pkt.body uninit⟩], ?_⟩
  have hsend (bytes : List Byte) : s.send fd bytes = .ok ⟨fd, bytes⟩ := if_pos hfd
  rw [sendPacket, if_neg (not_lt.mpr h), hsend, hsend]
  rfl

theorem sendPacket_fd {s : Server} {fd uninit : Nat} {pkt : Packet} {sent : List Send}
    (h : s.sendPacket fd uninit pkt = .ok sent) : fd ∈ s.readFds := by
  unfold sendPacket at h
  split at h
  next => cases h
  next =>
    obtain ⟨msg, hmsg, -⟩ := bind_ok h
    unfold send at hmsg
    split at hmsg
    next hfd => exact hfd
    next => cases hmsg

theorem SameRegistry.publishCalls {s s' : Server} (h : SameRegistry s s') (uninit : Nat → Nat)
    (pkt : Packet) (n : Nat) (ids : List Str) :
    s'.publishCalls uninit pkt n ids = s.publishCalls uninit pkt n ids := by
  induction ids generalizing n with
  | nil => rfl
  | cons id ids ih => simp only [Server.publishCalls, h.link, ih]

theorem publishCalls_cons {s : Server} {id : Str} {cl : Client} (h : s.clients id = some cl)
    (uninit : Nat → Nat) (pkt : Packet) (n : Nat) (ids : List Str) :
    s.publishCalls uninit pkt n (id :: ids) =
      if cl.connected then ⟨id, cl.fd, pkt, uninit n⟩ :: s.publishCalls uninit pkt (n + 1) ids
      else s.publishCalls uninit pkt (n + 1) ids := by
  have hlink : s.link id = some (cl.connected, cl.fd) := by simp [link, h]
  rw [publishCalls, hlink]
  cases cl.connected <;> rfl

theorem publishTo_ok_iff {s : Server} {uninit : Nat → Nat} {pkt : Packet} {n : Nat} {ids : List Str}
    (hids : ∀ id ∈ ids, s.clients id ≠ none) :
    (∃ r, publishTo uninit pkt n ids s = .ok r) ↔ ∀ c ∈ s.publishCalls uninit pkt n ids,
      c.fd ∈ s.readFds ∧ c.pkt.contentSize c.uninit ≤ contentLen + 3 := by
  induction ids generalizing n s with
  | nil => exact iff_of_true ⟨_, rfl⟩ (List.forall_mem_nil _)
  | cons id ids ih =>
    obtain ⟨hid, hids⟩ := List.forall_mem_cons.mp hids
    obtain ⟨cl, hcl⟩ := Option.ne_none_iff_exists'.mp hid
    rw [publishCalls_cons hcl, publishTo]
    simp only [hcl]
    cases hconn : cl.connected with
    | true =>
      rw [if_pos rfl, if_pos rfl, List.forall_mem_cons, ← ih hids]
      constructor
      · rintro ⟨r, h⟩
        obtain ⟨sent, hsend, h⟩ := bind_ok h
        obtain ⟨r', hloop, -⟩ := bind_ok h
        exact ⟨⟨sendPacket_fd hsend, (sendPacket_ok hsend).2⟩, r', hloop⟩
      · rintro ⟨⟨hfd, hsize⟩, r', hloop⟩
        obtain ⟨sent, hsend⟩ := sendPacket_of_le hfd hsize
        exact ⟨_, by rw [hsend, ok_bind, hloop]; rfl⟩
    | false =>
      rw [if_neg Bool.false_ne_true, if_neg Bool.false_ne_true]
      change (∃ r, publishTo uninit pkt (n + 1) ids (s.setClient id (cl.missed pkt)) = .ok r) ↔ _
      have hsame := sameRegistry_setClient hcl (cl.missed_connected pkt) (cl.missed_fd pkt)
      have hrest : ∀ id' ∈ ids, (s.setClient id (cl.missed pkt)).clients id' ≠ none := by
        intro id' hid'
        by_cases heq : id' = id
        · subst heq
          simp [setClient]
        · simpa [setClient, heq] using hids id' hid'
      rw [ih hrest, hsame.publishCalls, hsame.readFds]

theorem sendQueue_ok_iff {s : Server} {fd : Nat} (hfd : fd ∈ s.readFds) (id : Str)
    (uninit : Nat → Nat) (n : Nat) (sfQueue : List Packet) :
    (∃ sent, s.sendQueue fd uninit n sfQueue = .ok sent) ↔
      ∀ c ∈ flushCalls id fd uninit n sfQueue, c.pkt.contentSize c.uninit ≤ contentLen + 3 := by
  induction sfQueue generalizing n with
  | nil => exact iff_of_true ⟨[], rfl⟩ (List.forall_mem_nil _)
  | cons pkt sfQueue ih =>
    rw [flushCalls, List.forall_mem_cons, ← ih (n + 1)]
    constructor
    · rintro ⟨sent, h⟩
      obtain ⟨first, hfirst, h⟩ := bind_ok h
      obtain ⟨rest, hrest, -⟩ := bind_ok h
      exact ⟨(sendPacket_ok hfirst).2, rest, hrest⟩
    · rintro ⟨hsize, rest, hrest⟩
      obtain ⟨first, hfirst⟩ := sendPacket_of_le hfd hsize
      exact ⟨first ++ rest, by rw [sendQueue, hfirst, hrest]; rfl⟩

theorem acceptBranch_known {s : Server} {fd : Nat} {bytes : List Byte} (uninit : Nat → Nat)
    {cl : Client} (hid : msgType (received bytes) = idMsg)
    (hcl : s.clients (payloadStr (received bytes)) = some cl) :
    s.acceptBranch fd bytes uninit =
      if cl.connected then
        .ok ((s.opened fd).closeFd fd, [⟨fd, protoMsg exitMsg []⟩])
      else do
        let sent ← (s.opened fd).sendQueue fd uninit 0 cl.sfQueue
        return ({ (s.opened fd).setClient (payloadStr (received bytes)) (cl.reconnect fd) with
          fdToId := Function.update (Function.update s.fdToId cl.fd none) fd
            (some (payloadStr (received bytes))) }, sent) := by
  have hexit : (s.opened fd).sendMsg fd exitMsg = .ok ⟨fd, protoMsg exitMsg []⟩ :=
    if_pos (Finset.mem_insert_self _ _)
  rw [opened] at hexit
  simp only [acceptBranch, hid, if_true, hcl, hexit]
  rfl

theorem acceptBranch_ok_iff {s : Server} {fd : Nat} {bytes : List Byte} {uninit : Nat → Nat} :
    (∃ r, s.acceptBranch fd bytes uninit = .ok r) ↔ ∀ c ∈ s.calls (.accept fd bytes uninit),
      c.pkt.contentSize c.uninit ≤ contentLen + 3 := by
  have hfd : fd ∈ (s.opened fd).readFds := Finset.mem_insert_self _ _
  by_cases hid : msgType (received bytes) = idMsg
  · cases hcl : s.clients (payloadStr (received bytes)) with
    | none =>
      have hacc : s.accepted bytes = some (payloadStr (received bytes)) := by
        simp [accepted, hid, hcl]
      have hqueue : s.queueOf (payloadStr (received bytes)) = [] := by simp [queueOf, hcl]
      refine iff_of_true ?_ (by simp [calls, hacc, hqueue, flushCalls])
      simp only [acceptBranch, hid, if_true, hcl]
      exact ⟨_, rfl⟩
    | some cl =>
      rw [acceptBranch_known uninit hid hcl]
      cases hconn : cl.connected with
      | true =>
        have hacc : s.accepted bytes = none := by simp [accepted, hid, hcl, hconn]
        refine iff_of_true ⟨_, if_pos rfl⟩ ?_
        simp [calls, hacc]
      | false =>
        have hacc : s.accepted bytes = some (payloadStr (received bytes)) := by
          simp [accepted, hid, hcl, hconn]
        simp only [calls, hacc, queueOf_of_clients hcl]
        rw [if_neg Bool.false_ne_true, ← sendQueue_ok_iff hfd]
        constructor
        · rintro ⟨r, h⟩
          obtain ⟨sent, hsent, -⟩ := bind_ok h
          exact ⟨sent, hsent⟩
        · rintro ⟨sent, hsent⟩
          exact ⟨_, by rw [hsent]; rfl⟩
  · have hacc : s.accepted bytes = none := if_neg hid
    refine iff_of_true ?_ (by simp [calls, hacc])
    simp only [acceptBranch, hid, if_false]
    exact ⟨_, rfl⟩

theorem clientOf_of_clients {s : Server} {i : Nat} {cl : Client}
    (h : s.clients (s.idOf i) = some cl) : s.clientOf i = .ok (s.idOf i, cl, s.lookedUp i) := by
  rw [idOf] at h
  simp only [clientOf, h, idOf, lookedUp]

theorem recvBranch_ok_iff {s : Server} {i : Nat} {bytes : List Byte} (hi : i ∈ s.readFds) :
    (∃ r, s.recvBranch i bytes = .ok r) ↔ (IsRequest bytes → s.clients (s.idOf i) ≠ none) := by
  have hanswer (type : Byte) : (s.lookedUp i).sendMsg i type = .ok ⟨i, protoMsg type []⟩ := if_pos hi
  constructor
  · rintro ⟨⟨s', sent⟩, h⟩ hreq hnone
    cases recvBranch_cases h with
    | ignored hnot => exact hnot hreq
    | closed _ hcl => rw [hnone] at hcl; cases hcl
    | refused _ hcl => rw [hnone] at hcl; cases hcl
    | granted _ hcl => rw [hnone] at hcl; cases hcl
  · intro hfound
    by_cases hreq : IsRequest bytes
    · obtain ⟨cl, hcl⟩ := Option.ne_none_iff_exists'.mp (hfound hreq)
      have hof := clientOf_of_clients hcl
      by_cases hnil : bytes = []
      · exact ⟨_, by rw [recvBranch, if_pos hnil, hof]; rfl⟩
      · simp only [recvBranch, if_neg hnil, hof, ok_bind, hanswer]
        split
        next => split <;> exact ⟨_, rfl⟩
        next hsub =>
          rw [if_pos ((hreq.resolve_left hnil).resolve_left hsub)]
          split <;> exact ⟨_, rfl⟩
    · exact ⟨_, recvBranch_of_not_isRequest hreq⟩

/-- But for the exit command, a turn goes well when it completes. -/
theorem handle_ok_iff {s : Server} {e : Event} (hidx : s.Indexed) (hoffer : s.Offers e)
    (hexit : ∀ sent, s.handle e ≠ .error (.exit sent)) :
    (∃ r, s.handle e = .ok r) ↔ s.Completes e := by
  cases e with
  | stdin word =>
    refine iff_of_true ?_ trivial
    simp only [handle, stdinBranch] at hexit ⊢
    split at hexit
    next => exact absurd rfl (hexit _)
    next hword => exact ⟨_, if_neg hword⟩
  | udp ip port bytes uninit =>
    refine publishTo_ok_iff fun id hid hnone => ?_
    obtain ⟨topics, hsubs, -⟩ := (hidx.agree _ id).mp hid
    simp [subs, hnone] at hsubs
  | accept fd bytes uninit => exact acceptBranch_ok_iff
  | recv i bytes => exact recvBranch_ok_iff hoffer.1

def sendsTo (s : Server) (e : Event) (fd : Nat) : Nat :=
  2 * (s.calls e).countP (·.fd = fd) + (s.answers e).count fd

theorem countP_sends (cs : List Call) (fd : Nat) :
    (cs.flatMap Call.sends).countP (·.fd = fd) = 2 * cs.countP (·.fd = fd) := by
  induction cs with
  | nil => rfl
  | cons c cs ih =>
    rw [List.flatMap_cons, List.countP_append, ih, List.countP_cons]
    by_cases hfd : c.fd = fd
    · simp [Call.sends, hfd, Nat.mul_add, Nat.add_comm]
    · simp [Call.sends, hfd]

theorem acceptBranch_answers {s s' : Server} {fd : Nat} {bytes : List Byte} {uninit : Nat → Nat}
    {sent : List Send} (h : s.acceptBranch fd bytes uninit = .ok (s', sent)) :
    ∃ replies : List Send, sent = (s.calls (.accept fd bytes uninit)).flatMap Call.sends ++ replies ∧
      replies.map (·.fd) = s.answers (.accept fd bytes uninit) := by
  cases hacc : s.accepted bytes with
  | some id =>
    have hid : msgType (received bytes) = idMsg := by
      by_contra hid
      simp [accepted, hid] at hacc
    cases hcl : s.clients (payloadStr (received bytes)) with
    | none =>
      have hqueue : s.queueOf (payloadStr (received bytes)) = [] := by simp [queueOf, hcl]
      have hoff : s.isConnected (payloadStr (received bytes)) = false := by
        simp [isConnected, link, hcl]
      simp only [acceptBranch, hid, if_true, hcl] at h
      cases h
      refine ⟨[], ?_, by simp [answers, hoff]⟩
      simp [calls, accepted, hid, hcl, hqueue, flushCalls]
    | some cl =>
      have hconn : cl.connected = false := by
        by_contra hconn
        simp [accepted, hid, hcl, hconn] at hacc
      have hcalls : s.calls (.accept fd bytes uninit)
          = flushCalls (payloadStr (received bytes)) fd uninit 0 cl.sfQueue := by
        simp [calls, accepted, hid, hcl, hconn, queueOf_of_clients hcl]
      rw [acceptBranch_known uninit hid hcl, hconn, if_neg Bool.false_ne_true] at h
      obtain ⟨queue, hqueue, h⟩ := bind_ok h
      cases h
      refine ⟨[], ?_, by simp [answers, isConnected_of_clients hcl, hconn]⟩
      rw [hcalls, List.append_nil]
      exact sendQueue_sends hqueue _
  | none =>
    have hcalls : s.calls (.accept fd bytes uninit) = [] := by simp [calls, hacc]
    rw [hcalls]
    refine ⟨sent, rfl, ?_⟩
    cases acceptBranch_cases h with
    | silent hid => simp [answers, hid]
    | duplicate hid hcl hconn => simp [answers, hid, isConnected_of_clients hcl, hconn]
    | returning hid hcl hconn => simp [accepted, hid, hcl, hconn] at hacc
    | fresh hid hcl => simp [accepted, hid, hcl] at hacc

theorem handle_answers {s s' : Server} {e : Event} {sent : List Send}
    (h : s.handle e = .ok (s', sent)) : ∃ replies : List Send,
      sent = (s.calls e).flatMap Call.sends ++ replies ∧ replies.map (·.fd) = s.answers e := by
  cases e with
  | stdin word =>
    simp only [handle, stdinBranch] at h
    split at h
    next => cases h
    next =>
      cases h
      exact ⟨[], rfl, rfl⟩
  | udp ip port bytes uninit =>
    refine ⟨[], ?_, rfl⟩
    rw [calls, publishCalls_sends, List.append_nil]
    exact (publishTo_sent h).1
  | accept fd bytes uninit => exact acceptBranch_answers h
  | recv i bytes =>
    refine ⟨sent, rfl, ?_⟩
    cases recvBranch_cases h with
    | ignored hnot =>
      simp only [IsRequest, not_or] at hnot
      simp [answers, hnot.2]
    | closed hnil => simp [answers, hnil]
    | refused hasks | granted hasks =>
      have htype := hasks.isRequest.resolve_left hasks.ne_nil
      simp [answers, hasks.ne_nil, htype]

theorem countP_sent {s s' : Server} {e : Event} {sent : List Send}
    (h : s.handle e = .ok (s', sent)) (fd : Nat) :
    sent.countP (·.fd = fd) = s.sendsTo e fd := by
  obtain ⟨replies, rfl, hreplies⟩ := handle_answers h
  rw [List.countP_append, countP_sends, sendsTo, ← hreplies]
  congr 1
  rw [List.count, List.countP_map]
  rfl

end Server

namespace Network

/-! ## The network -/

/-- The step does not end the server: no `recv` fails, the turn completes, and the connections bear
what it sends. -/
def Survives (n : Network) : Act → Prop
  | .serve fd uninit late => ∀ i ∈ n.ready.head?, n.failsAt i = false ∧
      ∀ r ∈ n.next fd uninit i, n.server.Completes r.1 ∧ ∀ j c, r.2.conns j = some c →
        c.far.bears (late j) (n.server.sendsTo r.1 j) = true
  | _ => True

@[simp] theorem bears_zero (late : Bool) (far : Far) : far.bears late 0 = true := by
  cases far <;> simp [Far.bears]

theorem bears_iff {n : Network} {late : Nat → Bool} {sent : List Send} :
    n.bears late sent = true ↔ ∀ j c, n.conns j = some c →
      c.far.bears (late j) (sent.countP (·.fd = j)) = true := by
  simp only [bears, List.all_eq_true, Option.all_eq_true]
  constructor
  · intro h j c hc
    rcases Nat.eq_zero_or_pos (sent.countP (·.fd = j)) with hzero | hpos
    · rw [hzero]
      exact bears_zero _ _
    · obtain ⟨x, hx, hfd⟩ := List.countP_pos_iff.mp hpos
      obtain rfl := of_decide_eq_true hfd
      exact h x hx c hc
  · exact fun h x _ c hc => h x.fd c hc

theorem serve_alive_iff {n n' : Network} {fd i : Nat} {uninit : Nat → Nat} {late : Nat → Bool}
    {ready : List Nat} (hidx : n.server.Indexed) (halive : n.alive = true)
    (h : n.serve fd uninit late i ready = some n') :
    n'.alive = true ↔ n.failsAt i = false ∧
      ∀ r ∈ n.next fd uninit i, n.server.Completes r.1 ∧ ∀ j c, r.2.conns j = some c →
        c.far.bears (late j) (n.server.sendsTo r.1 j) = true := by
  rw [serve] at h
  split at h
  next hfails =>
    cases h
    exact iff_of_false Bool.false_ne_true fun hall => by rw [hfails] at hall; cases hall.1
  next hworks =>
    rw [and_iff_right (Bool.eq_false_of_not_eq_true hworks)]
    obtain ⟨⟨e, n₁⟩, hnext, h⟩ := Option.bind_eq_some_iff.mp h
    have hfinds := next_finds hnext
    simp only [hnext, Option.mem_some_iff, forall_eq']
    split at h
    next hoffer =>
      split at h
      next => cases h
      next stop hexit herror =>
        cases h
        have hno (sent) : n.server.handle e ≠ .error (.exit sent) := by
          intro hsent
          exact hexit sent (Except.error.inj (herror.symm.trans hsent))
        refine iff_of_false Bool.false_ne_true fun hall => ?_
        obtain ⟨r, hr⟩ := (Server.handle_ok_iff hidx hoffer hno).mpr hall.1
        cases herror.symm.trans hr
      next server sent hok =>
        have hdone : n.server.Completes e :=
          (Server.handle_ok_iff hidx hoffer fun _ hsent => by rw [hok] at hsent; cases hsent).mp
            ⟨_, hok⟩
        rw [and_iff_right hdone]
        simp only [← Server.countP_sent hok]
        rw [← bears_iff]
        split at h
        next hbears =>
          cases h
          exact iff_of_true (hfinds.alive.trans halive) hbears
        next hbears =>
          cases h
          exact iff_of_false Bool.false_ne_true hbears
    next => cases h

theorem alive_iff {n n' : Network} {a : Act} (hidx : n.server.Indexed) (h : n.step a = some n') :
    n'.alive = true ↔ n.Survives a := by
  obtain ⟨halive, h⟩ := step_alive h
  cases a with
  | type | publish | dial =>
    cases h
    exact iff_of_true halive trivial
  | say e chunk | close e crossed =>
    obtain ⟨c, -, h⟩ := Option.bind_eq_some_iff.mp h
    split at h
    next => cases h
    next =>
      cases h
      exact iff_of_true ((alive_setConn _ _ _).trans halive) trivial
  | read i =>
    obtain ⟨c, -, h⟩ := Option.bind_eq_some_iff.mp h
    split at h
    next =>
      cases h
      exact iff_of_true halive trivial
    next => cases h
  | select =>
    simp only [act] at h
    split at h
    next =>
      cases h
      exact iff_of_true halive trivial
    next => cases h
  | serve fd uninit late =>
    rw [act] at h
    split at h
    next => cases h
    next i ready hready =>
      rw [serve_alive_iff hidx halive h, Survives, hready, List.head?_cons]
      simp only [Option.mem_some_iff, forall_eq']

end Network

end PCom.PubSub
