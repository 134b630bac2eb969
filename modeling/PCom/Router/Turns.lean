import PCom.Router.QueueDrain

/-! What one turn of the router's loop does, as one action: what it originates, what it sends on
and what it puts into or takes from the queue. -/

namespace PCom.Router

open Lib

abbrev received (s : State) (a : Arrival) : Packet := getPacket s.m a.1 a.2

abbrev buffer (s : State) (a : Arrival) : Mem := (received s a).payload

def echoReply (i : Fin routerNumInterfaces) (p : Mem) : Transmission :=
  sendIcmp (ipSaddr p) (ipDaddr p) (etherDhost p) (etherShost p) icmpEchoReply 0 i (icmpId p)
    (icmpSequence p)

def icmpError (type : Byte) (i : Fin routerNumInterfaces) (p : Mem) : Transmission :=
  sendIcmpError (ipSaddr p) (ipDaddr p) (etherDhost p) (etherShost p) type 0 i

def arpReply (env : Interfaces) (i : Fin routerNumInterfaces) (p : Mem) : Transmission :=
  sendArp (arpSpa p) (arpTpa p) (buildEthhdr (env.mac i) (arpSha p) (htons etherTypeArp)) i
    (htons arpOpReply)

def arpRequest (env : Interfaces) (out : Fin routerNumInterfaces) (nextHop : Word32) :
    Transmission :=
  sendArp nextHop (env.ip out) (buildEthhdr (env.mac out) broadcastMac (htons etherTypeArp)) out
    (htons arpOpRequest)

def outgoing (env : Interfaces) (out : Fin routerNumInterfaces) (m : Packet) : Packet :=
  { m with payload := setEtherShost (decrementTtl m.payload) (env.mac out) }

inductive Action
  | silent
  /-- A frame of the router's own. -/
  | originate (t : Transmission)
  /-- The packet just received leaves at once. -/
  | send (p : Packet) (out : Fin routerNumInterfaces)
  /-- It waits, and the router asks for the MAC address it needs. -/
  | enqueue (p : Packet) (request : Transmission)
  /-- The whole queue leaves on one interface; only the front packet is addressed anew. -/
  | release (front : Packet) (behind : List Packet) (mac : Mac) (out : Fin routerNumInterfaces)

namespace Action

def originated : Action → List Transmission
  | originate t => [t]
  | enqueue _ request => [request]
  | _ => []

def direct : Action → List Transmission
  | send p out => [sendPacket out p]
  | _ => []

def enqueued : Action → List Packet
  | enqueue p _ => [p]
  | _ => []

def released : Action → List Transmission
  | release front behind mac out => (front.addressedTo mac :: behind).map (sendPacket out)
  | _ => []

def transmissions (act : Action) : List Transmission := act.originated ++ act.direct ++ act.released

end Action

/-- A frame that falls through to the IP path. -/
structure IsOther (env : Interfaces) (i : Fin routerNumInterfaces) (p : Mem) : Prop where
  echo : ¬ IsEchoRequest env i p
  request : ¬ IsArpRequest env i p
  reply : ¬ IsArpReply p

def InRange (i : Int) : Prop := 0 ≤ i ∧ i < routerNumInterfaces

/-- The frame is to be forwarded on an interface that the router does not have. -/
def Misrouted (env : Interfaces) (rt : Rtable) (s : State) (a : Arrival) : Prop :=
  IsOther env a.1 (buffer s a) ∧ 1 < (ipTtl (buffer s a)).toNat ∧ Accepted (buffer s a) ∧
    ∃ route, bestRoute rt (ipDaddr (buffer s a)) = some route ∧ ¬ InRange route.interface

abbrev learnt (s : State) (a : Arrival) : List ArptableEntry :=
  addToArptable s.arptable (arpSpa (buffer s a)) (arpSha (buffer s a))

inductive Turn (env : Interfaces) (rt : Rtable) (s : State) (a : Arrival) : Action → State → Prop
  | echoed : IsEchoRequest env a.1 (buffer s a) →
      Turn env rt s a (.originate (echoReply a.1 (buffer s a))) { s with m := buffer s a }
  | answered : IsArpRequest env a.1 (buffer s a) →
      Turn env rt s a (.originate (arpReply env a.1 (buffer s a))) { s with m := buffer s a }
  | learned : IsArpReply (buffer s a) →
      (∀ front ∈ s.q.head?, ∃ route, bestRoute rt (ipDaddr front.payload) = some route ∧
        getMac (learnt s a) route.nextHop = none) →
      Turn env rt s a .silent ⟨learnt s a, s.q, buffer s a⟩
  | released {front behind route entry out} : IsArpReply (buffer s a) → s.q = front :: behind →
      bestRoute rt (ipDaddr front.payload) = some route →
      getMac (learnt s a) route.nextHop = some entry →
      interfaceIndex route.interface = .ok out →
      Turn env rt s a (.release front behind entry.mac out) ⟨learnt s a, [], buffer s a⟩
  | expired : IsOther env a.1 (buffer s a) → (ipTtl (buffer s a)).toNat ≤ 1 →
      Turn env rt s a (.originate (icmpError icmpTimeExceeded a.1 (buffer s a)))
        { s with m := buffer s a }
  | corrupt : IsOther env a.1 (buffer s a) → 1 < (ipTtl (buffer s a)).toNat →
      ¬ Accepted (buffer s a) → Turn env rt s a .silent { s with m := buffer s a }
  | unreachable : IsOther env a.1 (buffer s a) → 1 < (ipTtl (buffer s a)).toNat →
      Accepted (buffer s a) → bestRoute rt (ipDaddr (buffer s a)) = none →
      Turn env rt s a (.originate (icmpError icmpDestUnreach a.1 (decrementTtl (buffer s a))))
        { s with m := decrementTtl (buffer s a) }
  | sent {route out entry} : IsOther env a.1 (buffer s a) → 1 < (ipTtl (buffer s a)).toNat →
      Accepted (buffer s a) → bestRoute rt (ipDaddr (buffer s a)) = some route →
      interfaceIndex route.interface = .ok out → getMac s.arptable route.nextHop = some entry →
      Turn env rt s a (.send ((outgoing env out (received s a)).addressedTo entry.mac) out)
        { s with m := ((outgoing env out (received s a)).addressedTo entry.mac).payload }
  | queued {route out} : IsOther env a.1 (buffer s a) → 1 < (ipTtl (buffer s a)).toNat →
      Accepted (buffer s a) → bestRoute rt (ipDaddr (buffer s a)) = some route →
      interfaceIndex route.interface = .ok out → getMac s.arptable route.nextHop = none →
      Turn env rt s a
        (.enqueue (outgoing env out (received s a)) (arpRequest env out route.nextHop))
        { s with
          q := s.q ++ [outgoing env out (received s a)]
          m := (outgoing env out (received s a)).payload }

variable {env : Interfaces} {rt : Rtable} {s s' : State} {a : Arrival}

theorem IsEchoRequest.not_parseArp {i : Fin routerNumInterfaces} {p : Mem}
    (h : IsEchoRequest env i p) : ¬ parseArp p = true := by
  obtain ⟨hicmp, -, -⟩ := h
  intro harp
  rw [parseIcmp, Bool.and_eq_true, decide_eq_true_eq, of_decide_eq_true harp] at hicmp
  exact absurd hicmp.1 (by decide)

theorem IsArpReply.not_isArpRequest {i : Fin routerNumInterfaces} {p : Mem} (h : IsArpReply p) :
    ¬ IsArpRequest env i p := by
  rintro ⟨-, hop, -⟩
  rw [h.2] at hop
  exact absurd hop (by decide)

@[simp] theorem ipDaddr_decrementTtl (p : Mem) : ipDaddr (decrementTtl p) = ipDaddr p := by
  simp [ipDaddr, load32, decrementTtl_of_ne]

theorem forward_expired {m : Packet} (httl : (ipTtl m.payload).toNat ≤ 1) :
    forward env rt s m = .ok (s, [icmpError icmpTimeExceeded m.interface m.payload]) := by
  rw [forward, if_pos httl]
  rfl

theorem forward_corrupt {m : Packet} (httl : 1 < (ipTtl m.payload).toNat)
    (hbad : ¬ Accepted m.payload) : forward env rt s m = .ok (s, []) := by
  have httl' : ¬ (ipTtl m.payload).toNat ≤ 1 := by omega
  have hsum : ipChecksum ipAlign (ipHeader m.payload) ≠ 0 := hbad
  rw [forward, if_neg httl', if_pos hsum]

theorem forward_accepted {m : Packet} (httl : 1 < (ipTtl m.payload).toNat)
    (hacc : Accepted m.payload) :
    forward env rt s m =
      match bestRoute rt (ipDaddr m.payload) with
      | none =>
        .ok ({ s with m := decrementTtl m.payload },
          [icmpError icmpDestUnreach m.interface (decrementTtl m.payload)])
      | some route =>
        (interfaceIndex route.interface).bind fun out =>
          match getMac s.arptable route.nextHop with
          | none =>
            .ok ({ s with q := s.q ++ [outgoing env out m], m := (outgoing env out m).payload },
              [arpRequest env out route.nextHop])
          | some entry =>
            .ok ({ s with m := ((outgoing env out m).addressedTo entry.mac).payload },
              [sendPacket out ((outgoing env out m).addressedTo entry.mac)]) := by
  have httl' : ¬ (ipTtl m.payload).toNat ≤ 1 := by omega
  have hsum : ¬ ipChecksum ipAlign (ipHeader m.payload) ≠ 0 := not_not.mpr hacc
  rw [forward, if_neg httl', if_neg hsum]
  simp only [getBestRoute_eq, ipDaddr_decrementTtl]
  rfl

theorem Turn.mainStep_eq {act : Action} (h : Turn env rt s a act s') :
    mainStep env rt s a.1 a.2 = .ok (s', act.transmissions) := by
  cases h with
  | echoed h =>
    simp only [mainStep]
    exact if_pos h
  | answered h =>
    have hecho : ¬ IsEchoRequest env a.1 (buffer s a) := fun hecho => hecho.not_parseArp h.1
    simp only [mainStep]
    exact (if_neg hecho).trans (if_pos h)
  | learned h hwait =>
    rw [mainStep_arpReply rfl h]
    obtain ⟨table, q, m⟩ := s
    cases q with
    | nil => exact arpReplyReceived_nil rfl _ _
    | cons front behind =>
      obtain ⟨route, hroute, hmac⟩ := hwait front rfl
      simp only [arpReplyReceived, queueTop, getBestRoute_eq, ok_bind, hroute, hmac, drainLoop]
      rfl
  | released h hq hroute hentry hout =>
    have hrun := arpReplyReceived_cons (s := ⟨s.arptable, s.q, buffer s a⟩) hq hroute hout
      (arpSpa (buffer s a)) (arpSha (buffer s a))
    rw [mainStep_arpReply rfl h, hrun, hentry]
    rfl
  | expired h httl =>
    rw [mainStep_of_forwarded rfl h.echo h.request h.reply, forward_expired httl]
    rfl
  | corrupt h httl hbad =>
    rw [mainStep_of_forwarded rfl h.echo h.request h.reply, forward_corrupt httl hbad]
    rfl
  | unreachable h httl hacc hroute =>
    rw [mainStep_of_forwarded rfl h.echo h.request h.reply, forward_accepted httl hacc, hroute]
    rfl
  | sent h httl hacc hroute hout hentry =>
    rw [mainStep_of_forwarded rfl h.echo h.request h.reply, forward_accepted httl hacc, hroute]
    simp only [hout, Except.bind, hentry]
    rfl
  | queued h httl hacc hroute hout hentry =>
    rw [mainStep_of_forwarded rfl h.echo h.request h.reply, forward_accepted httl hacc, hroute]
    simp only [hout, Except.bind, hentry]
    rfl

theorem interfaceIndex_of_inRange {i : Int} (h : InRange i) :
    ∃ out, interfaceIndex i = .ok out := by
  obtain ⟨hpos, hlt⟩ := h
  exact ⟨⟨i.toNat, by omega⟩, dif_pos ⟨hpos, by omega⟩⟩

theorem interfaceIndex_of_not_inRange {i : Int} (h : ¬ InRange i) :
    interfaceIndex i = .error .badIndex := by
  refine dif_neg fun hin => h ⟨hin.1, ?_⟩
  have := hin.2
  omega

/-- A frame that is not misrouted makes a turn of the loop: all that waits in the queue was
routed when it was put there. -/
theorem exists_turn_of_not_misrouted (hq : QueueRouted rt s)
    (h : ¬ Misrouted env rt s a) : ∃ act s', Turn env rt s a act s' := by
  by_cases hecho : IsEchoRequest env a.1 (buffer s a)
  · exact ⟨_, _, .echoed hecho⟩
  by_cases hreq : IsArpRequest env a.1 (buffer s a)
  · exact ⟨_, _, .answered hreq⟩
  by_cases hreply : IsArpReply (buffer s a)
  · cases hs : s.q with
    | nil => exact ⟨_, _, .learned hreply (by simp [hs])⟩
    | cons front behind =>
      obtain ⟨route, out, hroute, hout⟩ := hq front (by simp [hs])
      cases hentry : getMac (learnt s a) route.nextHop with
      | none => exact ⟨_, _, .learned hreply (by simpa [hs] using ⟨route, hroute, hentry⟩)⟩
      | some entry => exact ⟨_, _, .released hreply hs hroute hentry hout⟩
  have hother : IsOther env a.1 (buffer s a) := ⟨hecho, hreq, hreply⟩
  by_cases httl : (ipTtl (buffer s a)).toNat ≤ 1
  · exact ⟨_, _, .expired hother httl⟩
  have httl' : 1 < (ipTtl (buffer s a)).toNat := by omega
  by_cases hacc : Accepted (buffer s a)
  swap
  · exact ⟨_, _, .corrupt hother httl' hacc⟩
  cases hroute : bestRoute rt (ipDaddr (buffer s a)) with
  | none => exact ⟨_, _, .unreachable hother httl' hacc hroute⟩
  | some route =>
    have hin : InRange route.interface := by
      by_contra hout
      exact h ⟨hother, httl', hacc, route, hroute, hout⟩
    obtain ⟨out, hout⟩ := interfaceIndex_of_inRange hin
    cases hentry : getMac s.arptable route.nextHop with
    | none => exact ⟨_, _, .queued hother httl' hacc hroute hout hentry⟩
    | some entry => exact ⟨_, _, .sent hother httl' hacc hroute hout hentry⟩

theorem mainStep_of_misrouted (h : Misrouted env rt s a) :
    mainStep env rt s a.1 a.2 = .error .badIndex := by
  obtain ⟨hother, httl, hacc, route, hroute, hout⟩ := h
  rw [mainStep_of_forwarded rfl hother.echo hother.request hother.reply,
    forward_accepted httl hacc, hroute]
  simp only [interfaceIndex_of_not_inRange hout, Except.bind]

theorem exists_turn (hq : QueueRouted rt s) {sent : List Transmission}
    (h : mainStep env rt s a.1 a.2 = .ok (s', sent)) :
    ∃ act, Turn env rt s a act s' ∧ sent = act.transmissions := by
  have hrouted : ¬ Misrouted env rt s a := by
    intro hmis
    rw [mainStep_of_misrouted hmis] at h
    cases h
  obtain ⟨act, s'', hturn⟩ := exists_turn_of_not_misrouted hq hrouted
  obtain ⟨rfl, rfl⟩ := Prod.mk.inj (Except.ok.inj (h.symm.trans hturn.mainStep_eq))
  exact ⟨act, hturn, rfl⟩

end PCom.Router
