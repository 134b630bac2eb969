import PCom.Lib.Runs
import PCom.Router.Main
import PCom.Router.RoutingTableLaws

namespace PCom.Router

open Lib

theorem storeBytes_of_le (p : Mem) {off i : Nat} {bs : List Byte} (h : off + bs.length ≤ i) :
    storeBytes p off bs i = p i := by
  have : ¬ (off ≤ i ∧ i < off + bs.length) := by omega
  simp [storeBytes, this]

theorem load32_storeBytes_of_le (p : Mem) {off i : Nat} {bs : List Byte}
    (h : off + bs.length ≤ i) : load32 (storeBytes p off bs) i = load32 p i := by
  rw [load32, load32, storeBytes_of_le p h, storeBytes_of_le p (by omega : off + bs.length ≤ i + 1),
    storeBytes_of_le p (by omega : off + bs.length ≤ i + 2),
    storeBytes_of_le p (by omega : off + bs.length ≤ i + 3)]

@[simp] theorem ipDaddr_setEtherDhost (p : Mem) (mac : Mac) :
    ipDaddr (setEtherDhost p mac) = ipDaddr p := load32_storeBytes_of_le p (by simp)

@[simp] theorem ipDaddr_setEtherShost (p : Mem) (mac : Mac) :
    ipDaddr (setEtherShost p mac) = ipDaddr p := load32_storeBytes_of_le p (by simp)

variable {env : Interfaces} {rt : Rtable}

def Routed (rt : Rtable) (p : Packet) : Prop :=
  ∃ route out, bestRoute rt (ipDaddr p.payload) = some route ∧
    interfaceIndex route.interface = .ok out

inductive Forwarded (rt : Rtable) (s : State) (m : Packet) : State → List Transmission → Prop
  | expired (t) : (ipTtl m.payload).toNat ≤ 1 → Forwarded rt s m s [t]
  | dropped : 1 < (ipTtl m.payload).toNat → ipChecksum ipAlign (ipHeader m.payload) ≠ 0 →
      Forwarded rt s m s []
  | sent (p t) : 1 < (ipTtl m.payload).toNat → ipChecksum ipAlign (ipHeader m.payload) = 0 →
      Forwarded rt s m { s with m := p } [t]
  | queued (p t) : 1 < (ipTtl m.payload).toNat → ipChecksum ipAlign (ipHeader m.payload) = 0 →
      Routed rt { m with payload := p } →
      Forwarded rt s m { s with q := s.q ++ [{ m with payload := p }], m := p } [t]

theorem forward_cases {s s' : State} {m : Packet} {sent : List Transmission}
    (h : forward env rt s m = .ok (s', sent)) : Forwarded rt s m s' sent := by
  simp only [forward, getBestRoute_eq] at h
  split at h
  next httl =>
    cases h
    exact .expired _ httl
  next httl =>
    have httl' : 1 < (ipTtl m.payload).toNat := by omega
    split at h
    next hsum =>
      cases h
      exact .dropped httl' hsum
    next hsum =>
      have hsum' : ipChecksum ipAlign (ipHeader m.payload) = 0 := by simpa using hsum
      cases hroute : bestRoute rt (ipDaddr (decrementTtl m.payload)) with
      | none =>
        rw [hroute] at h
        cases h
        exact .sent _ _ httl' hsum'
      | some route =>
        rw [hroute] at h
        cases hout : interfaceIndex route.interface with
        | error fault =>
          simp [hout] at h
        | ok out =>
          simp only [hout, ok_bind] at h
          cases hmac : getMac s.arptable route.nextHop with
          | none =>
            rw [hmac] at h
            cases h
            exact .queued _ _ httl' hsum' ⟨route, out, by simpa using hroute, hout⟩
          | some entry =>
            rw [hmac] at h
            cases h
            exact .sent _ _ httl' hsum'

theorem getPacket_apply (m : Mem) (i : Fin routerNumInterfaces) (frame : List Byte) (j : Nat) :
    (getPacket m i frame).payload j =
      if j < (frame.take maxLen).length then (frame.take maxLen).getD j 0 else m j := by
  simp only [getPacket, storeBytes, Nat.zero_le, true_and, Nat.zero_add, Nat.sub_zero]

theorem getPacket_of_lt {m : Mem} {i : Fin routerNumInterfaces} {frame : List Byte} {j : Nat}
    (hmax : frame.length ≤ maxLen) (hj : j < frame.length) :
    (getPacket m i frame).payload j = frame.getD j 0 := by
  rw [getPacket_apply, List.take_of_length_le hmax, if_pos hj]

theorem load16_getPacket {m : Mem} {i : Fin routerNumInterfaces} {frame : List Byte} {off : Nat}
    (hmax : frame.length ≤ maxLen) (hoff : off + 2 ≤ frame.length) :
    load16 (getPacket m i frame).payload off = le16 (frame.getD off 0) (frame.getD (off + 1) 0) := by
  rw [load16, getPacket_of_lt hmax (by omega), getPacket_of_lt hmax (by omega)]

theorem load32_getPacket {m : Mem} {i : Fin routerNumInterfaces} {frame : List Byte} {off : Nat}
    (hmax : frame.length ≤ maxLen) (hoff : off + 4 ≤ frame.length) :
    load32 (getPacket m i frame).payload off = le32 (frame.getD off 0) (frame.getD (off + 1) 0)
      (frame.getD (off + 2) 0) (frame.getD (off + 3) 0) := by
  rw [load32, getPacket_of_lt hmax (by omega), getPacket_of_lt hmax (by omega),
    getPacket_of_lt hmax (by omega), getPacket_of_lt hmax (by omega)]

def IsEchoRequest (env : Interfaces) (i : Fin routerNumInterfaces) (p : Mem) : Prop :=
  parseIcmp p = true ∧ icmpType p = icmpEcho ∧ ipDaddr p = env.ip i

def IsArpRequest (env : Interfaces) (i : Fin routerNumInterfaces) (p : Mem) : Prop :=
  parseArp p = true ∧ arpOp p = htons arpOpRequest ∧ arpTpa p = env.ip i

def IsArpReply (p : Mem) : Prop := parseArp p = true ∧ arpOp p = htons arpOpReply

theorem not_parseArp_of_ip {p : Mem} (h : etherType p = le16 8 0) : ¬ parseArp p = true := by
  rw [parseArp, h]
  decide

theorem not_parseIcmp_of_udp {p : Mem} (h : ipProtocol p = 17) : ¬ parseIcmp p = true := by
  rw [parseIcmp, h]
  simp

theorem mainStep_of_forwarded {s : State} {i : Fin routerNumInterfaces} {frame : List Byte}
    {p : Mem} (hp : p = (getPacket s.m i frame).payload) (hecho : ¬ IsEchoRequest env i p)
    (hreq : ¬ IsArpRequest env i p) (hreply : ¬ IsArpReply p) :
    mainStep env rt s i frame = forward env rt { s with m := p } (getPacket s.m i frame) := by
  subst hp
  simp only [mainStep]
  split
  next h => exact absurd h hecho
  next =>
    split
    next h => exact absurd h hreq
    next =>
      split
      next h => exact absurd h hreply
      next => rfl

theorem forward_waiting {s : State} {m : Packet} {route : RtableEntry}
    {intf : Fin routerNumInterfaces} (httl : 1 < (ipTtl m.payload).toNat)
    (hsum : ipChecksum ipAlign (ipHeader m.payload) = 0)
    (hroute : bestRoute rt (ipDaddr (decrementTtl m.payload)) = some route)
    (hintf : interfaceIndex route.interface = .ok intf)
    (hmac : getMac s.arptable route.nextHop = none) :
    ∃ request, forward env rt s m = .ok (
      let p := setEtherShost (decrementTtl m.payload) (env.mac intf)
      ({ s with q := s.q ++ [{ m with payload := p }], m := p }, [request])) := by
  refine ⟨sendArp route.nextHop (env.ip intf)
    (buildEthhdr (env.mac intf) broadcastMac (htons etherTypeArp)) intf (htons arpOpRequest), ?_⟩
  have httl' : ¬ (ipTtl m.payload).toNat ≤ 1 := by omega
  simp only [forward]
  rw [if_neg httl', if_neg (by simpa using hsum), getBestRoute_eq]
  simp [hroute, hintf, hmac, queueEnq, pure_eq_ok]

section Drain

variable {arptable : List ArptableEntry} {route : RtableEntry} {entry : ArptableEntry}
  {out : Fin routerNumInterfaces}

/-- From the second packet on nothing is written to the packet that is sent, and the route is
always the one of the packet that was in front. -/
theorem drainLoop_behind (hout : interfaceIndex route.interface = .ok out)
    (hentry : getMac arptable route.nextHop = some entry) (p : Packet) (q : List Packet)
    (hdr : Mem) (hroute : bestRoute rt (ipDaddr hdr) = some route) :
    drainLoop rt arptable hdr false route (some entry) (p :: q)
      = .ok ([], (p :: q).map (sendPacket out)) := by
  induction q generalizing p hdr with
  | nil => simp [drainLoop, hout, pure_eq_ok]
  | cons p' q ih =>
    have hrest := ih p' (setEtherDhost hdr entry.mac) (by simpa using hroute)
    rw [drainLoop]
    simp [hout, getBestRoute_eq, hroute, hentry, hrest, pure_eq_ok]

theorem drainLoop_front (hout : interfaceIndex route.interface = .ok out)
    (hentry : getMac arptable route.nextHop = some entry) (p : Packet) (q : List Packet)
    (hroute : bestRoute rt (ipDaddr p.payload) = some route) :
    drainLoop rt arptable p.payload true route (some entry) (p :: q)
      = .ok ([], sendPacket out { p with payload := setEtherDhost p.payload entry.mac }
          :: q.map (sendPacket out)) := by
  cases q with
  | nil => simp [drainLoop, hout, pure_eq_ok]
  | cons p' q =>
    have hrest := drainLoop_behind hout hentry p' q (setEtherDhost p.payload entry.mac)
      (by simpa using hroute)
    rw [drainLoop]
    simp [hout, getBestRoute_eq, hroute, hentry, hrest, pure_eq_ok]

end Drain

theorem arpReplyReceived_cons {s : State} {front : Packet} {behind : List Packet}
    (hq : s.q = front :: behind) {route : RtableEntry} {out : Fin routerNumInterfaces}
    (hroute : bestRoute rt (ipDaddr front.payload) = some route)
    (hout : interfaceIndex route.interface = .ok out) (spa : Word32) (sha : Mac) :
    arpReplyReceived rt s spa sha = .ok (
      match getMac (addToArptable s.arptable spa sha) route.nextHop with
      | none => ({ s with arptable := addToArptable s.arptable spa sha }, [])
      | some entry =>
        ({ s with arptable := addToArptable s.arptable spa sha, q := [] },
          sendPacket out { front with payload := setEtherDhost front.payload entry.mac }
            :: behind.map (sendPacket out))) := by
  simp only [arpReplyReceived, hq, List.isEmpty_cons, queueTop, getBestRoute_eq, ok_bind, hroute,
    pure_eq_ok]
  cases hentry : getMac (addToArptable s.arptable spa sha) route.nextHop with
  | none => simp [drainLoop]
  | some entry =>
    rw [drainLoop_front hout hentry front behind hroute]
    simp

theorem arpReplyReceived_nil {s : State} (hq : s.q = []) (spa : Word32) (sha : Mac) :
    arpReplyReceived rt s spa sha
      = .ok ({ s with arptable := addToArptable s.arptable spa sha }, []) := by
  simp [arpReplyReceived, hq, pure_eq_ok]

abbrev Arrival := Fin routerNumInterfaces × List Byte

def Step (env : Interfaces) (rt : Rtable) (s : State) (a : Arrival) (s' : State) : Prop :=
  ∃ sent, mainStep env rt s a.1 a.2 = .ok (s', sent)

/-- The state before the first frame; the buffer holds whatever was on the stack. -/
def start (m : Mem) : State := ⟨[], [], m⟩

def Reachable (env : Interfaces) (rt : Rtable) (s : State) : Prop :=
  ∃ m log, Run (Step env rt) (start m) log s

def QueueRouted (rt : Rtable) (s : State) : Prop := ∀ p ∈ s.q, Routed rt p

theorem QueueRouted.forward {s s' : State} {m : Packet} {sent : List Transmission}
    (h : QueueRouted rt s) (hs : forward env rt s m = .ok (s', sent)) : QueueRouted rt s' := by
  cases forward_cases hs with
  | expired t => exact h
  | dropped => exact h
  | sent p t => exact h
  | queued p t _ _ hp =>
    intro p' hp'
    rcases List.mem_append.mp hp' with hold | hnew
    · exact h p' hold
    · rw [List.mem_singleton.mp hnew]
      exact hp

theorem QueueRouted.arpReply {s s' : State} {spa : Word32} {sha : Mac} {sent : List Transmission}
    (h : QueueRouted rt s) (hs : arpReplyReceived rt s spa sha = .ok (s', sent)) :
    QueueRouted rt s' := by
  cases hq : s.q with
  | nil =>
    rw [arpReplyReceived_nil hq] at hs
    cases hs
    exact h
  | cons front behind =>
    obtain ⟨route, out, hroute, hout⟩ := h front (by simp [hq])
    rw [arpReplyReceived_cons hq hroute hout] at hs
    split at hs
    · cases hs
      exact h
    · cases hs
      exact List.forall_mem_nil _

theorem QueueRouted.step {s s' : State} {a : Arrival} (h : QueueRouted rt s)
    (hs : Step env rt s a s') : QueueRouted rt s' := by
  obtain ⟨sent, hs⟩ := hs
  have hbuf : QueueRouted rt { s with m := (getPacket s.m a.1 a.2).payload } := h
  simp only [mainStep] at hs
  split at hs
  next =>
    cases hs
    exact hbuf
  next =>
    split at hs
    next =>
      cases hs
      exact hbuf
    next =>
      split at hs
      next => exact hbuf.arpReply hs
      next => exact hbuf.forward hs

theorem Reachable.queueRouted {s : State} (h : Reachable env rt s) : QueueRouted rt s := by
  obtain ⟨m, log, hrun⟩ := h
  have hstart : QueueRouted rt (start m) := List.forall_mem_nil _
  exact hrun.invariant (QueueRouted rt) hstart QueueRouted.step

end PCom.Router
