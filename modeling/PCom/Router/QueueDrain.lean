import Mathlib.Data.List.Forall2
import PCom.Router.ChecksumLaws
import PCom.Router.MainLaws

/-! What an ARP reply does to the packets that wait in the queue. -/

namespace PCom.Router

open Lib

variable {env : Interfaces} {rt : Rtable}

/-- The packet's own best route and the ARP entry of its next hop. -/
def Toward (rt : Rtable) (arptable : List ArptableEntry) (p : Packet) (route : RtableEntry)
    (entry : ArptableEntry) : Prop :=
  getBestRoute rt (ipDaddr p.payload) = .ok (some route) ∧
    getMac arptable route.nextHop = some entry

def Packet.addressedTo (p : Packet) (mac : Mac) : Packet :=
  { p with payload := setEtherDhost p.payload mac }

/-- `t` carries `p` to the next hop of its own best route, on the interface of that route. -/
def Delivers (rt : Rtable) (arptable : List ArptableEntry) (p : Packet) (t : Transmission) : Prop :=
  ∃ route entry, Toward rt arptable p route entry ∧
    interfaceIndex route.interface = .ok t.interface ∧ t.bytes = (p.addressedTo entry.mac).bytes

/-- The frames sent are the packets taken from the queue, in order, each to its own next hop. -/
def DrainsCorrectly (rt : Rtable) (s s' : State) (sent : List Transmission) : Prop :=
  ∃ n, s'.q = s.q.drop n ∧ List.Forall₂ (Delivers rt s'.arptable) (s.q.take n) sent

/-- Once the front packet can leave, all others leave by its route and as they were queued. -/
def InStep (rt : Rtable) (arptable : List ArptableEntry) : List Packet → Prop
  | [] => True
  | front :: behind => ∀ route entry, Toward rt arptable front route entry →
      ∀ p ∈ behind, ∃ own hop, Toward rt arptable p own hop ∧
        own.interface = route.interface ∧ (p.addressedTo hop.mac).bytes = p.bytes

theorem mainStep_arpReply {s : State} {i : Fin routerNumInterfaces} {frame : List Byte} {p : Mem}
    (hp : p = (getPacket s.m i frame).payload) (h : IsArpReply p) :
    mainStep env rt s i frame = arpReplyReceived rt { s with m := p } (arpSpa p) (arpSha p) := by
  subst hp
  obtain ⟨harp, hop⟩ := h
  have hicmp : parseIcmp (getPacket s.m i frame).payload = false := by
    simp only [parseArp, decide_eq_true_eq] at harp
    simp [parseIcmp, harp, etherTypeArp, etherTypeIp]
  have hreq : htons arpOpReply ≠ htons arpOpRequest := by decide
  simp [mainStep, hicmp, harp, hop, hreq]

theorem interfaceIndex_inj {a b : Int} {i : Fin routerNumInterfaces}
    (ha : interfaceIndex a = .ok i) (hb : interfaceIndex b = .ok i) : a = b := by
  unfold interfaceIndex at ha hb
  split at ha
  next ha₀ =>
    split at hb
    next hb₀ =>
      have := (Except.ok.inj ha).trans (Except.ok.inj hb).symm
      have := Fin.mk.inj this
      omega
    next => cases hb
  next => cases ha

theorem toward_iff {arptable : List ArptableEntry} {p : Packet} {route : RtableEntry}
    {entry : ArptableEntry} : Toward rt arptable p route entry ↔
      bestRoute rt (ipDaddr p.payload) = some route ∧ getMac arptable route.nextHop = some entry := by
  simp [Toward, getBestRoute_eq]

theorem delivers_sendPacket_iff {arptable : List ArptableEntry} {p : Packet} {route : RtableEntry}
    {out : Fin routerNumInterfaces} (hout : interfaceIndex route.interface = .ok out) :
    Delivers rt arptable p (sendPacket out p) ↔
      ∃ own hop, Toward rt arptable p own hop ∧
        own.interface = route.interface ∧ (p.addressedTo hop.mac).bytes = p.bytes := by
  constructor
  · rintro ⟨own, hop, htoward, hown, hbytes⟩
    exact ⟨own, hop, htoward, interfaceIndex_inj hown hout, hbytes.symm⟩
  · rintro ⟨own, hop, htoward, hown, hbytes⟩
    exact ⟨own, hop, htoward, hown ▸ hout, hbytes.symm⟩

/-- On an ARP reply each packet taken from the queue goes to its own next hop exactly when all
that are behind the front packet need neither another route nor a new address. -/
theorem arpReply_drainsCorrectly_iff {s : State} (hs : Reachable env rt s)
    (i : Fin routerNumInterfaces) (frame : List Byte) {p : Mem}
    (hp : p = (getPacket s.m i frame).payload) (hreply : IsArpReply p) :
    (∃ s' sent, mainStep env rt s i frame = .ok (s', sent) ∧ DrainsCorrectly rt s s' sent) ↔
      InStep rt (addToArptable s.arptable (arpSpa p) (arpSha p)) s.q := by
  rw [mainStep_arpReply hp hreply]
  obtain ⟨table, q, buffer⟩ := s
  cases q with
  | nil =>
    have hrun := @arpReplyReceived_nil rt ⟨table, [], p⟩ rfl (arpSpa p) (arpSha p)
    exact iff_of_true ⟨_, _, hrun, 0, rfl, .nil⟩ trivial
  | cons front behind =>
    obtain ⟨route, out, hroute, hout⟩ := hs.queueRouted front List.mem_cons_self
    have hrun := arpReplyReceived_cons (s := ⟨table, front :: behind, p⟩) rfl hroute hout
      (arpSpa p) (arpSha p)
    set arptable := addToArptable table (arpSpa p) (arpSha p)
    cases hentry : getMac arptable route.nextHop with
    | none =>
      rw [hentry] at hrun
      refine iff_of_true ⟨_, _, hrun, 0, rfl, .nil⟩ ?_
      intro route' entry htoward
      obtain ⟨hroute', hentry'⟩ := toward_iff.mp htoward
      obtain rfl := Option.some.inj (hroute.symm.trans hroute')
      rw [hentry] at hentry'
      cases hentry'
    | some entry =>
      rw [hentry] at hrun
      have hfront : Toward rt arptable front route entry := toward_iff.mpr ⟨hroute, hentry⟩
      constructor
      · rintro ⟨s', sent, hrun', n, hleft, hsent⟩
        obtain ⟨rfl, rfl⟩ := Prod.mk.inj (Except.ok.inj (hrun.symm.trans hrun'))
        have hall : (front :: behind).take n = front :: behind :=
          List.take_of_length_le (List.drop_eq_nil_iff.mp hleft.symm)
        simp only [hall] at hsent
        obtain ⟨-, hbehind⟩ := List.forall₂_cons.mp hsent
        rw [List.forall₂_map_right_iff, List.forall₂_same] at hbehind
        intro route' entry' htoward p hp
        obtain ⟨hroute', -⟩ := toward_iff.mp htoward
        obtain rfl := Option.some.inj (hroute.symm.trans hroute')
        exact (delivers_sendPacket_iff hout).mp (hbehind p hp)
      · intro hstep
        refine ⟨_, _, hrun, (front :: behind).length, by simp, ?_⟩
        rw [List.take_length]
        refine .cons ⟨route, entry, hfront, hout, rfl⟩ ?_
        rw [List.forall₂_map_right_iff, List.forall₂_same]
        intro p hp
        exact (delivers_sendPacket_iff hout).mpr (hstep route entry hfront p hp)

def exampleMac (n : Byte) : Mac := #v[2, 0, 0, 0, 0, n]

def exampleInterfaces : Interfaces where
  ip i := le32 10 0 i 1
  mac i := exampleMac i

def defaultEntry : RtableEntry := ⟨0, le32 10 0 0 9, 0, 0⟩

def defaultRtable : Rtable :=
  Function.update initRtable 0 ⟨[defaultEntry], 2, by decide, by decide⟩

/-- A UDP packet from 10.0.1.7 to 10.9.9.9 that arrives on interface 1. -/
def dataFrame : List Byte :=
  (exampleMac 1).toList ++ (exampleMac 7).toList ++ [8, 0] ++
    [0x45, 0, 0, 0x14, 0, 1, 0, 0, 0x40, 0x11, 0x5c, 0xc0, 10, 0, 1, 7, 10, 9, 9, 9]

def replyFrame : List Byte :=
  (exampleMac 0).toList ++ (exampleMac 9).toList ++ [8, 6] ++ [0, 1, 8, 0, 6, 4, 0, 2] ++
    (exampleMac 9).toList ++ [10, 0, 0, 9] ++ (exampleMac 0).toList ++ [10, 0, 0, 1]

def waitingPacket (m : Mem) : Packet where
  len := (getPacket m 1 dataFrame).len
  payload := setEtherShost (decrementTtl (getPacket m 1 dataFrame).payload) (exampleInterfaces.mac 0)
  interface := 1

def oneWaiting : State := ⟨[], [waitingPacket fun _ => 0], (waitingPacket fun _ => 0).payload⟩

def twoWaiting : State where
  arptable := []
  q := [waitingPacket fun _ => 0, waitingPacket oneWaiting.m]
  m := (waitingPacket oneWaiting.m).payload

theorem bestRoute_defaultRtable {d : Word32} (h : d = le32 10 9 9 9) :
    bestRoute defaultRtable d = some defaultEntry := by
  subst h
  have hrun : getBestRoute defaultRtable (le32 10 9 9 9) = .ok (some defaultEntry) := rfl
  rw [getBestRoute_eq] at hrun
  exact Except.ok.inj hrun

theorem step_dataFrame (q : List Packet) (m : Mem) :
    Step exampleInterfaces defaultRtable ⟨[], q, m⟩ (1, dataFrame)
      ⟨[], q ++ [waitingPacket m], (waitingPacket m).payload⟩ := by
  set p := (getPacket m 1 dataFrame).payload with hp
  have harp : ¬ parseArp p = true := not_parseArp_of_ip rfl
  have hicmp : ¬ parseIcmp p = true := not_parseIcmp_of_udp rfl
  have httl : ipTtl p = 64#8 := rfl
  have hhdr : ipHeader p = dataFrame.drop 14 := rfl
  have hdaddr : ipDaddr (decrementTtl p) = le32 10 9 9 9 := rfl
  have hacc : Accepted p := by
    rw [accepted_iff, hhdr]
    decide
  have hintf : interfaceIndex defaultEntry.interface = .ok (0 : Fin routerNumInterfaces) := rfl
  have hmac : getMac [] defaultEntry.nextHop = none := rfl
  obtain ⟨request, hrun⟩ := @forward_waiting exampleInterfaces defaultRtable ⟨[], q, p⟩
    (getPacket m 1 dataFrame) _ _ (by rw [← hp, httl]; decide) hacc
    (bestRoute_defaultRtable hdaddr) hintf hmac
  refine ⟨[request], ?_⟩
  rw [mainStep_of_forwarded hp (fun h => hicmp h.1) (fun h => harp h.1) (fun h => harp h.1), hrun]
  rfl

theorem reachable_twoWaiting : Reachable exampleInterfaces defaultRtable twoWaiting :=
  ⟨fun _ => 0, _, .snoc (.snoc .nil (step_dataFrame [] _)) (step_dataFrame _ _)⟩

def replyBuffer : Mem := (getPacket twoWaiting.m 0 replyFrame).payload

theorem isArpReply_replyBuffer : IsArpReply replyBuffer := by
  have htype : etherType replyBuffer = le16 8 6 := rfl
  have hop : arpOp replyBuffer = le16 0 2 := rfl
  rw [IsArpReply, parseArp, htype, hop]
  decide

theorem arpReply_drainsCorrectly_iff_twoWaiting :
    Reachable exampleInterfaces defaultRtable twoWaiting ∧ IsArpReply replyBuffer ∧
      ((∃ s' sent, mainStep exampleInterfaces defaultRtable twoWaiting 0 replyFrame
          = .ok (s', sent) ∧ DrainsCorrectly defaultRtable twoWaiting s' sent) ↔
        InStep defaultRtable
          (addToArptable twoWaiting.arptable (arpSpa replyBuffer) (arpSha replyBuffer))
          twoWaiting.q) :=
  ⟨reachable_twoWaiting, isArpReply_replyBuffer,
    arpReply_drainsCorrectly_iff reachable_twoWaiting 0 replyFrame rfl isArpReply_replyBuffer⟩

/-- The second of two packets to one host leaves with the router's own address as destination. -/
theorem second_packet_misaddressed :
    Reachable exampleInterfaces defaultRtable twoWaiting ∧
      ∃ s' sent, mainStep exampleInterfaces defaultRtable twoWaiting 0 replyFrame = .ok (s', sent) ∧
        s'.q = [] ∧ ¬ DrainsCorrectly defaultRtable twoWaiting s' sent := by
  refine ⟨reachable_twoWaiting, ?_⟩
  rw [mainStep_arpReply rfl isArpReply_replyBuffer]
  have hdaddr : ipDaddr (waitingPacket fun _ => 0).payload = le32 10 9 9 9 := rfl
  have hintf : interfaceIndex defaultEntry.interface = .ok (0 : Fin routerNumInterfaces) := rfl
  have hspa : arpSpa replyBuffer = defaultEntry.nextHop := rfl
  have hmac : getMac (addToArptable [] (arpSpa replyBuffer) (arpSha replyBuffer))
      defaultEntry.nextHop = some ⟨arpSpa replyBuffer, arpSha replyBuffer⟩ := by
    simp [getMac, addToArptable, hspa]
  have hrun := arpReplyReceived_cons (s := ⟨[], twoWaiting.q, replyBuffer⟩) rfl
    (bestRoute_defaultRtable hdaddr) hintf (arpSpa replyBuffer) (arpSha replyBuffer)
  simp only [hmac] at hrun
  refine ⟨_, _, hrun, rfl, ?_⟩
  rintro ⟨n, hleft, hsent⟩
  have hall : twoWaiting.q.take n = twoWaiting.q :=
    List.take_of_length_le (List.drop_eq_nil_iff.mp hleft.symm)
  rw [hall] at hsent
  obtain ⟨-, hbehind⟩ := List.forall₂_cons.mp hsent
  obtain ⟨hsecond, -⟩ := List.forall₂_cons.mp hbehind
  obtain ⟨own, hop, ⟨-, hhop⟩, -, hbytes⟩ := (delivers_sendPacket_iff hintf).mp hsecond
  obtain rfl : hop = ⟨arpSpa replyBuffer, arpSha replyBuffer⟩ :=
    List.mem_singleton.mp (List.mem_of_find?_eq_some hhop)
  have hnew : ((waitingPacket oneWaiting.m).addressedTo (arpSha replyBuffer)).bytes.getD 5 0 = 9 :=
    rfl
  have hold : (waitingPacket oneWaiting.m).bytes.getD 5 0 = 1 := rfl
  rw [hbytes, hold] at hnew
  exact absurd hnew (by decide)

end PCom.Router
