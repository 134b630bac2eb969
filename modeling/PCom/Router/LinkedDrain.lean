import PCom.Router.LinkedQueue
import PCom.Router.Turns

/-! The ARP reply branch of `main` over the cells of the packet queue. -/

namespace PCom.Router

open Lib

/-- The queue of pointers to packets and the memory that the packets lie in. -/
structure Waiting where
  q : LinkedQueue Address
  packets : Address → Packet

def queueCall {β : Type} : Except LinkedQueue.CallFault β → Except Fault β
  | .error .assertion => .error .assertion
  | .error .badPointer => .error .nullPointer
  | .ok b => .ok b

def Waiting.enqueue (malloc : Malloc (Node Address)) (w : Waiting) (p : Address) (m : Packet) :
    Except Fault Waiting := do
  let q ← queueCall (w.q.queueEnq malloc p)
  return ⟨q, Function.update w.packets p m⟩

/-- `memcpy(p_eth_hdr->ether_dhost, entry->mac, ETH_ALEN)`, into the packet at `hdr`. -/
def copyDhost (packets : Address → Packet) (hdr : Address) (mac : Mac) : Address → Packet :=
  Function.update packets hdr ((packets hdr).addressedTo mac)

section Code

variable (rt : Rtable) (arptable : List ArptableEntry)

/-- The `while` of the ARP reply branch, for at most `fuel` turns.  `hdr` is the packet that
`p_eth_hdr` and `p_ip_hdr` point into, whose bytes stay where they are once it is freed. -/
def linkedDrainLoop (hdr : Address) :
    Nat → Waiting → RtableEntry → Option ArptableEntry → Except Fault (Waiting × List Transmission)
  | _, w, _, none => .ok (w, [])
  | 0, _, _, some _ => .error .endless
  | fuel + 1, w, bestRoute, some entry => do
    let (p, q) ← queueCall w.q.queueDeq
    let packets := copyDhost w.packets hdr entry.mac
    let sent := sendPacket (← interfaceIndex bestRoute.interface) (packets p)
    if q.queueEmpty then return (⟨q, packets⟩, [sent])
    let _ ← queueCall q.queueTop
    match ← getBestRoute rt (ipDaddr (packets hdr).payload) with
    | none => throw .nullPointer -- best_route->next_hop
    | some bestRoute =>
      let (w, rest) ←
        linkedDrainLoop hdr fuel ⟨q, packets⟩ bestRoute (getMac arptable bestRoute.nextHop)
      return (w, sent :: rest)

def linkedArpReply (fuel : Nat) (w : Waiting) : Except Fault (Waiting × List Transmission) := do
  if w.q.queueEmpty then return (w, [])
  let p ← queueCall w.q.queueTop
  match ← getBestRoute rt (ipDaddr (w.packets p).payload) with
  | none => throw .nullPointer -- best_route->next_hop
  | some bestRoute =>
    linkedDrainLoop rt arptable p fuel w bestRoute (getMac arptable bestRoute.nextHop)

end Code

/-- The queue points to distinct places, at `as`, and the packets there are `ps`. -/
structure Waiting.Holds (w : Waiting) (as : List Address) (ps : List Packet) : Prop where
  queue : w.q.Holds as
  distinct : as.Nodup
  packets : as.map w.packets = ps

variable {env : Interfaces} {rt : Rtable} {w : Waiting} {as : List Address} {ps : List Packet}

theorem map_update_of_not_mem {β : Type} {f : Address → β} {p : Address} (h : p ∉ as) (b : β) :
    as.map (Function.update f p b) = as.map f := by
  apply List.map_congr_left
  intro a ha
  apply Function.update_of_ne
  rintro rfl
  exact h ha

theorem Waiting.Holds.enqueue (h : w.Holds as ps) (malloc : Malloc (Node Address)) {p : Address}
    (hp : p ∉ as) (m : Packet) :
    ∃ w', w.enqueue malloc p m = .ok w' ∧ w'.Holds (as ++ [p]) (ps ++ [m]) := by
  obtain ⟨q', hq', hholds⟩ := h.queue.queueEnq malloc p
  refine ⟨⟨q', Function.update w.packets p m⟩, ?_, hholds, ?_, ?_⟩
  · rw [Waiting.enqueue, hq']
    rfl
  · exact h.distinct.append (List.nodup_singleton p) (by simpa using hp)
  · rw [List.map_append, map_update_of_not_mem hp, h.packets]
    simp

theorem exists_holds (ps : List Packet) : ∃ w : Waiting, w.Holds (List.range ps.length) ps := by
  induction ps using List.reverseRecOn with
  | nil =>
    refine ⟨⟨.queueCreate, fun _ => getPacket (fun _ => 0) 0 []⟩, ?_, List.nodup_nil, rfl⟩
    exact LinkedQueue.holds_queueCreate
  | append_singleton ps m ih =>
    obtain ⟨w, hw⟩ := ih
    obtain ⟨w', -, hw'⟩ := hw.enqueue (.lowest _) List.not_mem_range_self m
    rw [← List.range_succ] at hw'
    exact ⟨w', by simpa using hw'⟩

section Loop

variable {arptable : List ArptableEntry} {route : RtableEntry} {entry : ArptableEntry}
  {out : Fin routerNumInterfaces} {hdr p : Address}

theorem bestRoute_copyDhost (packets : Address → Packet) (mac : Mac) :
    bestRoute rt (ipDaddr (copyDhost packets hdr mac hdr).payload)
      = bestRoute rt (ipDaddr (packets hdr).payload) := by
  rw [copyDhost, Function.update_self, Packet.addressedTo, ipDaddr_setEtherDhost]

theorem linkedDrainLoop_last (hout : interfaceIndex route.interface = .ok out)
    (hq : w.q.Holds [p]) (fuel : Nat) :
    ∃ w', w'.Holds [] [] ∧ linkedDrainLoop rt arptable hdr (fuel + 1) w route (some entry)
      = .ok (w', [sendPacket out (copyDhost w.packets hdr entry.mac p)]) := by
  obtain ⟨q, hdeq, hrest⟩ := hq.queueDeq
  refine ⟨⟨q, copyDhost w.packets hdr entry.mac⟩, ⟨hrest, List.nodup_nil, rfl⟩, ?_⟩
  simp only [linkedDrainLoop, hdeq, queueCall, hout, hrest.queueEmpty_eq, ok_bind, pure_eq_ok]
  rfl

theorem linkedDrainLoop_succ (hout : interfaceIndex route.interface = .ok out)
    (hentry : getMac arptable route.nextHop = some entry) (hq : w.q.Holds (p :: p' :: as))
    (hroute : bestRoute rt (ipDaddr (w.packets hdr).payload) = some route) (fuel : Nat) :
    ∃ w' : Waiting, w'.q.Holds (p' :: as) ∧ w'.packets = copyDhost w.packets hdr entry.mac ∧
      linkedDrainLoop rt arptable hdr (fuel + 1) w route (some entry) =
        (linkedDrainLoop rt arptable hdr fuel w' route (some entry)).map fun r =>
          (r.1, sendPacket out (w'.packets p) :: r.2) := by
  obtain ⟨q, hdeq, hrest⟩ := hq.queueDeq
  refine ⟨⟨q, copyDhost w.packets hdr entry.mac⟩, hrest, rfl, ?_⟩
  rw [linkedDrainLoop, hdeq]
  simp only [queueCall, hout, hrest.queueEmpty_eq, hrest.queueTop, getBestRoute_eq,
    bestRoute_copyDhost, hroute, hentry, ok_bind, pure_eq_ok, List.isEmpty_cons, Bool.false_eq_true,
    if_false]
  rfl

theorem linkedDrainLoop_eq (hout : interfaceIndex route.interface = .ok out)
    (hentry : getMac arptable route.nextHop = some entry) (hq : w.q.Holds (p :: as))
    (hhdr : hdr ∉ as) (hroute : bestRoute rt (ipDaddr (w.packets hdr).payload) = some route)
    {fuel : Nat} (hfuel : as.length < fuel) :
    ∃ w', w'.Holds [] [] ∧ linkedDrainLoop rt arptable hdr fuel w route (some entry) = .ok (w',
      sendPacket out (copyDhost w.packets hdr entry.mac p) ::
        (as.map w.packets).map (sendPacket out)) := by
  obtain ⟨fuel, rfl⟩ : ∃ n, fuel = n + 1 := ⟨fuel - 1, by omega⟩
  induction as generalizing p w fuel with
  | nil => exact linkedDrainLoop_last hout hq fuel
  | cons p' as ih =>
    obtain ⟨w', hq', hpackets, hstep⟩ := linkedDrainLoop_succ hout hentry hq hroute fuel
    obtain ⟨hne, hhdr'⟩ := List.ne_and_not_mem_of_not_mem_cons hhdr
    have hroute' : bestRoute rt (ipDaddr (w'.packets hdr).payload) = some route := by
      rw [hpackets, bestRoute_copyDhost, hroute]
    obtain ⟨n, rfl⟩ : ∃ n, fuel = n + 1 := ⟨fuel - 1, by rw [List.length_cons] at hfuel; omega⟩
    obtain ⟨w'', hw'', hloop⟩ := ih hq' hhdr' hroute' n (by simpa using hfuel)
    refine ⟨w'', hw'', ?_⟩
    rw [hstep, hloop, copyDhost, Function.update_of_ne (Ne.symm hne), hpackets, copyDhost,
      map_update_of_not_mem hhdr', Function.update_of_ne (Ne.symm hne)]
    rfl

end Loop

section Branch

variable {s : State}

theorem linkedArpReply_eq (hs : QueueRouted rt s) (hw : w.Holds as s.q) (spa : Word32) (sha : Mac)
    {fuel : Nat} (hfuel : s.q.length ≤ fuel) :
    ∃ s' sent, arpReplyReceived rt s spa sha = .ok (s', sent) ∧
      ∃ w' as', linkedArpReply rt (addToArptable s.arptable spa sha) fuel w = .ok (w', sent) ∧
        w'.Holds as' s'.q := by
  have hempty := hw.queue.queueEmpty_eq
  cases hq : s.q with
  | nil =>
    have has : as = [] := List.map_eq_nil_iff.mp (hw.packets.trans hq)
    refine ⟨_, _, arpReplyReceived_nil hq spa sha, w, as, ?_, hw⟩
    rw [linkedArpReply, hempty, has]
    rfl
  | cons front behind =>
    obtain ⟨route, out, hroute, hout⟩ := hs front (by simp [hq])
    refine ⟨_, _, arpReplyReceived_cons hq hroute hout spa sha, ?_⟩
    obtain ⟨p, rest, rfl, hfront, hbehind⟩ := List.map_eq_cons_iff.mp (hw.packets.trans hq)
    have hstart : linkedArpReply rt (addToArptable s.arptable spa sha) fuel w
        = linkedDrainLoop rt (addToArptable s.arptable spa sha) p fuel w route
          (getMac (addToArptable s.arptable spa sha) route.nextHop) := by
      rw [linkedArpReply, hempty]
      simp only [List.isEmpty_cons, Bool.false_eq_true, if_false, hw.queue.queueTop, queueCall,
        getBestRoute_eq, hfront, hroute, ok_bind]
    rw [hstart]
    cases hentry : getMac (addToArptable s.arptable spa sha) route.nextHop with
    | none =>
      refine ⟨w, p :: rest, ?_, hw⟩
      cases fuel <;> rfl
    | some entry =>
      have hlength : rest.length < fuel := by
        rw [hq, ← hbehind, List.length_cons, List.length_map] at hfuel
        exact hfuel
      obtain ⟨w', hw', hloop⟩ := linkedDrainLoop_eq hout hentry hw.queue
        (List.nodup_cons.mp hw.distinct).1 (hfront ▸ hroute) hlength
      refine ⟨w', [], ?_, hw'⟩
      rw [hloop, copyDhost, Function.update_self, hfront, hbehind]
      rfl

end Branch

/-- In every reachable state all that waits in the queue has a route, and an ARP reply is handled
to its end: over the list, and over any cells that hold its packets.  There `queue_top` and
`queue_deq` find a packet and no freed cell at every call, and the lookup finds a route. -/
theorem arpReply_completes {s : State} (hs : Reachable env rt s) {a : Arrival}
    (hreply : IsArpReply (buffer s a)) :
    (∀ p ∈ s.q, ∃ route, getBestRoute rt (ipDaddr p.payload) = .ok (some route)) ∧
      ∃ s' sent, mainStep env rt s a.1 a.2 = .ok (s', sent) ∧
        ∀ w as fuel, Waiting.Holds w as s.q → s.q.length ≤ fuel →
          ∃ w' as', linkedArpReply rt (learnt s a) fuel w = .ok (w', sent) ∧ w'.Holds as' s'.q := by
  constructor
  · intro p hp
    obtain ⟨route, out, hroute, -⟩ := hs.queueRouted p hp
    exact ⟨route, by rw [getBestRoute_eq, hroute]⟩
  · have hq : QueueRouted rt { s with m := buffer s a } := hs.queueRouted
    obtain ⟨w₀, hw₀⟩ := exists_holds s.q
    obtain ⟨s', sent, hrun, -⟩ :=
      linkedArpReply_eq hq hw₀ (arpSpa (buffer s a)) (arpSha (buffer s a)) le_rfl
    refine ⟨s', sent, (mainStep_arpReply rfl hreply).trans hrun, fun w as fuel hw hfuel => ?_⟩
    obtain ⟨s'', sent', hrun', hlinked⟩ :=
      linkedArpReply_eq hq hw (arpSpa (buffer s a)) (arpSha (buffer s a)) hfuel
    obtain ⟨rfl, rfl⟩ := Prod.mk.inj (Except.ok.inj (hrun.symm.trans hrun'))
    exact hlinked

theorem arpReply_completes_twoWaiting :
    Reachable exampleInterfaces defaultRtable twoWaiting ∧ IsArpReply replyBuffer ∧
      (∀ p ∈ twoWaiting.q, ∃ route,
        getBestRoute defaultRtable (ipDaddr p.payload) = .ok (some route)) ∧
      ∃ s' sent, mainStep exampleInterfaces defaultRtable twoWaiting 0 replyFrame
          = .ok (s', sent) ∧
        ∀ w as fuel, Waiting.Holds w as twoWaiting.q → twoWaiting.q.length ≤ fuel →
          ∃ w' as', linkedArpReply defaultRtable (learnt twoWaiting (0, replyFrame)) fuel w
            = .ok (w', sent) ∧ w'.Holds as' s'.q :=
  ⟨reachable_twoWaiting, isArpReply_replyBuffer,
    arpReply_completes (a := (0, replyFrame)) reachable_twoWaiting isArpReply_replyBuffer⟩

end PCom.Router
