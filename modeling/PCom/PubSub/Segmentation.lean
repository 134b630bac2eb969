import PCom.Lib.Framing
import PCom.PubSub.Subscriber

/-! Messages on a TCP stream: what becomes of them when `recv` returns less than was asked for. -/

namespace PCom.PubSub

open Lib

/-- Both calls of `recv` on a client socket ask for one message. -/
def serverReceiver : Receiver Unit Byte (List Byte) where
  want _ := msgLen
  view := received
  next _ _ := ()

theorem serverReceiver_whole {ms : List (List Byte)} (h : ∀ m ∈ ms, m.length = msgLen) :
    serverReceiver.Whole () ms := by
  induction ms with
  | nil => trivial
  | cons m ms ih =>
    have hm := h m List.mem_cons_self
    refine ⟨⟨?_, hm⟩, ih fun m' hm' => h m' (List.mem_cons_of_mem _ hm')⟩
    rw [hm]
    decide

/-- Once a connection is open, the server acts on what its reads return, one by one. -/
def Server.recvAll (s : Server) (i : Nat) : List (List Byte) → Except Stop (Server × List Send)
  | [] => .ok (s, [])
  | c :: cs => do
    let (s, sent) ← s.recvBranch i c
    let (s, rest) ← s.recvAll i cs
    return (s, sent ++ rest)

theorem recvBranch_congr {s : Server} {i : Nat} {bs cs : List Byte} (hb : 0 < bs.length)
    (hc : 0 < cs.length) (h : received bs = received cs) :
    s.recvBranch i bs = s.recvBranch i cs := by
  simp only [Server.recvBranch]
  rw [if_neg (List.ne_nil_of_length_pos hb), if_neg (List.ne_nil_of_length_pos hc), h]

theorem recvAll_eq_of_trace_eq {cs ms : List (List Byte)} (hcs : serverReceiver.Cuts () cs)
    (hms : serverReceiver.Cuts () ms) (h : serverReceiver.trace () cs = serverReceiver.trace () ms)
    (s : Server) (i : Nat) : s.recvAll i cs = s.recvAll i ms := by
  induction cs generalizing s ms with
  | nil =>
    cases ms with
    | nil => rfl
    | cons m ms => cases h
  | cons c cs ih =>
    cases ms with
    | nil => cases h
    | cons m ms =>
      obtain ⟨hhead, htail⟩ := List.cons.inj h
      have hview : received c = received m := (Prod.mk.inj hhead).2
      have hrest : ∀ s : Server, s.recvAll i cs = s.recvAll i ms := ih hcs.2 hms.2 htail
      simp only [Server.recvAll, recvBranch_congr hcs.1.1 hms.1.1 hview, hrest]

/-- What the server sends to a subscriber; a request is answered with CONF or ERR. -/
inductive ServerMsg
  | packet (pkt : Packet) (uninit : Nat)
  | answer (granted : Bool)
  | exit

/-- The calls of `send` for a message. -/
def ServerMsg.writes : ServerMsg → List (List Byte)
  | .packet pkt uninit => [pkt.header uninit, pkt.body uninit]
  | .answer granted => [protoMsg (if granted then confMsg else errMsg) []]
  | .exit => [protoMsg exitMsg []]

/-- Where the subscriber reads next: `request` is the one its user makes before that, if any. -/
def Mode.site (request : Option Byte) : Mode → Mode
  | .main => request.elim .main .feedback
  | mode => mode

/-- `asks n` is the request the user makes before read number `n`. -/
def subscriberReceiver (asks : Nat → Option Byte) : Receiver (Nat × Mode) Byte (List Byte) where
  want st := st.2.want
  view := received
  next st buffer := (st.1 + 1, ((st.2.site (asks st.1)).act buffer).elim .stopped (·.1))

/-- No request is pending when a packet comes in, and nothing comes after an exit message.  The
copy of a content whose size was never set stays inside the packet. -/
def Aligned (asks : Nat → Option Byte) : Nat → List ServerMsg → Prop
  | _, [] => True
  | n, .packet pkt uninit :: ms =>
    (asks n = none ∧ pkt.contentSize uninit ≤ contentLen + 3) ∧ Aligned asks (n + 2) ms
  | n, .answer _ :: ms => Aligned asks (n + 1) ms
  | _, .exit :: ms => ms = []

/-- A message of 52 bytes that is no exit message and announces no packet is read in `main` or as
feedback, and the subscriber is in `main` again. -/
theorem act_site_answer (request : Option Byte) (granted : Bool) :
    ((Mode.site request .main).act
      (received (protoMsg (if granted then confMsg else errMsg) []))).elim .stopped (·.1)
        = Mode.main := by
  cases request with
  | none => cases granted <;> rfl
  | some type => rfl

section Subscriber

variable {asks : Nat → Option Byte} {n : Nat}

theorem next_header {pkt : Packet} {uninit : Nat} (hask : asks n = none)
    (hsize : pkt.contentSize uninit ≤ contentLen + 3) :
    (subscriberReceiver asks).next (n, .main) (received (pkt.header uninit))
      = (n + 1, .body (pkt.sizes uninit)) := by
  simp only [subscriberReceiver, hask, Mode.site, Option.elim_none, act_header hsize,
    Option.elim_some]

theorem next_body {pkt : Packet} {uninit : Nat}
    (hsize : pkt.contentSize uninit ≤ contentLen + 3) :
    (subscriberReceiver asks).next (n, .body (pkt.sizes uninit)) (received (pkt.body uninit))
      = (n + 1, .main) := by
  simp only [subscriberReceiver, Mode.site, act_body hsize, Option.elim_some]

theorem next_answer (granted : Bool) :
    (subscriberReceiver asks).next (n, .main)
      (received (protoMsg (if granted then confMsg else errMsg) [])) = (n + 1, .main) :=
  Prod.ext rfl (act_site_answer (asks n) granted)

theorem whole_cons_msg {m : List Byte} {ms : List (List Byte)} (hm : m.length = msgLen) :
    (subscriberReceiver asks).Whole (n, .main) (m :: ms) ↔
      (subscriberReceiver asks).Whole ((subscriberReceiver asks).next (n, .main) (received m)) ms :=
  and_iff_right ⟨by rw [hm]; decide, hm⟩

theorem whole_cons_body {pkt : Packet} {uninit : Nat} {ms : List (List Byte)}
    (hsize : pkt.contentSize uninit ≤ contentLen + 3) :
    (subscriberReceiver asks).Whole (n, .body (pkt.sizes uninit)) (pkt.body uninit :: ms) ↔
      (subscriberReceiver asks).Whole ((subscriberReceiver asks).next
        (n, .body (pkt.sizes uninit)) (received (pkt.body uninit))) ms := by
  have hbody := Packet.length_body hsize
  have hpos := Packet.toReceive_pos uninit pkt
  exact and_iff_right ⟨by omega, hbody⟩

theorem final_cons (mode : Mode) (m : List Byte) (ms : List (List Byte)) :
    (subscriberReceiver asks).final (n, mode) (m :: ms)
      = (subscriberReceiver asks).final
        ((subscriberReceiver asks).next (n, mode) (received m)) ms := rfl

theorem subscriberReceiver_whole {ms : List ServerMsg} (h : Aligned asks n ms) :
    (subscriberReceiver asks).Whole (n, .main) (ms.flatMap ServerMsg.writes) ∧
      (.exit ∉ ms → ((subscriberReceiver asks).final (n, .main)
        (ms.flatMap ServerMsg.writes)).2 = .main) := by
  induction ms generalizing n with
  | nil => exact ⟨trivial, fun _ => rfl⟩
  | cons m ms ih =>
    rw [List.flatMap_cons]
    cases m with
    | packet pkt uninit =>
      obtain ⟨⟨hask, hsize⟩, htail⟩ := h
      obtain ⟨hwhole, hfinal⟩ := ih htail
      simp only [ServerMsg.writes, List.cons_append, List.nil_append]
      rw [whole_cons_msg (length_header uninit pkt), final_cons, next_header hask hsize,
        whole_cons_body hsize, final_cons, next_body hsize]
      exact ⟨hwhole, fun hexit => hfinal fun hmem => hexit (List.mem_cons_of_mem _ hmem)⟩
    | answer granted =>
      obtain ⟨hwhole, hfinal⟩ := ih h
      simp only [ServerMsg.writes, List.cons_append, List.nil_append]
      rw [whole_cons_msg (length_protoMsg _), final_cons, next_answer]
      exact ⟨hwhole, fun hexit => hfinal fun hmem => hexit (List.mem_cons_of_mem _ hmem)⟩
    | exit =>
      obtain rfl : ms = [] := h
      exact ⟨(whole_cons_msg (length_protoMsg _)).mpr trivial,
        fun hexit => absurd List.mem_cons_self hexit⟩

end Subscriber

/-- Reads that all return what they asked for show either side exactly the messages that were
sent to it, and no other reads do; only an exit message, which is all zeros, can be read short
without harm. -/
theorem segmentation_iff {reqs reqReads : List (List Byte)} (hreqs : ∀ m ∈ reqs, m.length = msgLen)
    (hreqDel : serverReceiver.Delivers () reqReads reqs.flatten) {asks : Nat → Option Byte}
    {ms : List ServerMsg} {reads : List (List Byte)} (hms : Aligned asks 0 ms)
    (hdel : (subscriberReceiver asks).Delivers (0, .main) reads
      (ms.flatMap ServerMsg.writes).flatten) :
    (serverReceiver.trace () reqReads = serverReceiver.trace () reqs ↔
      serverReceiver.Whole () reqReads) ∧
    ((subscriberReceiver asks).Whole (0, .main) reads →
      (subscriberReceiver asks).trace (0, .main) reads
        = (subscriberReceiver asks).trace (0, .main) (ms.flatMap ServerMsg.writes)) ∧
    (.exit ∉ ms → ((subscriberReceiver asks).trace (0, .main) reads
        = (subscriberReceiver asks).trace (0, .main) (ms.flatMap ServerMsg.writes) ↔
      (subscriberReceiver asks).Whole (0, .main) reads)) := by
  have hserver := serverReceiver_whole hreqs
  have hgo : serverReceiver.want (serverReceiver.final () reqs) ≠ 0 := by
    change msgLen ≠ 0
    decide
  obtain ⟨hsubscriber, hfinal⟩ := subscriberReceiver_whole hms
  refine ⟨⟨Receiver.whole_of_trace_eq hserver hreqDel hgo,
    Receiver.trace_eq_of_whole hserver hreqDel⟩,
    Receiver.trace_eq_of_whole hsubscriber hdel, fun hexit => ⟨?_,
    Receiver.trace_eq_of_whole hsubscriber hdel⟩⟩
  refine Receiver.whole_of_trace_eq hsubscriber hdel ?_
  change ((subscriberReceiver asks).final _ _).2.want ≠ 0
  rw [hfinal hexit]
  decide

def shortRequests : List (List Byte) :=
  [idRequest [65], subsRequest subMsg [0x75] true, subsRequest unsubMsg [0x75] false]

def shortRequestReads : List (List Byte) :=
  [idRequest [65], (subsRequest subMsg [0x75] true).take 20,
    (subsRequest subMsg [0x75] true).drop 20, subsRequest unsubMsg [0x75] false]

def shortPacket : Packet :=
  .ofDatagram 1 2 (zeroPad topicLen [0x75] ++ 1 :: [0x01, 0x2c])

def shortReplies : List ServerMsg := [.answer true, .packet shortPacket 0, .answer true]

def shortAsks (n : Nat) : Option Byte :=
  if n = 0 then some subMsg else if n = 3 then some unsubMsg else none

def shortReplyReads : List (List Byte) :=
  [protoMsg confMsg [], shortPacket.header 0, (shortPacket.body 0).take 4,
    (shortPacket.body 0).drop 4, protoMsg confMsg []]

set_option maxRecDepth 20000 in
theorem segmentation_iff_reply :
    (serverReceiver.trace () shortRequestReads = serverReceiver.trace () shortRequests ↔
      serverReceiver.Whole () shortRequestReads) ∧
    ((subscriberReceiver shortAsks).Whole (0, .main) shortReplyReads →
      (subscriberReceiver shortAsks).trace (0, .main) shortReplyReads
        = (subscriberReceiver shortAsks).trace (0, .main)
          (shortReplies.flatMap ServerMsg.writes)) ∧
    (.exit ∉ shortReplies → ((subscriberReceiver shortAsks).trace (0, .main) shortReplyReads
        = (subscriberReceiver shortAsks).trace (0, .main)
          (shortReplies.flatMap ServerMsg.writes) ↔
      (subscriberReceiver shortAsks).Whole (0, .main) shortReplyReads)) := by
  have hreqs : ∀ m ∈ shortRequests, m.length = msgLen := by decide
  have hreqDel : serverReceiver.Delivers () shortRequestReads shortRequests.flatten :=
    ⟨⟨by decide, by decide, by decide, by decide, trivial⟩, .inl (by decide)⟩
  have hms : Aligned shortAsks 0 shortReplies := ⟨⟨by decide, by decide⟩, trivial⟩
  have hdel : (subscriberReceiver shortAsks).Delivers (0, .main) shortReplyReads
      (shortReplies.flatMap ServerMsg.writes).flatten :=
    ⟨⟨by decide, by decide, by decide, by decide, by decide, trivial⟩, .inl (by decide)⟩
  exact segmentation_iff hreqs hreqDel hms hdel

/-- A request that comes in two pieces is taken for two messages. -/
theorem split_request_misread :
    serverReceiver.Delivers () [(subsRequest subMsg [0x75] true).take 20,
        (subsRequest subMsg [0x75] true).drop 20] (subsRequest subMsg [0x75] true) ∧
      serverReceiver.trace () [(subsRequest subMsg [0x75] true).take 20,
          (subsRequest subMsg [0x75] true).drop 20]
        ≠ serverReceiver.trace () [subsRequest subMsg [0x75] true] := by
  refine ⟨⟨⟨by decide, by decide, trivial⟩, .inl (by decide)⟩, fun h => ?_⟩
  have hlen := congrArg List.length h
  exact absurd hlen (by decide)

end PCom.PubSub
