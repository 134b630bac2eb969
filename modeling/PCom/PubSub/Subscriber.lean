import Mathlib.Data.List.GetD
import PCom.PubSub.ServerLaws

/-! What `subscriber.cpp` does with the results of its three calls of `recv`. -/

namespace PCom.PubSub

open Lib

/-- Where the subscriber waits: for a message in `main`, for the feedback to a request in
`sub_unsub`, or for the packet that a header announced. -/
inductive Mode
  | main
  | feedback (type : Byte)
  | body (sz : SizePacket)
  | stopped
  deriving DecidableEq

inductive Feedback
  | confirmed | refused | unexpected
  deriving DecidableEq

def Feedback.ofType (type : Byte) : Feedback :=
  if type = confMsg then .confirmed else if type = errMsg then .refused else .unexpected

/-- What it prints: a packet, the outcome of a request of some type, or a complaint. -/
inductive Print
  | packet (pkt : Packet)
  | outcome (type : Byte) (feedback : Feedback)
  | unexpected
  deriving DecidableEq

namespace Mode

def want : Mode → Nat
  | .main | .feedback _ => msgLen
  | .body sz => sz.toReceive
  | .stopped => 0

/-- What happens with the buffer after `recv`, unless bytes are written outside of it or of the
fields of the packet that is rebuilt. -/
def act : Mode → List Byte → Option (Mode × List Print)
  | .main, buffer =>
    if msgType buffer = exitMsg then some (.stopped, [])
    else if msgType buffer = pktMsg then some (.body (.ofBytes (buffer.drop 1)), [])
    else some (.main, [.unexpected])
  | .feedback type, buffer => some (.main, [.outcome type (.ofType (msgType buffer))])
  | .body sz, buffer =>
    if packetLen < buffer.length then none
    else (rebuildPacket sz buffer).map fun pkt => (.main, [.packet pkt])
  | .stopped, _ => some (.stopped, [])

end Mode

/-- What is left of a packet after its way through the header and the body: the topic and the
content, as far as they were sent. -/
def Packet.trimmed (uninit : Nat) (pkt : Packet) : Packet where
  udpClientIp := pkt.udpClientIp
  udpClientPort := pkt.udpClientPort
  udpMsg := zeroPad topicLen (pkt.topic.take pkt.topicSize) ++ [pkt.dataType] ++
    zeroPad contentLen (pkt.content.take (min (pkt.contentSize uninit) contentLen))
  size := by
    have htopic : (pkt.topic.take pkt.topicSize).length ≤ topicLen :=
      (List.length_take_le' _ _).trans (List.length_take_le _ _)
    have hcontent : (pkt.content.take (min (pkt.contentSize uninit) contentLen)).length ≤ contentLen :=
      (List.length_take_le _ _).trans (Nat.min_le_right _ _)
    rw [List.length_append, List.length_append, length_zeroPad htopic, length_zeroPad hcontent]
    rfl

namespace Packet

@[simp] theorem length_topic (pkt : Packet) : pkt.topic.length = topicLen := by
  rw [topic, List.length_take, pkt.size]
  rfl

@[simp] theorem length_content (pkt : Packet) : pkt.content.length = contentLen := by
  rw [content, List.length_drop, pkt.size]
  rfl

theorem topicSize_le (pkt : Packet) : pkt.topicSize ≤ topicLen := by
  rw [topicSize]
  split
  · omega
  · exact le_rfl

theorem length_body {uninit : Nat} {pkt : Packet} (h : pkt.contentSize uninit ≤ contentLen + 3) :
    (pkt.body uninit).length = (pkt.sizes uninit).toReceive := by
  have htopic := pkt.topicSize_le
  simp only [body, sizes, bytes32, bytes16, List.length_append, List.length_take, length_topic,
    length_content, List.length_replicate, List.length_cons, List.length_nil]
  omega

theorem toReceive_le {uninit : Nat} {pkt : Packet} (h : pkt.contentSize uninit ≤ contentLen + 3) :
    (pkt.sizes uninit).toReceive ≤ packetLen := by
  have htopic := pkt.topicSize_le
  simp only [sizes, topicLen, contentLen, packetLen] at *
  omega

theorem toReceive_pos (uninit : Nat) (pkt : Packet) : 0 < (pkt.sizes uninit).toReceive := by
  simp only [sizes]
  omega

end Packet

theorem SizePacket.ofBytes_append {sz : SizePacket} (hr : sz.toReceive < 2 ^ 64)
    (ht : sz.topicSize < 2 ^ 64) (hc : sz.contentSize < 2 ^ 64) (rest : List Byte) :
    SizePacket.ofBytes (sz.bytes ++ rest) = sz := by
  have h8 (n : Nat) : (leBytes 8 n).length = 8 := length_leBytes 8 n
  have hpow : (256 : Nat) ^ 8 = 2 ^ 64 := by norm_num
  simp only [ofBytes, bytes, List.append_assoc]
  rw [List.take_left' (h8 _), List.drop_left' (h8 _), List.take_left' (h8 _), ← List.append_assoc,
    List.drop_left' (by simp), List.take_left' (h8 _), leValue_leBytes (hpow ▸ hr),
    leValue_leBytes (hpow ▸ ht), leValue_leBytes (hpow ▸ hc)]

theorem ofBytes_header {uninit : Nat} {pkt : Packet} (h : pkt.contentSize uninit ≤ contentLen + 3) :
    SizePacket.ofBytes ((received (pkt.header uninit)).drop 1) = pkt.sizes uninit := by
  have htotal := Packet.toReceive_le h
  have htopic := pkt.topicSize_le
  have hsizes : (received (pkt.header uninit)).drop 1 = (pkt.sizes uninit).bytes ++
      (List.replicate (msgLen - (pktMsg :: (pkt.sizes uninit).bytes).length) 0#8 ++
        List.replicate (packetLen - (pkt.header uninit).length) 0#8) := by
    simp only [received, Packet.header, protoMsg, zeroPad, List.cons_append, List.drop_one,
      List.tail_cons, List.append_assoc]
  rw [hsizes]
  simp only [packetLen, topicLen, contentLen] at htotal htopic h
  refine SizePacket.ofBytes_append ?_ ?_ ?_ _
  · omega
  · change pkt.topicSize < _
    omega
  · change pkt.contentSize uninit < _
    omega

theorem fields_of_layout {buffer first topic rest : List Byte} {type : Byte}
    (h : buffer = first ++ (topic ++ type :: rest)) (hfirst : first.length = 6) :
    (buffer.drop 6).take topic.length = topic ∧ buffer.getD (6 + topic.length) 0 = type ∧
      buffer.drop (7 + topic.length) = rest := by
  have hdrop : buffer.drop 6 = topic ++ type :: rest := by
    rw [h]
    exact List.drop_left' hfirst
  refine ⟨?_, ?_, ?_⟩
  · rw [hdrop, List.take_left]
  · rw [h, List.getD_append_right _ _ _ _ (by omega), hfirst, Nat.add_sub_cancel_left,
      List.getD_append_right _ _ _ _ le_rfl, Nat.sub_self, List.getD_cons_zero]
  · have hsplit : 7 + topic.length = 6 + (topic.length + 1) := by omega
    rw [hsplit, ← List.drop_drop, hdrop, ← List.drop_drop, List.drop_left, List.drop_one,
      List.tail_cons]

@[simp] theorem length_take_topic (pkt : Packet) :
    (pkt.topic.take pkt.topicSize).length = pkt.topicSize := by
  rw [List.length_take, Packet.length_topic]
  exact Nat.min_eq_left pkt.topicSize_le

theorem take_sentContent {uninit : Nat} {pkt : Packet}
    (h : pkt.contentSize uninit ≤ contentLen + 3) (zeros : List Byte) :
    ((pkt.content ++ List.replicate 3 0#8).take (pkt.contentSize uninit) ++ zeros).take
        (min (pkt.contentSize uninit) contentLen)
      = pkt.content.take (min (pkt.contentSize uninit) contentLen) := by
  have hlen := pkt.length_content
  have hsent : ((pkt.content ++ List.replicate 3 0#8).take (pkt.contentSize uninit)).length
      = pkt.contentSize uninit := by
    rw [List.length_take, List.length_append, hlen, List.length_replicate]
    exact Nat.min_eq_left h
  rw [List.take_append_of_le_length (by omega), List.take_take,
    List.take_append_of_le_length (by omega)]
  congr 1
  omega

/-- The body gives it the packet, as far as it was sent. -/
theorem rebuildPacket_body {uninit : Nat} {pkt : Packet}
    (h : pkt.contentSize uninit ≤ contentLen + 3) :
    rebuildPacket (pkt.sizes uninit) (received (pkt.body uninit)) = some (pkt.trimmed uninit) := by
  set zeros := List.replicate (packetLen - (pkt.body uninit).length) 0#8
  have hbuffer : received (pkt.body uninit) = (bytes32 pkt.udpClientIp ++ bytes16 pkt.udpClientPort) ++
      (pkt.topic.take pkt.topicSize ++ pkt.dataType ::
        ((pkt.content ++ List.replicate 3 0#8).take (pkt.contentSize uninit) ++ zeros)) := by
    simp only [received, zeroPad, Packet.body, List.append_assoc, List.cons_append,
      List.nil_append, zeros]
  have hip : le32 ((received (pkt.body uninit)).getD 0 0) ((received (pkt.body uninit)).getD 1 0)
      ((received (pkt.body uninit)).getD 2 0) ((received (pkt.body uninit)).getD 3 0)
        = pkt.udpClientIp := by
    rw [hbuffer]
    exact le32_bytes32 _
  have hport : le16 ((received (pkt.body uninit)).getD 4 0) ((received (pkt.body uninit)).getD 5 0)
      = pkt.udpClientPort := by
    rw [hbuffer]
    exact le16_bytes16 _
  obtain ⟨htopic, htype, hrest⟩ := fields_of_layout hbuffer rfl
  rw [length_take_topic] at htopic htype hrest
  rw [rebuildPacket, dif_pos ⟨pkt.topicSize_le, h⟩, Option.some.injEq, Packet.trimmed,
    Packet.mk.injEq]
  refine ⟨hip, hport, ?_⟩
  change zeroPad topicLen (((received (pkt.body uninit)).drop 6).take pkt.topicSize) ++
    [(received (pkt.body uninit)).getD (6 + pkt.topicSize) 0] ++
    zeroPad contentLen (((received (pkt.body uninit)).drop (7 + pkt.topicSize)).take
      (min (pkt.contentSize uninit) contentLen)) = _
  rw [htopic, htype, hrest, take_sentContent h]

@[simp] theorem msgType_header (uninit : Nat) (pkt : Packet) :
    msgType (received (pkt.header uninit)) = pktMsg := by
  rw [msgType_received, Packet.header, protoMsg, getD_zeroPad, List.getD_cons_zero]

theorem act_header {uninit : Nat} {pkt : Packet} (h : pkt.contentSize uninit ≤ contentLen + 3) :
    Mode.act .main (received (pkt.header uninit)) = some (.body (pkt.sizes uninit), []) := by
  rw [Mode.act, msgType_header, if_neg (by decide), if_pos rfl, ofBytes_header h]

theorem act_body {uninit : Nat} {pkt : Packet} (h : pkt.contentSize uninit ≤ contentLen + 3) :
    Mode.act (.body (pkt.sizes uninit)) (received (pkt.body uninit))
      = some (.main, [.packet (pkt.trimmed uninit)]) := by
  have hlen : (received (pkt.body uninit)).length = packetLen :=
    length_zeroPad ((Packet.length_body h).trans_le (Packet.toReceive_le h))
  rw [Mode.act, if_neg (by omega), rebuildPacket_body h]
  rfl

@[simp] theorem msgType_protoMsg (type : Byte) : msgType (received (protoMsg type [])) = type := by
  rw [msgType_received, protoMsg, getD_zeroPad, List.getD_cons_zero]

theorem act_feedback (type reply : Byte) :
    Mode.act (.feedback type) (received (protoMsg reply []))
      = some (.main, [.outcome type (.ofType reply)]) := by
  rw [Mode.act, msgType_protoMsg]

@[simp] theorem length_header (uninit : Nat) (pkt : Packet) : (pkt.header uninit).length = msgLen := by
  refine length_zeroPad ?_
  simp only [SizePacket.bytes, List.length_cons, List.length_append, length_leBytes]
  decide

@[simp] theorem length_protoMsg (type : Byte) : (protoMsg type []).length = msgLen := by
  cases type
  rfl

end PCom.PubSub
