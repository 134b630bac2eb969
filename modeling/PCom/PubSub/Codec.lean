import PCom.PubSub.Topics
import PCom.PubSub.Subscriber

/-! A packet on its way through `send_packet`, `rebuild_packet` and the printers. -/

namespace PCom.PubSub

open Lib

/-- What a printer takes out of the content, before it goes to the stream. -/
inductive Printed
  | int (negative : Bool) (num : Word32)
  | shortReal (num : Word16)
  | real (negative : Bool) (num : Word32) (pow : Byte)
  | string (str : Str)
  deriving DecidableEq

/-- The word at `content + sizeof(char)`, in host byte order. -/
def numAt1 (content : List Byte) : Word32 :=
  ntohl (le32 (content.getD 1 0) (content.getD 2 0) (content.getD 3 0) (content.getD 4 0))

def printInt (content : List Byte) : Printed := .int (content.getD 0 0 ≠ 0) (numAt1 content)

def printShortReal (content : List Byte) : Printed :=
  .shortReal (ntohs (le16 (content.getD 0 0) (content.getD 1 0)))

def printReal (content : List Byte) : Printed :=
  .real (content.getD 0 0 ≠ 0) (numAt1 content) (content.getD 5 0)

/-- A content that is full is followed by the padding, which is zero. -/
def printString (content : List Byte) : Printed := .string (cstr content)

def Packet.printed (pkt : Packet) : Option Printed :=
  if pkt.dataType = 0 then some (printInt pkt.content)
  else if pkt.dataType = 1 then some (printShortReal pkt.content)
  else if pkt.dataType = 2 then some (printReal pkt.content)
  else if pkt.dataType = 3 then some (printString pkt.content)
  else none

theorem printInt_congr {a b : List Byte} (h : ∀ i < 5, a.getD i 0 = b.getD i 0) :
    printInt a = printInt b := by
  simp only [printInt, numAt1, h, Nat.reduceLT]

theorem printShortReal_congr {a b : List Byte} (h : ∀ i < 2, a.getD i 0 = b.getD i 0) :
    printShortReal a = printShortReal b := by
  simp only [printShortReal, h, Nat.reduceLT]

theorem printReal_congr {a b : List Byte} (h : ∀ i < 6, a.getD i 0 = b.getD i 0) :
    printReal a = printReal b := by
  simp only [printReal, numAt1, h, Nat.reduceLT]

namespace Packet

theorem topicSize_eq (pkt : Packet) : pkt.topicSize = min (strlen pkt.topic + 1) topicLen := by
  have hlen := pkt.length_topic
  have hle := strlen_le pkt.topic
  have hsplit : pkt.udpMsg = pkt.topic ++ pkt.udpMsg.drop topicLen :=
    (List.take_append_drop topicLen pkt.udpMsg).symm
  by_cases h0 : 0#8 ∈ pkt.topic
  · have hstr : strlen pkt.udpMsg = strlen pkt.topic := by
      rw [hsplit, strlen, cstr_append_of_mem h0, strlen]
    rw [topicSize, hstr]
    split <;> omega
  · have htopic : strlen pkt.topic = topicLen := by
      rw [strlen, cstr_of_not_mem h0, hlen]
    have hstr : topicLen ≤ strlen pkt.udpMsg := by
      rw [hsplit, strlen, cstr_append_of_not_mem h0, List.length_append, hlen]
      exact Nat.le_add_right _ _
    rw [topicSize, if_neg (by omega), htopic]
    exact (Nat.min_eq_right (Nat.le_succ _)).symm

theorem contentSize_eq (uninit : Nat) (pkt : Packet) :
    pkt.contentSize uninit =
      if pkt.dataType = 0 then 5
      else if pkt.dataType = 1 then 2
      else if pkt.dataType = 2 then 6
      else if pkt.dataType = 3 then min (strlen pkt.content + 1) contentLen
      else uninit := by
  have hclamp : (if strlen pkt.content < contentLen then strlen pkt.content + 1 else contentLen)
      = min (strlen pkt.content + 1) contentLen := by
    split <;> omega
  rw [contentSize, hclamp]

end Packet

theorem contentSize_le {pkt : Packet} (h : pkt.Typed) (uninit : Nat) :
    pkt.contentSize uninit ≤ contentLen := by
  rw [Packet.contentSize_eq]
  rcases h.cases with htype | htype | htype | htype <;> simp [htype, contentLen]

namespace Packet

theorem length_sentTopic (pkt : Packet) :
    (zeroPad topicLen (pkt.topic.take pkt.topicSize)).length = topicLen :=
  length_zeroPad ((List.length_take_le' _ _).trans pkt.length_topic.le)

theorem udpMsg_trimmed (uninit : Nat) (pkt : Packet) :
    (pkt.trimmed uninit).udpMsg = zeroPad topicLen (pkt.topic.take pkt.topicSize) ++
      pkt.dataType :: zeroPad contentLen (pkt.content.take (min (pkt.contentSize uninit) contentLen)) :=
  List.append_assoc _ _ _

@[simp] theorem trimmed_topic (uninit : Nat) (pkt : Packet) :
    (pkt.trimmed uninit).topic = zeroPad topicLen (cstr pkt.topic) := by
  have hlen := pkt.length_topic
  rw [topic, udpMsg_trimmed, List.take_left' pkt.length_sentTopic, topicSize_eq,
    ← zeroPad_take_strlen hlen.le, ← List.take_take, List.take_of_length_le hlen.le]

@[simp] theorem trimmed_dataType (uninit : Nat) (pkt : Packet) :
    (pkt.trimmed uninit).dataType = pkt.dataType := by
  have hlen := pkt.length_sentTopic
  rw [dataType, udpMsg_trimmed, List.getD_append_right _ _ _ _ hlen.le, hlen, Nat.sub_self,
    List.getD_cons_zero]

theorem trimmed_content {uninit : Nat} {pkt : Packet} (h : pkt.contentSize uninit ≤ contentLen) :
    (pkt.trimmed uninit).content = zeroPad contentLen (pkt.content.take (pkt.contentSize uninit)) := by
  rw [content, udpMsg_trimmed, ← List.drop_drop, List.drop_left' pkt.length_sentTopic,
    List.drop_one, List.tail_cons, Nat.min_eq_left h]

@[simp] theorem trimmed_topicSize (uninit : Nat) (pkt : Packet) :
    (pkt.trimmed uninit).topicSize = pkt.topicSize := by
  rw [topicSize_eq, topicSize_eq, trimmed_topic, strlen, cstr_zeroPad, cstr_cstr, strlen]

theorem trimmed_cstr_content {uninit : Nat} {pkt : Packet} (h : pkt.dataType = 3) :
    cstr (pkt.trimmed uninit).content = cstr pkt.content := by
  have hsize : pkt.contentSize uninit = min (strlen pkt.content + 1) contentLen := by
    simp [contentSize_eq, h]
  have hlen := pkt.length_content
  have hfield : (pkt.trimmed uninit).content = zeroPad contentLen (cstr pkt.content) := by
    rw [trimmed_content (by omega), hsize, ← zeroPad_take_strlen hlen.le, ← List.take_take,
      List.take_of_length_le hlen.le]
  rw [hfield, cstr_zeroPad, cstr_cstr]

end Packet

theorem trimmed_contentSize {pkt : Packet} (h : pkt.Typed) (uninit u : Nat) :
    (pkt.trimmed uninit).contentSize u = pkt.contentSize uninit := by
  simp only [Packet.contentSize_eq, Packet.trimmed_dataType]
  rcases h.cases with htype | htype | htype | htype
  · simp [htype]
  · simp [htype]
  · simp [htype]
  · simp [htype, strlen, Packet.trimmed_cstr_content htype]

theorem trimmed_getD {pkt : Packet} (h : pkt.Typed) {uninit i : Nat}
    (hi : i < pkt.contentSize uninit) :
    (pkt.trimmed uninit).content.getD i 0 = pkt.content.getD i 0 := by
  rw [Packet.trimmed_content (contentSize_le h uninit), getD_zeroPad, List.getD_eq_getElem?_getD,
    List.getD_eq_getElem?_getD, List.getElem?_take_of_lt hi]

theorem trimmed_printed {pkt : Packet} (h : pkt.Typed) (uninit : Nat) :
    (pkt.trimmed uninit).printed = pkt.printed := by
  have hsize := pkt.contentSize_eq uninit
  have hbyte {n : Nat} (hn : pkt.contentSize uninit = n) : ∀ i < n,
      (pkt.trimmed uninit).content.getD i 0 = pkt.content.getD i 0 :=
    fun i hi => trimmed_getD h (hn ▸ hi)
  simp only [Packet.printed, Packet.trimmed_dataType]
  rcases h.cases with htype | htype | htype | htype
  · simpa [htype] using printInt_congr (hbyte (by simpa [htype] using hsize))
  · simpa [htype] using printShortReal_congr (hbyte (by simpa [htype] using hsize))
  · simpa [htype] using printReal_congr (hbyte (by simpa [htype] using hsize))
  · simp [htype, printString, Packet.trimmed_cstr_content htype]

theorem trimmed_sizes {pkt : Packet} (h : pkt.Typed) (uninit u : Nat) :
    (pkt.trimmed uninit).sizes u = pkt.sizes uninit := by
  rw [Packet.sizes, Packet.sizes, Packet.trimmed_topicSize, trimmed_contentSize h]

theorem trimmed_body {pkt : Packet} (h : pkt.Typed) (uninit u : Nat) :
    (pkt.trimmed uninit).body u = pkt.body uninit := by
  have hsize := contentSize_le h uninit
  have htopic : (pkt.trimmed uninit).topic.take pkt.topicSize = pkt.topic.take pkt.topicSize := by
    rw [Packet.topic, Packet.udpMsg_trimmed, List.take_left' pkt.length_sentTopic]
    exact take_zeroPad_take (pkt.topicSize_le.trans pkt.length_topic.ge)
  have hcontent : (pkt.trimmed uninit).content.take (pkt.contentSize uninit)
      = pkt.content.take (pkt.contentSize uninit) := by
    rw [Packet.trimmed_content hsize]
    exact take_zeroPad_take (hsize.trans pkt.length_content.ge)
  have hsent (p : Packet) : (p.content ++ List.replicate 3 0#8).take (pkt.contentSize uninit)
      = p.content.take (pkt.contentSize uninit) :=
    List.take_append_of_le_length (hsize.trans p.length_content.ge)
  rw [Packet.body, Packet.body, trimmed_contentSize h, Packet.trimmed_topicSize,
    Packet.trimmed_dataType, hsent, hsent, htopic, hcontent]
  rfl

/-- What the subscriber has of a packet that was sent with `sz`. -/
structure Rebuilt (uninit : Nat) (pkt pkt' : Packet) : Prop where
  ip : pkt'.udpClientIp = pkt.udpClientIp
  port : pkt'.udpClientPort = pkt.udpClientPort
  dataType : pkt'.dataType = pkt.dataType
  topic : pkt'.topic = zeroPad topicLen (cstr pkt.topic)
  content : pkt'.content = zeroPad contentLen (pkt.content.take (pkt.sizes uninit).contentSize)
  printed : pkt'.printed = pkt.printed
  /-- Sending it once more is sending the same. -/
  sizes : ∀ u, pkt'.sizes u = pkt.sizes uninit
  body : ∀ u, pkt'.body u = pkt.body uninit

/-- The header and the body of a packet, with what their reader makes of them. -/
structure RoundTrip (uninit : Nat) (pkt : Packet) : Prop where
  toReceive : (pkt.sizes uninit).toReceive =
    7 + (pkt.sizes uninit).topicSize + (pkt.sizes uninit).contentSize
  fits : (pkt.sizes uninit).toReceive ≤ packetLen
  sent : (pkt.body uninit).length = (pkt.sizes uninit).toReceive
  announced : SizePacket.ofBytes ((received (pkt.header uninit)).drop 1) = pkt.sizes uninit
  int : pkt.dataType = 0 → 5 ≤ (pkt.sizes uninit).contentSize
  shortReal : pkt.dataType = 1 → 2 ≤ (pkt.sizes uninit).contentSize
  real : pkt.dataType = 2 → 6 ≤ (pkt.sizes uninit).contentSize
  string : pkt.dataType = 3 → strlen pkt.content < (pkt.sizes uninit).contentSize ∨
    (pkt.sizes uninit).contentSize = contentLen
  rebuilt : ∃ pkt', rebuildPacket (pkt.sizes uninit) (received (pkt.body uninit)) = some pkt' ∧
    Rebuilt uninit pkt pkt'

theorem Packet.Typed.rebuilt {pkt : Packet} (h : pkt.Typed) (uninit : Nat) :
    Rebuilt uninit pkt (pkt.trimmed uninit) where
  ip := rfl
  port := rfl
  dataType := Packet.trimmed_dataType uninit pkt
  topic := Packet.trimmed_topic uninit pkt
  content := Packet.trimmed_content (contentSize_le h uninit)
  printed := trimmed_printed h uninit
  sizes := trimmed_sizes h uninit
  body := trimmed_body h uninit

/-- A packet of one of the four data types survives the way to the subscriber. -/
theorem codec_roundTrip {pkt : Packet} (h : pkt.Typed) (uninit : Nat) : RoundTrip uninit pkt := by
  have hsize := Server.typed_contentSize_le h uninit
  refine ⟨?_, Packet.toReceive_le hsize, Packet.length_body hsize, ofBytes_header hsize, ?_, ?_, ?_,
    ?_, pkt.trimmed uninit, rebuildPacket_body hsize, h.rebuilt uninit⟩
  · simp only [Packet.sizes]
    omega
  · intro htype
    simp [Packet.sizes, Packet.contentSize_eq, htype]
  · intro htype
    simp [Packet.sizes, Packet.contentSize_eq, htype]
  · intro htype
    simp [Packet.sizes, Packet.contentSize_eq, htype]
  · intro htype
    have hstring : (pkt.sizes uninit).contentSize = min (strlen pkt.content + 1) contentLen := by
      simp [Packet.sizes, Packet.contentSize_eq, htype]
    omega

/-- A string whose topic is `up` and whose content is `hi`. -/
theorem codec_roundTrip_string :
    RoundTrip 0 (Packet.ofDatagram 0 0 (datagram (zeroPad topicLen [0x75, 0x70]) 3 [0x68, 0x69])) :=
  codec_roundTrip (typed_datagram (length_zeroPad (by decide)) 0 0 (by decide) _) 0

end PCom.PubSub
