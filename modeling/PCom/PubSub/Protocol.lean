import PCom.Lib.Bytes

/-! The messages of `protocol.h`, and the functions that build and read them. -/

namespace PCom.PubSub

open Lib

/-- A `std::string`, or the part of a C string before its terminator. -/
abbrev Str := List Byte

def topicLen : Nat := 50
def contentLen : Nat := 1500

def exitMsg : Byte := 0
def confMsg : Byte := 1
def pktMsg : Byte := 2
def idMsg : Byte := 3
def subMsg : Byte := 4
def unsubMsg : Byte := 5
def errMsg : Byte := 6

/-- The sizes of the structures, of which only `packet` has padding: three bytes at its end. -/
def udpPacketLen : Nat := 1551
def packetLen : Nat := 1560
def msgLen : Nat := 52

structure Packet where
  udpClientIp : Word32
  udpClientPort : Word16
  udpMsg : List Byte
  size : udpMsg.length = udpPacketLen
  deriving DecidableEq

namespace Packet

def topic (pkt : Packet) : List Byte := pkt.udpMsg.take topicLen
def dataType (pkt : Packet) : Byte := pkt.udpMsg.getD topicLen 0
def content (pkt : Packet) : List Byte := pkt.udpMsg.drop (topicLen + 1)

/-- The topic as a C string.  Nothing ends it where its field ends. -/
def topicStr (pkt : Packet) : Str := cstr pkt.udpMsg

/-- What the UDP branch makes of a datagram that was read into a zeroed buffer. -/
def ofDatagram (ip : Word32) (port : Word16) (bytes : List Byte) : Packet where
  udpClientIp := ip
  udpClientPort := port
  udpMsg := zeroPad udpPacketLen (bytes.take udpPacketLen)
  size := length_zeroPad (List.length_take_le _ _)

def topicSize (pkt : Packet) : Nat :=
  if strlen pkt.udpMsg < topicLen then strlen pkt.udpMsg + 1 else topicLen

/-- `uninit` is what the variable holds when the data type is none of the four. -/
def contentSize (uninit : Nat) (pkt : Packet) : Nat :=
  if pkt.dataType = 0 then 5
  else if pkt.dataType = 1 then 2
  else if pkt.dataType = 2 then 6
  else if pkt.dataType = 3 then
    if strlen pkt.content < contentLen then strlen pkt.content + 1 else contentLen
  else uninit

end Packet

structure SizePacket where
  toReceive : Nat
  topicSize : Nat
  contentSize : Nat
  deriving DecidableEq

namespace SizePacket

def bytes (sz : SizePacket) : List Byte :=
  leBytes 8 sz.toReceive ++ leBytes 8 sz.topicSize ++ leBytes 8 sz.contentSize

def ofBytes (bs : List Byte) : SizePacket where
  toReceive := leValue (bs.take 8)
  topicSize := leValue ((bs.drop 8).take 8)
  contentSize := leValue ((bs.drop 16).take 8)

end SizePacket

/-- A protocol message whose payload begins with `payload` in a zeroed structure. -/
def protoMsg (type : Byte) (payload : List Byte) : List Byte := zeroPad msgLen (type :: payload)

def idRequest (id : Str) : List Byte := protoMsg idMsg id

def subsRequest (type : Byte) (topic : Str) (sf : Bool) : List Byte :=
  protoMsg type (zeroPad topicLen topic ++ [if sf then 1 else 0])

namespace Packet

def sizes (uninit : Nat) (pkt : Packet) : SizePacket where
  toReceive := 4 + 2 + pkt.topicSize + 1 + pkt.contentSize uninit
  topicSize := pkt.topicSize
  contentSize := pkt.contentSize uninit

def body (uninit : Nat) (pkt : Packet) : List Byte :=
  bytes32 pkt.udpClientIp ++ bytes16 pkt.udpClientPort ++ pkt.topic.take pkt.topicSize ++
    [pkt.dataType] ++ (pkt.content ++ List.replicate 3 0#8).take (pkt.contentSize uninit)

def header (uninit : Nat) (pkt : Packet) : List Byte := protoMsg pktMsg (pkt.sizes uninit).bytes

end Packet

/-- `rebuild_packet`, where its copies stay inside the fields and the buffer. -/
def rebuildPacket (sz : SizePacket) (buffer : List Byte) : Option Packet :=
  if h : sz.topicSize ≤ topicLen ∧ sz.contentSize ≤ contentLen + 3 then
    some {
      udpClientIp := le32 (buffer.getD 0 0) (buffer.getD 1 0) (buffer.getD 2 0) (buffer.getD 3 0)
      udpClientPort := le16 (buffer.getD 4 0) (buffer.getD 5 0)
      udpMsg :=
        zeroPad topicLen ((buffer.drop 6).take sz.topicSize) ++ [buffer.getD (6 + sz.topicSize) 0] ++
          zeroPad contentLen ((buffer.drop (7 + sz.topicSize)).take (min sz.contentSize contentLen))
      size := by
        have htopic : ((buffer.drop 6).take sz.topicSize).length ≤ topicLen :=
          (List.length_take_le _ _).trans h.1
        have hcontent : ((buffer.drop (7 + sz.topicSize)).take
            (min sz.contentSize contentLen)).length ≤ contentLen :=
          (List.length_take_le _ _).trans (Nat.min_le_right _ _)
        rw [List.length_append, List.length_append, length_zeroPad htopic, length_zeroPad hcontent]
        rfl }
  else none

end PCom.PubSub
