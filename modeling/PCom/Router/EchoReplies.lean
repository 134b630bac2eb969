import PCom.Router.IcmpPackets

/-! The answers to ICMP echo requests. -/

namespace PCom.Router

open Lib

/-- An ICMP echo request without IP options, and the padding of its frame. -/
structure EchoFrame where
  dhost : Mac
  shost : Mac
  tos : Byte
  ipId : Word16
  dontFragment : Bool
  ttl : Byte
  check : Word16
  saddr : Word32
  daddr : Word32
  icmpCheck : Word16
  id : Word16
  sequence : Word16
  data : List Byte
  padding : List Byte

namespace EchoFrame

def header (r : EchoFrame) : List Byte :=
  [0x45, r.tos] ++ bytes16 (htons (BitVec.ofNat 16 (28 + r.data.length))) ++ bytes16 r.ipId ++
    [if r.dontFragment then 0x40 else 0, 0, r.ttl, 1] ++ bytes16 r.check ++ bytes32 r.saddr ++
    bytes32 r.daddr

def message (r : EchoFrame) : List Byte :=
  newIcmpHeader icmpEcho 0 r.icmpCheck r.id r.sequence ++ r.data

def bytes (r : EchoFrame) : List Byte :=
  (buildEthhdr r.shost r.dhost (htons etherTypeIp)).bytes ++ (r.header ++ (r.message ++ r.padding))

end EchoFrame

structure EchoRequest (ip : Word32) extends EchoFrame where
  daddr_eq : toEchoFrame.daddr = ip
  fits : toEchoFrame.bytes.length ≤ maxLen
  right : ChecksumsRight toEchoFrame.bytes

/-- The echo reply to the sender of `r` with the same identifier, sequence and data. -/
structure Mirrors (r : EchoFrame) (frame : List Byte) : Prop where
  dhost : frame.take 6 = r.shost.toList
  ipv4 : etherTypeOf frame = htons etherTypeIp
  icmp : frame.getD 23 0 = 1
  daddr : wordAt frame 30 = r.saddr
  type : (ipPayload frame).getD 0 0 = icmpEchoReply
  code : (ipPayload frame).getD 1 0 = 0
  id : le16 ((ipPayload frame).getD 4 0) ((ipPayload frame).getD 5 0) = r.id
  sequence : le16 ((ipPayload frame).getD 6 0) ((ipPayload frame).getD 7 0) = r.sequence
  data : (ipPayload frame).drop 8 = r.data

def EchoesBack (env : Interfaces) (rt : Rtable) (s : State) (i : Fin routerNumInterfaces)
    (r : EchoFrame) : Prop :=
  ∃ s' t, mainStep env rt s i r.bytes = .ok (s', [t]) ∧ t.interface = i ∧ Mirrors r t.bytes

section Buffer

variable {m : Mem} {i : Fin routerNumInterfaces} {frame : List Byte}

theorem load32_getPacket_wordAt {off : Nat} (hmax : frame.length ≤ maxLen)
    (hoff : off + 4 ≤ frame.length) :
    load32 (getPacket m i frame).payload off = wordAt frame off := load32_getPacket hmax hoff

theorem loadMac_getPacket {off : Nat} {mac : Mac} (hmax : frame.length ≤ maxLen)
    (hoff : off + 6 ≤ frame.length) (h : (frame.drop off).take 6 = mac.toList) :
    loadMac (getPacket m i frame).payload off = mac := by
  have hbytes : (loadMac (getPacket m i frame).payload off).toList
      = loadBytes (getPacket m i frame).payload off 6 := by
    rfl
  rw [← Vector.toList_inj, hbytes, loadBytes_getPacket hoff (hoff.trans hmax), h]

namespace EchoFrame

variable {r : EchoFrame}

@[simp] theorem length_header (r : EchoFrame) : r.header.length = 20 := rfl

theorem length_bytes (r : EchoFrame) :
    r.bytes.length = 42 + r.data.length + r.padding.length := by
  rw [bytes, message, List.length_append, List.length_append, List.length_append,
    List.length_append, EtherHeader.length_bytes, length_header]
  change 14 + (20 + (8 + r.data.length + r.padding.length)) = _
  omega

theorem getD_bytes (r : EchoFrame) (k : Nat) :
    r.bytes.getD (14 + k) 0 = (r.header ++ (r.message ++ r.padding)).getD k 0 := by
  have heth := EtherHeader.length_bytes (buildEthhdr r.shost r.dhost (htons etherTypeIp))
  rw [bytes, List.getD_append_right _ _ _ _ (by omega), heth, Nat.add_sub_cancel_left]

theorem wordAt_bytes (r : EchoFrame) (k : Nat) :
    wordAt r.bytes (14 + k) = wordAt (r.header ++ (r.message ++ r.padding)) k :=
  wordAt_append (EtherHeader.length_bytes _) _ k

section Received

variable (m : Mem) (i : Fin routerNumInterfaces) (hmax : r.bytes.length ≤ maxLen)

include hmax

theorem byte_received {k : Nat} (hk : k < 28) : (getPacket m i r.bytes).payload (14 + k)
    = (r.header ++ (r.message ++ r.padding)).getD k 0 := by
  have hlength := r.length_bytes
  rw [getPacket_of_lt hmax (by omega), getD_bytes]

theorem word_received {k : Nat} (hk : k + 4 ≤ 28) : load32 (getPacket m i r.bytes).payload (14 + k)
    = wordAt (r.header ++ (r.message ++ r.padding)) k := by
  have hlength := r.length_bytes
  rw [load32_getPacket_wordAt hmax (by omega), wordAt_bytes]

theorem etherType_received : etherType (getPacket m i r.bytes).payload = htons etherTypeIp := by
  have hlength := r.length_bytes
  refine (load16_getPacket hmax (by omega)).trans ?_
  exact etherTypeOf_append (buildEthhdr r.shost r.dhost (htons etherTypeIp)) _

theorem ipSaddr_received : ipSaddr (getPacket m i r.bytes).payload = r.saddr :=
  (word_received m i hmax (k := 12) (by decide)).trans (le32_bytes32 r.saddr)

theorem ipDaddr_received : ipDaddr (getPacket m i r.bytes).payload = r.daddr :=
  (word_received m i hmax (k := 16) (by decide)).trans (le32_bytes32 r.daddr)

theorem icmpId_received : icmpId (getPacket m i r.bytes).payload = r.id := by
  rw [icmpId, load16, byte_received m i hmax (k := 24) (by decide),
    byte_received m i hmax (k := 25) (by decide)]
  exact le16_bytes16 r.id

theorem icmpSequence_received : icmpSequence (getPacket m i r.bytes).payload = r.sequence := by
  rw [icmpSequence, load16, byte_received m i hmax (k := 26) (by decide),
    byte_received m i hmax (k := 27) (by decide)]
  exact le16_bytes16 r.sequence

theorem etherShost_received : etherShost (getPacket m i r.bytes).payload = r.shost := by
  have hlength := r.length_bytes
  refine loadMac_getPacket hmax (by omega) ?_
  rw [bytes, buildEthhdr, EtherHeader.bytes, List.append_assoc, List.append_assoc,
    List.drop_left' r.dhost.length_toList, List.take_left' r.shost.length_toList]

theorem isEchoRequest_received {env : Interfaces} (h : r.daddr = env.ip i) :
    IsEchoRequest env i (getPacket m i r.bytes).payload := by
  refine ⟨?_, ?_, ?_⟩
  · have hproto : ipProtocol (getPacket m i r.bytes).payload = 1 :=
      byte_received m i hmax (k := 9) (by decide)
    rw [parseIcmp, etherType_received m i hmax, hproto]
    decide
  · exact byte_received m i hmax (k := 20) (by decide)
  · rw [ipDaddr_received m i hmax, h]

end Received

end EchoFrame

end Buffer

section Reply

variable {env : Interfaces} {rt : Rtable} {s : State} {i : Fin routerNumInterfaces} {r : EchoFrame}

theorem mainStep_echoFrame (hmax : r.bytes.length ≤ maxLen) (h : r.daddr = env.ip i) :
    mainStep env rt s i r.bytes = .ok ({ s with m := buffer s (i, r.bytes) },
      [sendIcmp r.saddr r.daddr (etherDhost (buffer s (i, r.bytes))) r.shost icmpEchoReply 0 i r.id
        r.sequence]) := by
  have hecho : IsEchoRequest env i (buffer s (i, r.bytes)) :=
    EchoFrame.isEchoRequest_received s.m i hmax h
  have hreply : echoReply i (buffer s (i, r.bytes))
      = sendIcmp r.saddr r.daddr (etherDhost (buffer s (i, r.bytes))) r.shost icmpEchoReply 0 i r.id
        r.sequence := by
    rw [echoReply, r.ipSaddr_received s.m i hmax, r.ipDaddr_received s.m i hmax,
      r.etherShost_received s.m i hmax, r.icmpId_received s.m i hmax,
      r.icmpSequence_received s.m i hmax]
  rw [← hreply]
  exact Turn.mainStep_eq (a := (i, r.bytes)) (.echoed hecho)

variable (src : Word32) (sha : Mac)

/-- The reply has everything of the request but the data. -/
theorem mirrors_sendIcmp_iff :
    Mirrors r (sendIcmp r.saddr src sha r.shost icmpEchoReply 0 i r.id r.sequence).bytes ↔
      r.data = [] := by
  have heth := EtherHeader.length_bytes (buildEthhdr sha r.shost (htons etherTypeIp))
  have hpayload := ipPayload_sendIcmp r.saddr src sha r.shost icmpEchoReply 0 i r.id r.sequence
  constructor
  · intro h
    rw [← h.data, hpayload]
    rfl
  · intro hdata
    refine ⟨?_, ?_, ?_, ?_, ?_, ?_, ?_, ?_, ?_⟩
    · rw [sendIcmp_bytes, buildEthhdr, EtherHeader.bytes, List.append_assoc, List.append_assoc,
        List.take_left' r.shost.length_toList]
    · rw [sendIcmp_bytes]
      exact etherTypeOf_append (buildEthhdr sha r.shost (htons etherTypeIp)) _
    · rw [sendIcmp_bytes, List.getD_append_right _ _ _ _ (by omega), heth]
      rfl
    · rw [sendIcmp_bytes]
      exact (wordAt_append heth _ 16).trans (le32_bytes32 r.saddr)
    · rw [hpayload]
      rfl
    · rw [hpayload]
      rfl
    · rw [hpayload]
      exact le16_bytes16 r.id
    · rw [hpayload]
      exact le16_bytes16 r.sequence
    · rw [hpayload, hdata]
      rfl

theorem EchoesBack.data_eq_nil {r : EchoRequest (env.ip i)}
    (h : EchoesBack env rt s i r.toEchoFrame) : r.data = [] := by
  obtain ⟨s', t, hrun, -, hmirrors⟩ := h
  rw [mainStep_echoFrame r.fits r.daddr_eq] at hrun
  obtain ⟨-, ht⟩ := Prod.mk.inj (Except.ok.inj hrun)
  rw [← (List.cons.inj ht).1] at hmirrors
  exact (mirrors_sendIcmp_iff _ _).mp hmirrors

/-- A request is mirrored exactly if it carries no data. -/
theorem echoesBack_iff (r : EchoRequest (env.ip i)) :
    EchoesBack env rt s i r.toEchoFrame ↔ r.data = [] := by
  refine ⟨EchoesBack.data_eq_nil, fun hdata => ?_⟩
  exact ⟨_, _, mainStep_echoFrame r.fits r.daddr_eq, rfl, (mirrors_sendIcmp_iff _ _).mpr hdata⟩

end Reply

def pingFrame : EchoFrame where
  dhost := exampleMac 1
  shost := exampleMac 7
  tos := 0
  ipId := htons 1
  dontFragment := false
  ttl := 64
  check := le16 0x64 0xd8
  saddr := le32 10 0 1 7
  daddr := le32 10 0 1 1
  icmpCheck := le16 0x96 0xf7
  id := htons 7
  sequence := htons 1
  data := [0x61]
  padding := []

theorem checksumsRight_pingFrame : ChecksumsRight pingFrame.bytes where
  header offset hoff := by
    have hsum : wordSum (fullHeader pingFrame.bytes) ≡ 0 [MOD 65535] := by decide
    exact (ipChecksum_eq_zero_iff hoff (by decide)).mpr hsum
  icmp := by
    have hsum : wordSum (ipPayload pingFrame.bytes) ≡ 0 [MOD 65535] := by decide
    exact (foldCarries_eq_ones_iff (by decide)).mpr hsum

theorem length_pingFrame_le : pingFrame.bytes.length ≤ maxLen := by decide

def ping : EchoRequest (exampleInterfaces.ip 1) where
  toEchoFrame := pingFrame
  daddr_eq := rfl
  fits := length_pingFrame_le
  right := checksumsRight_pingFrame

/-- The reply comes without the byte. -/
theorem ping_not_echoed : Reachable exampleInterfaces defaultRtable (start fun _ => 0) ∧
    ¬ EchoesBack exampleInterfaces defaultRtable (start fun _ => 0) 1 ping.toEchoFrame := by
  refine ⟨⟨_, _, .nil⟩, fun h => ?_⟩
  exact absurd h.data_eq_nil (List.cons_ne_nil _ _)

end PCom.Router
