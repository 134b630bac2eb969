import PCom.Router.ChecksumLaws
import PCom.Router.QueueDrain

/-! Which frames leave the router as it was. -/

namespace PCom.Router

open Lib

variable {env : Interfaces} {rt : Rtable}

def NoEffect (env : Interfaces) (rt : Rtable) (s : State) (i : Fin routerNumInterfaces)
    (frame : List Byte) : Prop :=
  ∃ s', mainStep env rt s i frame = .ok (s', []) ∧ s'.arptable = s.arptable ∧ s'.q = s.q

def IsIpv4 (p : Mem) : Prop := ntohs (etherType p) = etherTypeIp

theorem forward_noEffect_iff {s : State} {m : Packet} :
    (∃ s', forward env rt s m = .ok (s', []) ∧ s'.arptable = s.arptable ∧ s'.q = s.q) ↔
      1 < (ipTtl m.payload).toNat ∧ ¬ Accepted m.payload := by
  constructor
  · rintro ⟨s', hrun, -, -⟩
    cases forward_cases hrun with
    | dropped httl hsum => exact ⟨httl, hsum⟩
  · rintro ⟨httl, hsum⟩
    have httl' : ¬ (ipTtl m.payload).toNat ≤ 1 := by omega
    have hsum' : ipChecksum ipAlign (ipHeader m.payload) ≠ 0 := hsum
    refine ⟨s, ?_, rfl, rfl⟩
    simp only [forward]
    rw [if_neg httl', if_pos hsum']

theorem noEffect_iff_of_forwarded {s : State} {i : Fin routerNumInterfaces} {frame : List Byte}
    {p : Mem} (hp : p = (getPacket s.m i frame).payload) (hecho : ¬ IsEchoRequest env i p)
    (hreq : ¬ IsArpRequest env i p) (hreply : ¬ IsArpReply p) :
    NoEffect env rt s i frame ↔ 1 < (ipTtl p).toNat ∧ ¬ Accepted p := by
  rw [NoEffect, mainStep_of_forwarded hp hecho hreq hreply, hp]
  exact forward_noEffect_iff

theorem IsIpv4.not_parseArp {p : Mem} (h : IsIpv4 p) : ¬ parseArp p = true := by
  intro harp
  have harp' : ntohs (etherType p) = etherTypeArp := of_decide_eq_true harp
  rw [IsIpv4, harp'] at h
  exact absurd h (by decide)

theorem isIpv4_of_parseIcmp {p : Mem} (h : parseIcmp p = true) : IsIpv4 p := by
  rw [parseIcmp, Bool.and_eq_true, decide_eq_true_eq] at h
  exact h.1

theorem not_noEffect_of_echoRequest {s : State} {i : Fin routerNumInterfaces} {frame : List Byte}
    {p : Mem} (hp : p = (getPacket s.m i frame).payload) (h : IsEchoRequest env i p) :
    ¬ NoEffect env rt s i frame := by
  subst hp
  rintro ⟨s', hrun, -, -⟩
  simp only [mainStep] at hrun
  split at hrun
  next => cases hrun
  next hnot => exact hnot h

/-- A frame with a corrupted IP header has no effect exactly when no earlier branch answers it:
it is no echo request for this interface and its TTL has not run out. -/
theorem corruptIpv4_noEffect_iff (s : State) (i : Fin routerNumInterfaces) (frame : List Byte)
    {p : Mem} (hp : p = (getPacket s.m i frame).payload) (hip : IsIpv4 p) (hbad : ¬ Accepted p) :
    NoEffect env rt s i frame ↔ ¬ IsEchoRequest env i p ∧ 1 < (ipTtl p).toNat := by
  by_cases hecho : IsEchoRequest env i p
  · exact iff_of_false (not_noEffect_of_echoRequest hp hecho) fun h => h.1 hecho
  · have harp := hip.not_parseArp
    rw [noEffect_iff_of_forwarded hp hecho (fun h => harp h.1) (fun h => harp h.1)]
    simp [hecho, hbad]

/-- A frame that is neither IPv4 nor ARP traffic for the router has no effect exactly when the
bytes where an IPv4 frame has its TTL and header are large enough and fail the checksum. -/
theorem foreign_noEffect_iff (s : State) (i : Fin routerNumInterfaces) (frame : List Byte)
    {p : Mem} (hp : p = (getPacket s.m i frame).payload) (hip : ¬ IsIpv4 p)
    (hreq : ¬ IsArpRequest env i p) (hreply : ¬ IsArpReply p) :
    NoEffect env rt s i frame ↔ 1 < (ipTtl p).toNat ∧ ¬ Accepted p := by
  have hecho : ¬ IsEchoRequest env i p := fun h => hip (isIpv4_of_parseIcmp h.1)
  exact noEffect_iff_of_forwarded hp hecho hreq hreply

/-- An IPv4 packet whose TTL is `ttl` and whose checksum field is zero. -/
def uncheckedFrame (ttl : Byte) : List Byte :=
  (exampleMac 1).toList ++ (exampleMac 7).toList ++ [8, 0] ++
    [0x45, 0, 0, 0x14, 0, 1, 0, 0, ttl, 0x11, 0, 0, 10, 0, 1, 7, 10, 9, 9, 9]

def uncheckedBuffer (ttl : Byte) : Mem := (getPacket (fun _ => 0) 1 (uncheckedFrame ttl)).payload

theorem isIpv4_uncheckedBuffer (ttl : Byte) : IsIpv4 (uncheckedBuffer ttl) := by
  have htype : etherType (uncheckedBuffer ttl) = le16 8 0 := rfl
  rw [IsIpv4, htype]
  decide

theorem not_accepted_uncheckedBuffer {ttl : Byte} (h : ttl = 1 ∨ ttl = 64) :
    ¬ Accepted (uncheckedBuffer ttl) := by
  have hhdr : ipHeader (uncheckedBuffer ttl) = (uncheckedFrame ttl).drop 14 := rfl
  rw [accepted_iff, hhdr]
  rcases h with rfl | rfl <;> decide

theorem corruptIpv4_noEffect_iff_unchecked :
    IsIpv4 (uncheckedBuffer 64) ∧ ¬ Accepted (uncheckedBuffer 64) ∧
      (NoEffect exampleInterfaces defaultRtable (start fun _ => 0) 1 (uncheckedFrame 64) ↔
        ¬ IsEchoRequest exampleInterfaces 1 (uncheckedBuffer 64) ∧
          1 < (ipTtl (uncheckedBuffer 64)).toNat) :=
  have hbad := not_accepted_uncheckedBuffer (.inr rfl)
  ⟨isIpv4_uncheckedBuffer 64, hbad,
    corruptIpv4_noEffect_iff (start fun _ => 0) 1 _ rfl (isIpv4_uncheckedBuffer 64) hbad⟩

/-- A corrupted packet with TTL 1 is answered with an ICMP error. -/
theorem corruptIpv4_answered :
    Reachable exampleInterfaces defaultRtable (start fun _ => 0) ∧
      IsIpv4 (uncheckedBuffer 1) ∧ ¬ Accepted (uncheckedBuffer 1) ∧
      ¬ NoEffect exampleInterfaces defaultRtable (start fun _ => 0) 1 (uncheckedFrame 1) := by
  refine ⟨⟨fun _ => 0, [], .nil⟩, isIpv4_uncheckedBuffer 1, not_accepted_uncheckedBuffer (.inl rfl),
    ?_⟩
  have hecho : ¬ IsEchoRequest exampleInterfaces 1 (uncheckedBuffer 1) :=
    fun hecho => not_parseIcmp_of_udp rfl hecho.1
  have harp := (isIpv4_uncheckedBuffer 1).not_parseArp
  have httl : ipTtl (uncheckedBuffer 1) = 1#8 := rfl
  have hp : uncheckedBuffer 1 = (getPacket (start fun _ => 0).m 1 (uncheckedFrame 1)).payload := rfl
  rw [noEffect_iff_of_forwarded hp hecho (fun h => harp h.1) (fun h => harp h.1), httl]
  exact fun h => absurd h.1 (by decide)

/-- An ARP request for 10.0.1.99 from a host whose MAC address begins with `b`. -/
def otherRequestFrame (b : Byte) : List Byte :=
  broadcastMac.toList ++ [b, 0, 0, 0, 0, 7] ++ [8, 6] ++ [0, 1, 8, 0, 6, 4, 0, 1] ++
    [b, 0, 0, 0, 0, 7] ++ [10, 0, 1, 7] ++ [0, 0, 0, 0, 0, 0] ++ [10, 0, 1, 99]

def otherRequestBuffer (b : Byte) : Mem := (getPacket (fun _ => 0) 1 (otherRequestFrame b)).payload

@[simp] theorem length_otherRequestFrame (b : Byte) : (otherRequestFrame b).length = 42 := rfl

theorem length_otherRequestFrame_le (b : Byte) : (otherRequestFrame b).length ≤ maxLen := by
  rw [length_otherRequestFrame]
  decide

theorem not_isIpv4_otherRequestBuffer (b : Byte) : ¬ IsIpv4 (otherRequestBuffer b) := by
  have htype : etherType (otherRequestBuffer b) = le16 8 6 :=
    load16_getPacket (length_otherRequestFrame_le b) (by rw [length_otherRequestFrame]; decide)
  rw [IsIpv4, htype]
  decide

theorem not_isArpRequest_otherRequestBuffer (b : Byte) :
    ¬ IsArpRequest exampleInterfaces 1 (otherRequestBuffer b) := by
  have htpa : arpTpa (otherRequestBuffer b) = le32 10 0 1 99 :=
    load32_getPacket (length_otherRequestFrame_le b) (by rw [length_otherRequestFrame])
  rintro ⟨-, -, h⟩
  rw [htpa] at h
  exact absurd h (by decide)

theorem not_isArpReply_otherRequestBuffer (b : Byte) : ¬ IsArpReply (otherRequestBuffer b) := by
  have hop : arpOp (otherRequestBuffer b) = le16 0 1 :=
    load16_getPacket (length_otherRequestFrame_le b) (by rw [length_otherRequestFrame]; decide)
  rintro ⟨-, h⟩
  rw [hop] at h
  exact absurd h (by decide)

theorem foreign_noEffect_iff_otherRequest :
    ¬ IsIpv4 (otherRequestBuffer 2) ∧ ¬ IsArpRequest exampleInterfaces 1 (otherRequestBuffer 2) ∧
      ¬ IsArpReply (otherRequestBuffer 2) ∧
      (NoEffect exampleInterfaces defaultRtable (start fun _ => 0) 1 (otherRequestFrame 2) ↔
        1 < (ipTtl (otherRequestBuffer 2)).toNat ∧ ¬ Accepted (otherRequestBuffer 2)) :=
  ⟨not_isIpv4_otherRequestBuffer 2, not_isArpRequest_otherRequestBuffer 2,
    not_isArpReply_otherRequestBuffer 2,
    foreign_noEffect_iff (start fun _ => 0) 1 _ rfl (not_isIpv4_otherRequestBuffer 2)
      (not_isArpRequest_otherRequestBuffer 2) (not_isArpReply_otherRequestBuffer 2)⟩

/-- An ARP request for another host, whose sender's MAC address begins with a zero, is answered
with an ICMP error. -/
theorem foreign_answered :
    Reachable exampleInterfaces defaultRtable (start fun _ => 0) ∧
      ¬ IsIpv4 (otherRequestBuffer 0) ∧ ¬ IsArpRequest exampleInterfaces 1 (otherRequestBuffer 0) ∧
      ¬ IsArpReply (otherRequestBuffer 0) ∧
      ¬ NoEffect exampleInterfaces defaultRtable (start fun _ => 0) 1 (otherRequestFrame 0) := by
  have hip := not_isIpv4_otherRequestBuffer 0
  have hreq := not_isArpRequest_otherRequestBuffer 0
  have hreply := not_isArpReply_otherRequestBuffer 0
  have hecho : ¬ IsEchoRequest exampleInterfaces 1 (otherRequestBuffer 0) :=
    fun h => hip (isIpv4_of_parseIcmp h.1)
  have httl : ipTtl (otherRequestBuffer 0) = 0#8 := rfl
  have hp : otherRequestBuffer 0
      = (getPacket (start fun _ => 0).m 1 (otherRequestFrame 0)).payload := rfl
  refine ⟨⟨fun _ => 0, [], .nil⟩, hip, hreq, hreply, ?_⟩
  rw [noEffect_iff_of_forwarded hp hecho hreq hreply, httl]
  exact fun h => absurd h.1 (by decide)

end PCom.Router
