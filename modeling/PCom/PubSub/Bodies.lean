import PCom.PubSub.Codec

/-! The sizes of a packet body and the copies that fill its buffer, for every datagram. -/

namespace PCom.PubSub

open Lib

namespace Packet

/-- What the five calls of `memcpy` copy: address, port, topic, data type and content. -/
def copyLens (uninit : Nat) (pkt : Packet) : List Nat :=
  [4, 2, pkt.topicSize, 1, pkt.contentSize uninit]

/-- The place of each copy in the buffer and its length; `toReceive` counts what was copied. -/
def copiesFrom : Nat → List Nat → List (Nat × Nat)
  | _, [] => []
  | toReceive, n :: ns => (toReceive, n) :: copiesFrom (toReceive + n) ns

def bodyCopies (uninit : Nat) (pkt : Packet) : List (Nat × Nat) :=
  copiesFrom 0 (pkt.copyLens uninit)

/-- The sizes come from the packet alone, and what is announced and copied fits the buffer. -/
structure HasBody (pkt : Packet) : Prop where
  determined : ∀ uninit uninit', pkt.sizes uninit = pkt.sizes uninit'
  fits : ∀ uninit, (pkt.sizes uninit).toReceive ≤ packetLen
  inside : ∀ uninit, ∀ c ∈ pkt.bodyCopies uninit, c.1 + c.2 ≤ packetLen

theorem copiesFrom_le {toReceive : Nat} {ns : List Nat} :
    ∀ c ∈ copiesFrom toReceive ns, c.1 + c.2 ≤ toReceive + ns.sum := by
  induction ns generalizing toReceive with
  | nil => exact List.forall_mem_nil _
  | cons n ns ih =>
    rw [copiesFrom, List.forall_mem_cons, List.sum_cons]
    refine ⟨by omega, fun c hc => ?_⟩
    have := ih c hc
    omega

theorem sum_copyLens (uninit : Nat) (pkt : Packet) :
    (pkt.copyLens uninit).sum = (pkt.sizes uninit).toReceive := by
  simp only [copyLens, sizes, List.sum_cons, List.sum_nil]
  omega

theorem bodyCopies_le (uninit : Nat) (pkt : Packet) :
    ∀ c ∈ pkt.bodyCopies uninit, c.1 + c.2 ≤ (pkt.sizes uninit).toReceive := by
  intro c hc
  have hle := copiesFrom_le c hc
  rwa [sum_copyLens, Nat.zero_add] at hle

theorem contentSize_of_not_typed {pkt : Packet} (h : ¬ pkt.Typed) (uninit : Nat) :
    pkt.contentSize uninit = uninit := by
  have hne : ∀ n : Byte, n.toNat ≤ 3 → pkt.dataType ≠ n := by
    rintro n hn rfl
    exact h hn
  rw [contentSize_eq, if_neg (hne 0 (by decide)), if_neg (hne 1 (by decide)),
    if_neg (hne 2 (by decide)), if_neg (hne 3 (by decide))]

theorem Typed.hasBody {pkt : Packet} (h : pkt.Typed) : pkt.HasBody := by
  have hfits (uninit : Nat) : (pkt.sizes uninit).toReceive ≤ packetLen :=
    toReceive_le (Server.typed_contentSize_le h uninit)
  refine ⟨fun uninit uninit' => ?_, hfits, fun uninit c hc => ?_⟩
  · rw [sizes, sizes, contentSize_of_typed h uninit, contentSize_of_typed h uninit']
  · exact (pkt.bodyCopies_le uninit c hc).trans (hfits uninit)

theorem hasBody_iff {pkt : Packet} : pkt.HasBody ↔ pkt.Typed := by
  refine ⟨fun h => ?_, Typed.hasBody⟩
  by_contra htype
  have hsizes := congrArg SizePacket.contentSize (h.determined 0 1)
  simp only [sizes, contentSize_of_not_typed htype] at hsizes
  cases hsizes

theorem dataType_ofDatagram (ip : Word32) (port : Word16) (bytes : List Byte) :
    (ofDatagram ip port bytes).dataType = bytes.getD topicLen 0 := by
  have hlt : topicLen < udpPacketLen := by decide
  rw [dataType, ofDatagram, getD_zeroPad, List.getD_eq_getElem?_getD, List.getElem?_take_of_lt hlt,
    List.getD_eq_getElem?_getD]

/-- A datagram has a well-defined body exactly when its data type is one of the four. -/
theorem hasBody_ofDatagram_iff (ip : Word32) (port : Word16) (bytes : List Byte) :
    (ofDatagram ip port bytes).HasBody ↔ (bytes.getD topicLen 0).toNat ≤ 3 := by
  rw [hasBody_iff, Typed, dataType_ofDatagram]

/-- The fifth data type. -/
theorem not_hasBody_four : ¬ (ofDatagram 0 0 (datagram (zeroPad topicLen [116]) 4 [])).HasBody := by
  rw [hasBody_iff, Typed]
  decide

end Packet

end PCom.PubSub
