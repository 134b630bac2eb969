import Mathlib.Data.List.GetD
import PCom.Router.Dispatch
import PCom.Router.HeldPackets

/-! Who the frames that the router makes itself name as their sender. -/

namespace PCom.Router

open Lib

variable {env : Interfaces} {rt : Rtable}

def wordAt (bytes : List Byte) (off : Nat) : Word32 :=
  le32 (bytes.getD off 0) (bytes.getD (off + 1) 0) (bytes.getD (off + 2) 0) (bytes.getD (off + 3) 0)

def etherTypeOf (bytes : List Byte) : Word16 := le16 (bytes.getD 12 0) (bytes.getD 13 0)

/-- The source protocol address on the wire: `spa` of an ARP frame, `saddr` of any other. -/
def senderAddress (bytes : List Byte) : Word32 :=
  if etherTypeOf bytes = htons etherTypeArp then wordAt bytes 28
  else wordAt bytes 26

def NamesRouter (env : Interfaces) (t : Transmission) : Prop :=
  senderAddress t.bytes = env.ip t.interface

def AnsweredByError (env : Interfaces) (rt : Rtable) (i : Fin routerNumInterfaces) (p : Mem) :
    Prop :=
  IsOther env i p ∧ ((ipTtl p).toNat ≤ 1 ∨ Accepted p ∧ bestRoute rt (ipDaddr p) = none)

@[simp] theorem EtherHeader.length_bytes (h : EtherHeader) : h.bytes.length = 14 := by
  simp [EtherHeader.bytes, bytes16]

theorem wordAt_append {l : List Byte} {n : Nat} (h : l.length = n) (l' : List Byte) (k : Nat) :
    wordAt (l ++ l') (n + k) = wordAt l' k := by
  have hget (k : Nat) : (l ++ l').getD (n + k) 0 = l'.getD k 0 := by
    rw [List.getD_append_right _ _ _ _ (by omega), h, Nat.add_sub_cancel_left]
  simp only [wordAt, Nat.add_assoc, hget]

theorem etherTypeOf_append (h : EtherHeader) (l : List Byte) :
    etherTypeOf (h.bytes ++ l) = h.type := by
  have hmacs : (h.dhost.toList ++ h.shost.toList).length = 12 := by simp
  have hlen := h.length_bytes
  rw [etherTypeOf, List.getD_append _ _ _ _ (by omega), List.getD_append _ _ _ _ (by omega),
    EtherHeader.bytes, List.getD_append_right _ _ _ _ (by omega),
    List.getD_append_right _ _ _ _ (by omega), hmacs]
  exact le16_bytes16 h.type

@[simp] theorem senderAddress_sendIcmp (daddr saddr : Word32) (sha dha : Mac) (type code : Byte)
    (i : Fin routerNumInterfaces) (id seq : Word16) :
    senderAddress (sendIcmp daddr saddr sha dha type code i id seq).bytes = saddr := by
  have htype : htons etherTypeIp ≠ htons etherTypeArp := by decide
  simp only [sendIcmp, List.append_assoc]
  rw [senderAddress, etherTypeOf_append, buildEthhdr, if_neg htype,
    wordAt_append (EtherHeader.length_bytes _) _ 12]
  exact le32_bytes32 saddr

theorem senderAddress_sendArp (daddr saddr : Word32) (sha dha : Mac) (i : Fin routerNumInterfaces)
    (op : Word16) :
    senderAddress (sendArp daddr saddr (buildEthhdr sha dha (htons etherTypeArp)) i op).bytes
      = saddr := by
  have hfixed : (bytes16 (htons 1) ++ bytes16 (htons 2048) ++ [6, 4] ++ bytes16 op
      ++ sha.toList).length = 14 := by simp [bytes16]
  have hspa := wordAt_append hfixed (bytes32 saddr ++ (dha.toList ++ bytes32 daddr)) 0
  simp only [List.append_assoc] at hspa
  simp only [sendArp, List.append_assoc]
  rw [senderAddress, etherTypeOf_append, buildEthhdr, if_pos rfl,
    wordAt_append (EtherHeader.length_bytes _) _ 14, hspa]
  exact le32_bytes32 saddr

@[simp] theorem senderAddress_icmpError (type : Byte) (i : Fin routerNumInterfaces) (p : Mem) :
    senderAddress (icmpError type i p).bytes = ipDaddr p := by
  rw [icmpError, sendIcmpError, senderAddress_sendIcmp]

theorem namesRouter_icmpError_iff {i : Fin routerNumInterfaces} {p : Mem} (type : Byte) :
    NamesRouter env (icmpError type i p) ↔ ipDaddr p = env.ip i := by
  rw [NamesRouter, senderAddress_icmpError]
  rfl

theorem Turn.namesRouter_iff {s s' : State} {a : Arrival} {act : Action}
    (h : Turn env rt s a act s') :
    (∀ t ∈ act.originated, NamesRouter env t) ↔
      (AnsweredByError env rt a.1 (buffer s a) → ipDaddr (buffer s a) = env.ip a.1) := by
  cases h with
  | echoed h =>
    refine iff_of_true ?_ fun herror => absurd h herror.1.echo
    intro t ht
    obtain rfl := List.mem_singleton.mp ht
    rw [NamesRouter, echoReply, senderAddress_sendIcmp]
    exact h.2.2
  | answered h =>
    refine iff_of_true ?_ fun herror => absurd h herror.1.request
    intro t ht
    obtain rfl := List.mem_singleton.mp ht
    rw [NamesRouter, arpReply, senderAddress_sendArp]
    exact h.2.2
  | learned h => exact iff_of_true (List.forall_mem_nil _) fun herror => absurd h herror.1.reply
  | released h => exact iff_of_true (List.forall_mem_nil _) fun herror => absurd h herror.1.reply
  | expired h httl =>
    have herror : AnsweredByError env rt a.1 (buffer s a) := ⟨h, .inl httl⟩
    simp [Action.originated, namesRouter_icmpError_iff, herror]
  | corrupt h httl hbad =>
    refine iff_of_true (List.forall_mem_nil _) fun herror => ?_
    rcases herror.2 with hle | ⟨hacc, -⟩
    · omega
    · exact absurd hacc hbad
  | unreachable h httl hacc hroute =>
    have herror : AnsweredByError env rt a.1 (buffer s a) := ⟨h, .inr ⟨hacc, hroute⟩⟩
    simp [Action.originated, namesRouter_icmpError_iff, herror]
  | sent h httl hacc hroute =>
    refine iff_of_true (List.forall_mem_nil _) fun herror => ?_
    rcases herror.2 with hle | ⟨-, hnone⟩
    · omega
    · rw [hroute] at hnone
      cases hnone
  | queued h httl hacc hroute =>
    refine iff_of_true ?_ fun herror => ?_
    · intro t ht
      obtain rfl := List.mem_singleton.mp ht
      rw [NamesRouter, arpRequest, senderAddress_sendArp]
      rfl
    · rcases herror.2 with hle | ⟨-, hnone⟩
      · omega
      · rw [hroute] at hnone
        cases hnone

/-- Every frame the router makes itself names the interface it leaves on as its sender, except
that an ICMP error names the address its cause was sent to. -/
theorem originated_namesRouter_iff {s s' : State} (hs : Reachable env rt s) (a : Arrival)
    {sent : List Transmission} (h : mainStep env rt s a.1 a.2 = .ok (s', sent)) :
    ∃ act, Turn env rt s a act s' ∧ sent = act.transmissions ∧
      ((∀ t ∈ act.originated, NamesRouter env t) ↔
        (AnsweredByError env rt a.1 (buffer s a) → ipDaddr (buffer s a) = env.ip a.1)) := by
  obtain ⟨act, hturn, hsent⟩ := exists_turn hs.queueRouted h
  exact ⟨act, hturn, hsent, hturn.namesRouter_iff⟩

theorem turn_uncheckedFrame (s : State) :
    Turn exampleInterfaces rt s (1, uncheckedFrame 1)
      (.originate (icmpError icmpTimeExceeded 1 (buffer s (1, uncheckedFrame 1))))
      { s with m := buffer s (1, uncheckedFrame 1) } := by
  have httl : ipTtl (buffer s (1, uncheckedFrame 1)) = 1#8 := rfl
  exact .expired (isOther_of_udp rfl rfl) (by rw [httl]; decide)

theorem originated_namesRouter_iff_unchecked :
    ∃ act, Turn exampleInterfaces defaultRtable (start fun _ => 0) (1, uncheckedFrame 1) act
        { start fun _ => 0 with m := buffer (start fun _ => 0) (1, uncheckedFrame 1) } ∧
      (Action.originate (icmpError icmpTimeExceeded 1
        (buffer (start fun _ => 0) (1, uncheckedFrame 1)))).transmissions = act.transmissions ∧
      ((∀ t ∈ act.originated, NamesRouter exampleInterfaces t) ↔
        (AnsweredByError exampleInterfaces defaultRtable 1
            (buffer (start fun _ => 0) (1, uncheckedFrame 1)) →
          ipDaddr (buffer (start fun _ => 0) (1, uncheckedFrame 1)) = exampleInterfaces.ip 1)) :=
  originated_namesRouter_iff ⟨_, _, .nil⟩ (1, uncheckedFrame 1)
    (turn_uncheckedFrame (start fun _ => 0)).mainStep_eq

/-- A packet to 10.9.9.9 with TTL 1 is answered in the name of 10.9.9.9. -/
theorem timeExceeded_names_destination :
    Reachable exampleInterfaces defaultRtable (start fun _ => 0) ∧
      Turn exampleInterfaces defaultRtable (start fun _ => 0) (1, uncheckedFrame 1)
        (.originate (icmpError icmpTimeExceeded 1
          (buffer (start fun _ => 0) (1, uncheckedFrame 1))))
        { start fun _ => 0 with m := buffer (start fun _ => 0) (1, uncheckedFrame 1) } ∧
      ¬ NamesRouter exampleInterfaces (icmpError icmpTimeExceeded 1
        (buffer (start fun _ => 0) (1, uncheckedFrame 1))) := by
  refine ⟨⟨_, _, .nil⟩, turn_uncheckedFrame _, ?_⟩
  have hdaddr : ipDaddr (buffer (start fun _ => 0) (1, uncheckedFrame 1)) = le32 10 9 9 9 := rfl
  rw [namesRouter_icmpError_iff, hdaddr]
  decide

end PCom.Router
