import PCom.Router.HeaderLength
import PCom.Router.InternetChecksum
import PCom.Router.Originated

/-! The checksums and the length of the ICMP packets that the router builds. -/

namespace PCom.Router

open Lib

def totalLength (frame : List Byte) : Nat :=
  (ntohs (le16 (frame.getD 16 0) (frame.getD 17 0))).toNat

def ipPayload (frame : List Byte) : List Byte :=
  ((frame.drop 14).take (totalLength frame)).drop (4 * ihl frame)

/-- Both checksums are right, wherever the header lies in memory. -/
structure ChecksumsRight (frame : List Byte) : Prop where
  header : ∀ offset < 4, ipChecksum offset (fullHeader frame) = 0
  icmp : onesSum (ipPayload frame) = 0xffff

/-- The packet is right, has a header without options, and is all that the frame holds. -/
structure Verifies (frame : List Byte) : Prop extends ChecksumsRight frame where
  plain : ihl frame = 5
  length : totalLength frame = (frame.drop 14).length

/-- The two orders of the bytes give sums that differ by a factor. -/
theorem wordSum_modEq_sumWords (bs : List Byte) : wordSum bs ≡ 256 * sumWords bs [MOD 65535] := by
  induction bs using wordSum.induct with
  | case1 => rfl
  | case2 a => rfl
  | case3 a b t ih =>
    rw [wordSum, sumWords, toNat_le16]
    unfold Nat.ModEq at *
    omega

theorem wordSum_pos_of_sumWords {bs : List Byte} (h : 0 < sumWords bs) : 0 < wordSum bs := by
  induction bs using wordSum.induct with
  | case1 => exact absurd h (by decide)
  | case2 a =>
    rw [sumWords] at h
    rw [wordSum]
    omega
  | case3 a b t ih =>
    rw [sumWords, toNat_le16] at h
    rw [wordSum]
    omega

/-- The two folds of a sum with the halves `q` and `r`. -/
def foldTwice (q r : Nat) : Nat := (q + r + (q + r) / 65536) % 65536

theorem foldTwice_modEq {q r : Nat} (hq : q < 65536) (hr : r < 65536) :
    foldTwice q r ≡ 65536 * q + r [MOD 65535] := by
  have hfolded : foldTwice q r = q + r ∨ foldTwice q r + 65535 = q + r := by
    rw [foldTwice]
    rcases Nat.lt_or_ge (q + r) 65536 with hlt | hge
    · have hcarry : (q + r) / 65536 = 0 := Nat.div_eq_of_lt hlt
      omega
    · have hcarry : (q + r) / 65536 = 1 := by omega
      omega
  unfold Nat.ModEq
  omega

theorem icmpChecksum_eq {buffer : List Byte} (h : sumWords buffer < 2 ^ 32) :
    (icmpChecksum buffer).toNat
      = 65535 - foldTwice (sumWords buffer / 65536) (sumWords buffer % 65536) := by
  have hfold (n : Nat) : n &&& 0xffff = n % 65536 := Nat.and_two_pow_sub_one_eq_mod n 16
  have hshift (n : Nat) : n >>> 16 = n / 65536 := Nat.shiftRight_eq_div_pow n 16
  have hmod : sumWords buffer % 2 ^ 64 = sumWords buffer := Nat.mod_eq_of_lt (by omega)
  rw [icmpChecksum, hmod, hfold, hshift, hshift, BitVec.toNat_not, BitVec.toNat_ofNat]
  rfl

theorem icmpChecksum_spec {buffer : List Byte} (h : sumWords buffer < 2 ^ 32) :
    0 < (icmpChecksum buffer).toNat + sumWords buffer ∧
      (icmpChecksum buffer).toNat + sumWords buffer ≡ 0 [MOD 65535] := by
  have hmod : foldTwice (sumWords buffer / 65536) (sumWords buffer % 65536)
      ≡ sumWords buffer [MOD 65535] := by
    have hfold := foldTwice_modEq (q := sumWords buffer / 65536) (by omega)
      (Nat.mod_lt (sumWords buffer) (by decide))
    rwa [Nat.div_add_mod] at hfold
  have hlt : foldTwice (sumWords buffer / 65536) (sumWords buffer % 65536) < 65536 :=
    Nat.mod_lt _ (by decide)
  have hzero : sumWords buffer = 0 →
      foldTwice (sumWords buffer / 65536) (sumWords buffer % 65536) = 0 := by
    intro hsum
    rw [hsum]
    rfl
  rw [icmpChecksum_eq h]
  unfold Nat.ModEq at *
  omega

section Headers

variable (daddr saddr : Word32) (check : Word16) (type code : Byte) (id seq : Word16)

theorem toNat_zero16 : (0 : Word16).toNat = 0 := rfl

@[simp] theorem length_newIpHeader : (newIpHeader daddr saddr check).length = 20 := rfl

theorem length_icmpPacket (icmpCheck : Word16) : (newIpHeader daddr saddr check ++
    newIcmpHeader type code icmpCheck id seq).length = 28 := rfl

theorem wordSum_newIpHeader : wordSum (newIpHeader daddr saddr check)
    = (ntohs check).toNat + wordSum (newIpHeader daddr saddr 0) := by
  have hlt := check.isLt
  have hzero (i : Nat) : (byteOf (0 : Word16) i).toNat = 0 := by
    rw [toNat_byteOf, toNat_zero16, Nat.zero_div]
  rw [ntohs, toNat_htons]
  simp only [newIpHeader, bytes16, bytes32, List.cons_append, List.nil_append, wordSum, hzero,
    toNat_byteOf check]
  omega

theorem sumWords_newIcmpHeader : sumWords (newIcmpHeader type code check id seq)
    = check.toNat + sumWords (newIcmpHeader type code 0 id seq) := by
  simp only [newIcmpHeader, bytes16, List.cons_append, List.nil_append, sumWords, le16_bytes16,
    toNat_zero16]
  omega

theorem sumWords_newIcmpHeader_lt : sumWords (newIcmpHeader type code check id seq) < 2 ^ 32 := by
  have hfirst := (le16 type code).isLt
  have hcheck := check.isLt
  have hid := id.isLt
  have hseq := seq.isLt
  simp only [newIcmpHeader, bytes16, List.cons_append, List.nil_append, sumWords, le16_bytes16]
  omega

theorem ipChecksum_newIpHeader {offset : Nat} (h : offset < 4) : ipChecksum offset
    (newIpHeader daddr saddr (ipChecksum 0 (newIpHeader daddr saddr 0))) = 0 := by
  have hlength : (newIpHeader daddr saddr 0).length ≤ 2 ^ 32 := by
    rw [length_newIpHeader]
    decide
  have hsum := (isInternetChecksum_ipChecksum (by decide : 0 < 4) hlength).modEq
  rw [ipChecksum_eq_zero_iff h (by rw [length_newIpHeader]; decide), wordSum_newIpHeader]
  exact hsum

theorem onesSum_newIcmpHeader : onesSum (newIcmpHeader type code
    (icmpChecksum (newIcmpHeader type code 0 id seq)) id seq) = 0xffff := by
  obtain ⟨hpos, hmod⟩ := icmpChecksum_spec (sumWords_newIcmpHeader_lt 0 type code id seq)
  rw [← sumWords_newIcmpHeader] at hpos hmod
  rw [onesSum, foldCarries_eq_ones_iff (wordSum_pos_of_sumWords hpos)]
  exact (wordSum_modEq_sumWords _).trans ((mul_256_modEq_zero_iff _).mpr hmod)

end Headers

section Frames

variable {eth : List Byte}

theorem ihl_append (h : eth.length = 14) (packet : List Byte) :
    ihl (eth ++ packet) = (packet.getD 0 0).toNat % 16 := by
  rw [ihl, List.getD_append_right _ _ _ _ (by omega), h]

theorem totalLength_append (h : eth.length = 14) (packet : List Byte) :
    totalLength (eth ++ packet) = (ntohs (le16 (packet.getD 2 0) (packet.getD 3 0))).toNat := by
  rw [totalLength, List.getD_append_right _ _ _ _ (by omega),
    List.getD_append_right _ _ _ _ (by omega), h]

theorem drop_append_eth (h : eth.length = 14) (packet : List Byte) :
    (eth ++ packet).drop 14 = packet := List.drop_left' h

variable (daddr saddr : Word32) (sha dha : Mac) (type code : Byte)
  (interface : Fin routerNumInterfaces) (id seq : Word16)

theorem firstByte_newIpHeader (check : Word16) (rest : List Byte) :
    (newIpHeader daddr saddr check ++ rest).getD 0 0 = 0x45 := rfl

theorem lengthWord_newIpHeader (check : Word16) (rest : List Byte) :
    le16 ((newIpHeader daddr saddr check ++ rest).getD 2 0)
      ((newIpHeader daddr saddr check ++ rest).getD 3 0) = htons 28 :=
  le16_bytes16 (htons 28)

theorem sendIcmp_bytes : (sendIcmp daddr saddr sha dha type code interface id seq).bytes
    = (buildEthhdr sha dha (htons etherTypeIp)).bytes ++
      (newIpHeader daddr saddr (ipChecksum 0 (newIpHeader daddr saddr 0)) ++
        newIcmpHeader type code (icmpChecksum (newIcmpHeader type code 0 id seq)) id seq) := by
  rw [← List.append_assoc]
  rfl

@[simp] theorem ihl_sendIcmp :
    ihl (sendIcmp daddr saddr sha dha type code interface id seq).bytes = 5 := by
  rw [sendIcmp_bytes, ihl_append (EtherHeader.length_bytes _), firstByte_newIpHeader]
  decide

@[simp] theorem totalLength_sendIcmp :
    totalLength (sendIcmp daddr saddr sha dha type code interface id seq).bytes = 28 := by
  rw [sendIcmp_bytes, totalLength_append (EtherHeader.length_bytes _), lengthWord_newIpHeader]
  decide

theorem fullHeader_sendIcmp :
    fullHeader (sendIcmp daddr saddr sha dha type code interface id seq).bytes
      = newIpHeader daddr saddr (ipChecksum 0 (newIpHeader daddr saddr 0)) := by
  rw [fullHeader, ihl_sendIcmp, sendIcmp_bytes, drop_append_eth (EtherHeader.length_bytes _),
    List.take_left' (length_newIpHeader _ _ _)]

theorem ipPayload_sendIcmp :
    ipPayload (sendIcmp daddr saddr sha dha type code interface id seq).bytes
      = newIcmpHeader type code (icmpChecksum (newIcmpHeader type code 0 id seq)) id seq := by
  rw [ipPayload, ihl_sendIcmp, totalLength_sendIcmp, sendIcmp_bytes,
    drop_append_eth (EtherHeader.length_bytes _),
    List.take_of_length_le (length_icmpPacket _ _ _ _ _ _ _ _).le,
    List.drop_left' (length_newIpHeader _ _ _)]

theorem verifies_sendIcmp :
    Verifies (sendIcmp daddr saddr sha dha type code interface id seq).bytes where
  header offset hoff := by
    rw [fullHeader_sendIcmp]
    exact ipChecksum_newIpHeader daddr saddr hoff
  icmp := by
    rw [ipPayload_sendIcmp]
    exact onesSum_newIcmpHeader type code id seq
  plain := ihl_sendIcmp _ _ _ _ _ _ _ _ _
  length := by
    rw [totalLength_sendIcmp, sendIcmp_bytes, drop_append_eth (EtherHeader.length_bytes _),
      length_icmpPacket]

/-- Every packet that `send_icmp` and `send_icmp_error` build verifies. -/
theorem verifies_icmp :
    Verifies (sendIcmp daddr saddr sha dha type code interface id seq).bytes ∧
      Verifies (sendIcmpError daddr saddr sha dha type code interface).bytes :=
  ⟨verifies_sendIcmp daddr saddr sha dha type code interface id seq,
    verifies_sendIcmp daddr saddr sha dha type code interface 0 0⟩

end Frames

end PCom.Router
