import PCom.Router.ChecksumLaws

/-! `ip_checksum` as the Internet checksum, and the incremental update against it. -/

namespace PCom.Router

open Lib

/-- The sum of the 32-bit blocks, without the bound of the accumulator. -/
def blockSum : List Byte → Nat
  | [] => 0
  | b0 :: b1 :: b2 :: b3 :: bs => (ntohl (blockWord [b0, b1, b2, b3])).toNat + blockSum bs
  | bs => (ntohl (blockWord bs)).toNat

theorem blockSum_of_lt_four {bs : List Byte} (h : bs.length < 4) :
    blockSum bs = (ntohl (blockWord bs)).toNat := by
  match bs, h with
  | [], _ => rfl
  | [_], _ => rfl
  | [_, _], _ => rfl
  | [_, _, _], _ => rfl

theorem blockSum_le (bs : List Byte) : blockSum bs ≤ (bs.length / 4 + 1) * 2 ^ 32 := by
  induction bs using blockSum.induct with
  | case1 => simp [blockSum]
  | case2 b0 b1 b2 b3 bs ih =>
    have hlen : (b0 :: b1 :: b2 :: b3 :: bs).length / 4 = bs.length / 4 + 1 := by
      simp only [List.length_cons]
      omega
    have hlt := (ntohl (blockWord [b0, b1, b2, b3])).isLt
    rw [hlen, blockSum]
    omega
  | case3 bs hnil hshort =>
    have hlen := length_lt_four hshort
    have hlt := (ntohl (blockWord bs)).isLt
    rw [blockSum_of_lt_four hlen]
    omega

theorem addWord_eq {acc : Nat} {bs : List Byte} (h : acc + (ntohl (blockWord bs)).toNat < 2 ^ 64) :
    addWord acc bs = acc + (ntohl (blockWord bs)).toNat := Nat.mod_eq_of_lt h

theorem addBlocks_eq {acc : Nat} {bs : List Byte} (h : acc + blockSum bs < 2 ^ 64) :
    addBlocks acc bs = acc + blockSum bs := by
  induction acc, bs using addBlocks.induct with
  | case1 acc => rfl
  | case2 acc b0 b1 b2 b3 bs ih =>
    rw [blockSum] at h ⊢
    rw [addBlocks, ih, addWord_eq (by omega), Nat.add_assoc]
    rw [addWord_eq (by omega)]
    omega
  | case3 acc bs hnil hshort =>
    rw [blockSum_of_lt_four (length_lt_four hshort)] at h ⊢
    rw [addBlocks, addWord_eq h]
    · exact hnil
    · exact hshort

/-- The data as the blocks see them: zeros up to their address in the first word. -/
def padded (offset : Nat) (data : List Byte) : List Byte := List.replicate offset 0#8 ++ data

theorem blockSum_padded_lt {offset : Nat} {data : List Byte} (hoff : offset < 4)
    (hlen : data.length ≤ 2 ^ 32) : 0xffff + blockSum (padded offset data) < 2 ^ 64 := by
  have hle := blockSum_le (padded offset data)
  have hpad : (padded offset data).length = offset + data.length := by simp [padded]
  omega

theorem blockAcc_eq {offset : Nat} {data : List Byte} (hoff : offset < 4)
    (hlen : data.length ≤ 2 ^ 32) :
    blockAcc offset data = 0xffff + blockSum (padded offset data) := by
  rw [blockAcc_eq_addBlocks hoff]
  exact addBlocks_eq (blockSum_padded_lt hoff hlen)

def folded (offset : Nat) (data : List Byte) : Nat :=
  foldCarries ((blockAcc offset data &&& 0xffffffff) + (blockAcc offset data >>> 32))

theorem ipChecksum_eq (offset : Nat) (data : List Byte) :
    ipChecksum offset data = htons (~~~ BitVec.ofNat 16
      (if offset % 2 = 1 then swapBytes (folded offset data) else folded offset data)) := rfl

theorem folded_lt (offset : Nat) (data : List Byte) : folded offset data < 65536 :=
  foldCarries_lt _

theorem folded_spec {offset : Nat} {data : List Byte} (hoff : offset < 4)
    (hlen : data.length ≤ 2 ^ 32) : 0 < folded offset data ∧
      folded offset data ≡ (if offset % 2 = 1 then 256 else 1) * wordSum data [MOD 65535] := by
  obtain ⟨hpos, hmod⟩ := blockAcc_spec hoff hlen
  obtain ⟨hpos', hmod'⟩ := foldHalves_spec hpos
  refine ⟨foldCarries_pos hpos', ?_⟩
  calc folded offset data
      ≡ (blockAcc offset data &&& 0xffffffff) + (blockAcc offset data >>> 32) [MOD 65535] :=
        foldCarries_modEq _
    _ ≡ blockAcc offset data [MOD 65535] := hmod'
    _ ≡ wordSum (List.replicate offset 0#8 ++ data) [MOD 65535] := hmod
    _ ≡ _ [MOD 65535] := wordSum_zeros_append_modEq offset data

theorem swapped_spec {offset acc n : Nat} (hpos : 0 < acc) (hlt : acc < 65536)
    (hmod : acc ≡ (if offset % 2 = 1 then 256 else 1) * n [MOD 65535]) :
    ∃ word, (if offset % 2 = 1 then swapBytes acc else acc) = word ∧ 0 < word ∧ word < 65536 ∧
      word ≡ n [MOD 65535] := by
  refine ⟨_, rfl, ?_⟩
  unfold Nat.ModEq at *
  by_cases hodd : offset % 2 = 1
  · rw [if_pos hodd] at hmod ⊢
    rw [swapBytes_eq hlt]
    omega
  · rw [if_neg hodd] at hmod ⊢
    omega

theorem isInternetChecksum_ipChecksum {offset : Nat} {data : List Byte} (hoff : offset < 4)
    (hlen : data.length ≤ 2 ^ 32) :
    IsInternetChecksum data (ntohs (ipChecksum offset data)).toNat := by
  obtain ⟨hpos, hmod⟩ := folded_spec hoff hlen
  obtain ⟨word, hword, hpos', hlt, hmod'⟩ := swapped_spec hpos (folded_lt offset data) hmod
  have hvalue : (ntohs (ipChecksum offset data)).toNat = 65535 - word := by
    rw [ipChecksum_eq, hword, ntohs, htons_htons, BitVec.toNat_not, BitVec.toNat_ofNat,
      Nat.mod_eq_of_lt hlt]
  rw [hvalue]
  unfold Nat.ModEq at hmod'
  refine ⟨by omega, ?_⟩
  unfold Nat.ModEq
  omega

/-- `ip_checksum` gives the Internet checksum at every alignment; its accumulator holds the whole
sum of the blocks, and the loop over the carries leaves 16 bits. -/
theorem ipChecksum_isInternetChecksum {offset : Nat} {data : List Byte} (hoff : offset < 4)
    (hlen : data.length ≤ 2 ^ 32) :
    (∀ c, IsInternetChecksum data c ↔ c = (ntohs (ipChecksum offset data)).toNat) ∧
      blockAcc offset data = 0xffff + blockSum (padded offset data) ∧
      0xffff + blockSum (padded offset data) < 2 ^ 64 ∧ folded offset data < 2 ^ 16 := by
  have hsum := isInternetChecksum_ipChecksum hoff hlen
  refine ⟨fun c => ⟨fun hc => hc.unique hsum, ?_⟩, blockAcc_eq hoff hlen,
    blockSum_padded_lt hoff hlen, folded_lt offset data⟩
  rintro rfl
  exact hsum

/-- Three bytes at an odd address. -/
theorem ipChecksum_isInternetChecksum_odd :
    (∀ c, IsInternetChecksum [1, 2, 3] c ↔ c = (ntohs (ipChecksum 3 [1, 2, 3])).toNat) ∧
      blockAcc 3 [1, 2, 3] = 0xffff + blockSum (padded 3 [1, 2, 3]) ∧
      0xffff + blockSum (padded 3 [1, 2, 3]) < 2 ^ 64 ∧ folded 3 [1, 2, 3] < 2 ^ 16 :=
  ipChecksum_isInternetChecksum (by decide) (by decide)

/-- The value `ip_checksum` gives for the header with its check field zeroed. -/
def fullChecksum (p : Mem) : Word16 := ipChecksum ipAlign (ipHeader (store16 p 24 0))

theorem isInternetChecksum_fullChecksum (p : Mem) :
    IsInternetChecksum (ipHeader (store16 p 24 0)) (ntohs (fullChecksum p)).toNat :=
  isInternetChecksum_ipChecksum (by decide) (by simp [ipHeader, loadBytes])

theorem eq_fullChecksum {p : Mem} {w : Word16}
    (h : IsInternetChecksum (ipHeader (store16 p 24 0)) (ntohs w).toNat) : w = fullChecksum p := by
  have heq := h.unique (isInternetChecksum_fullChecksum p)
  rw [← htons_htons w, ← htons_htons (fullChecksum p)]
  exact congrArg htons (BitVec.eq_of_toNat_eq heq)

theorem wordSum_cleared (p : Mem) :
    wordSum (ipHeader (store16 p 24 0)) = otherSum p + 256 * (ipTtl p).toNat := by
  have hhdr : ipHeader (store16 p 24 0) = [p 14, p 15, p 16, p 17, p 18, p 19, p 20, p 21, p 22,
    p 23, 0#8, 0#8, p 26, p 27, p 28, p 29, p 30, p 31, p 32, p 33] := rfl
  rw [hhdr, otherSum, ipTtl]
  simp only [wordSum, BitVec.toNat_zero]
  omega

/-- The update gives what a full recomputation gives, unless the check word it starts from is one
below all ones: then it gives the form of zero that `ip_checksum` never gives. -/
theorem calculateChecksum_eq_fullChecksum_iff {p : Mem} (hcheck : ipCheck p = fullChecksum p)
    (httl : 1 < (ipTtl p).toNat) :
    ipCheck (decrementTtl p) = fullChecksum (decrementTtl p) ↔ ipCheck p ≠ 0xfffe := by
  have hold := isInternetChecksum_fullChecksum p
  have hnew := isInternetChecksum_fullChecksum (decrementTtl p)
  have httl' : (ipTtl p - 1).toNat = (ipTtl p).toNat - 1 := BitVec.toNat_sub_of_le (by
    change 1 ≤ _
    exact httl.le)
  have hadd : (ipCheck p + 1).toNat = ((ipCheck p).toNat + 1) % 65536 := BitVec.toNat_add _ _
  have hlt := (ipCheck p).isLt
  obtain ⟨hle, hmod⟩ := hold
  obtain ⟨hle', hmod'⟩ := hnew
  rw [← hcheck, ntohs, toNat_htons] at hle hmod
  rw [wordSum_cleared] at hmod hmod'
  rw [otherSum_decrementTtl, ipTtl_decrementTtl, httl'] at hmod'
  rw [ntohs, toNat_htons] at hle' hmod'
  have hlt' := (fullChecksum (decrementTtl p)).isLt
  rw [ipCheck_decrementTtl, ← BitVec.toNat_inj, hadd, ne_eq, ← BitVec.toNat_inj]
  have hne : (0xfffe : Word16).toNat = 65534 := rfl
  rw [hne]
  unfold Nat.ModEq at *
  omega

/-- A header with TTL 64 from 10.0.0.1 to 10.0.102.1. -/
def plainHeader : Mem := storeBytes (fun _ => 0) 14
  [0x45, 0, 0, 0x1c, 0, 1, 0, 0, 0x40, 1, 0, 0xdf, 10, 0, 0, 1, 10, 0, 0x66, 1]

/-- One from 10.0.0.1 to 10.0.103.224, whose sum makes the check word 0xfeff in network order. -/
def edgeHeader : Mem := storeBytes (fun _ => 0) 14
  [0x45, 0, 0, 0x1c, 0, 1, 0, 0, 0x40, 1, 0xfe, 0xff, 10, 0, 0, 1, 10, 0, 0x67, 0xe0]

theorem calculateChecksum_eq_fullChecksum_iff_plainHeader :
    ipCheck plainHeader = fullChecksum plainHeader ∧ 1 < (ipTtl plainHeader).toNat ∧
      (ipCheck (decrementTtl plainHeader) = fullChecksum (decrementTtl plainHeader) ↔
        ipCheck plainHeader ≠ 0xfffe) := by
  have hcheck : ipCheck plainHeader = fullChecksum plainHeader :=
    eq_fullChecksum ⟨by decide, by decide⟩
  exact ⟨hcheck, by decide, calculateChecksum_eq_fullChecksum_iff hcheck (by decide)⟩

/-- The update leaves 0xffff, a full recomputation 0. -/
theorem edgeHeader_ne_fullChecksum :
    ipCheck edgeHeader = fullChecksum edgeHeader ∧ 1 < (ipTtl edgeHeader).toNat ∧
      ipCheck (decrementTtl edgeHeader) = 0xffff ∧ fullChecksum (decrementTtl edgeHeader) = 0 ∧
      ipCheck (decrementTtl edgeHeader) ≠ fullChecksum (decrementTtl edgeHeader) := by
  have hcheck : ipCheck edgeHeader = fullChecksum edgeHeader :=
    eq_fullChecksum ⟨by decide, by decide⟩
  have hfull : 0 = fullChecksum (decrementTtl edgeHeader) := eq_fullChecksum ⟨by decide, by decide⟩
  exact ⟨hcheck, by decide, by decide, hfull.symm, hfull ▸ by decide⟩

end PCom.Router
