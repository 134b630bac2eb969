import PCom.Router.Packet

namespace PCom.Router

open Lib

theorem toNat_blockWord_modEq {bs : List Byte} (h : bs.length ≤ 4) :
    (ntohl (blockWord bs)).toNat ≡ wordSum bs [MOD 65535] := by
  rw [blockWord, toNat_ntohl_le32]
  unfold Nat.ModEq
  match bs, h with
  | [], _ => simp [wordSum]
  | [a], _ => simp [wordSum]; omega
  | [a, b], _ => simp [wordSum]; omega
  | [a, b, c], _ => simp [wordSum]; omega
  | [a, b, c, d], _ => simp [wordSum]; omega

/-- What adding `n` more 32-bit blocks of `bs` does to an accumulator that has room for them. -/
structure Adds (acc acc' n : Nat) (bs : List Byte) : Prop where
  le : acc ≤ acc'
  le_add : acc' ≤ acc + n * 2 ^ 32
  modEq : acc' ≡ acc + wordSum bs [MOD 65535]

theorem addWord_adds {acc : Nat} {bs : List Byte} (hacc : acc + 2 ^ 32 ≤ 2 ^ 64)
    (h : bs.length ≤ 4) : Adds acc (addWord acc bs) 1 bs := by
  have hword := toNat_blockWord_modEq h
  have hlt := (ntohl (blockWord bs)).isLt
  rw [addWord, Nat.mod_eq_of_lt (by omega)]
  exact ⟨by omega, by omega, hword.add_left acc⟩

theorem length_lt_four : ∀ {bs : List Byte},
    (∀ b0 b1 b2 b3 t, bs = b0 :: b1 :: b2 :: b3 :: t → False) → bs.length < 4
  | [], _ | [_], _ | [_, _], _ | [_, _, _], _ => by simp
  | b0 :: b1 :: b2 :: b3 :: t, h => (h b0 b1 b2 b3 t rfl).elim

theorem addBlocks_adds {acc : Nat} {bs : List Byte}
    (hacc : acc + (bs.length / 4 + 1) * 2 ^ 32 ≤ 2 ^ 64) :
    Adds acc (addBlocks acc bs) (bs.length / 4 + 1) bs := by
  induction acc, bs using addBlocks.induct with
  | case1 acc => exact ⟨le_rfl, by simp [addBlocks], by simp [addBlocks, wordSum, Nat.ModEq]⟩
  | case2 acc b0 b1 b2 b3 bs ih =>
    have hlen : (b0 :: b1 :: b2 :: b3 :: bs).length / 4 = bs.length / 4 + 1 := by
      simp only [List.length_cons]
      omega
    rw [hlen] at hacc ⊢
    have hfst : Adds acc (addWord acc [b0, b1, b2, b3]) 1 [b0, b1, b2, b3] :=
      addWord_adds (by omega) (by simp)
    have hle := hfst.le
    have hle' := hfst.le_add
    have hrest := ih (by omega)
    refine ⟨hfst.le.trans hrest.le, ?_, ?_⟩
    · have := hrest.le_add
      rw [addBlocks]
      omega
    · rw [addBlocks]
      calc addBlocks (addWord acc [b0, b1, b2, b3]) bs
          ≡ addWord acc [b0, b1, b2, b3] + wordSum bs [MOD 65535] := hrest.modEq
        _ ≡ acc + wordSum [b0, b1, b2, b3] + wordSum bs [MOD 65535] := hfst.modEq.add_right _
        _ = acc + wordSum (b0 :: b1 :: b2 :: b3 :: bs) := by
          rw [Nat.add_assoc, ← wordSum_append (by simp)]
          rfl
  | case3 acc bs hnil hshort =>
    have hlen := length_lt_four hshort
    have hdiv : bs.length / 4 = 0 := by omega
    rw [hdiv] at hacc ⊢
    have hword : Adds acc (addWord acc bs) 1 bs := addWord_adds (by omega) (by omega)
    rw [addBlocks]
    · exact hword
    · exact hnil
    · exact hshort

theorem swapBytes_eq {acc : Nat} (h : acc < 65536) :
    swapBytes acc = acc / 256 + 256 * (acc % 256) := by
  have hhi : (acc &&& 0xff00) >>> 8 = acc / 256 := by
    rw [Nat.shiftRight_and_distrib, Nat.shiftRight_eq_div_pow]
    have : acc / 2 ^ 8 &&& (2 ^ 8 - 1) = acc / 2 ^ 8 % 2 ^ 8 := Nat.and_two_pow_sub_one_eq_mod _ 8
    simp only [Nat.reducePow, Nat.reduceSub, Nat.reduceShiftRight] at this ⊢
    rw [this]
    omega
  have hlo : acc &&& 0x00ff = acc % 256 := Nat.and_two_pow_sub_one_eq_mod acc 8
  rw [swapBytes, hhi, hlo, Nat.or_comm, ← Nat.shiftLeft_add_eq_or_of_lt (by omega : acc / 256 < 2 ^ 8),
    Nat.shiftLeft_eq]
  omega

theorem htons_eq_zero_iff (w : Word16) : htons w = 0 ↔ w = 0 := by
  constructor
  · intro h
    have h' := congrArg BitVec.toNat h
    rw [htons, toNat_le16, toNat_byteOf, toNat_byteOf] at h'
    apply BitVec.eq_of_toNat_eq
    have := w.isLt
    simp at h' ⊢
    omega
  · rintro rfl
    rfl

theorem htons_not_ofNat_eq_zero_iff {acc : Nat} (h : acc < 65536) :
    htons (~~~ BitVec.ofNat 16 acc) = 0 ↔ acc = 65535 := by
  rw [htons_eq_zero_iff, ← BitVec.toNat_inj, BitVec.toNat_not, BitVec.toNat_ofNat]
  simp
  omega

theorem addBlocks_append {acc : Nat} {front : List Byte} (h : front.length = 4) (bs : List Byte) :
    addBlocks acc (front ++ bs) = addBlocks (addWord acc front) bs := by
  match front, h with
  | [_, _, _, _], _ => rfl

theorem addBlocks_of_lt_four {acc : Nat} {bs : List Byte} (hpos : 0 < bs.length)
    (h : bs.length < 4) : addBlocks acc bs = addWord acc bs := by
  match bs, hpos, h with
  | [_], _, _ => rfl
  | [_, _], _, _ => rfl
  | [_, _, _], _, _ => rfl

theorem blockAcc_eq_addBlocks {offset : Nat} (hoff : offset < 4) (data : List Byte) :
    blockAcc offset data = addBlocks 0xffff (List.replicate offset 0#8 ++ data) := by
  by_cases h0 : offset = 0
  · subst h0
    rfl
  simp only [blockAcc, ne_eq, h0, not_false_eq_true, if_true]
  set count := min (4 - offset) data.length with hcount
  set front := List.replicate offset 0#8 ++ data.take count with hfront
  have hlength : front.length = offset + count := by
    rw [hfront, List.length_append, List.length_replicate, List.length_take]
    omega
  have hsplit : List.replicate offset 0#8 ++ data = front ++ data.drop count := by
    rw [hfront, List.append_assoc, List.take_append_drop]
  change addBlocks (addWord 0xffff front) (data.drop count) = _
  rw [hsplit]
  by_cases hfull : 4 - offset ≤ data.length
  · exact (addBlocks_append (by omega) _).symm
  · have hshort : addBlocks 0xffff front = addWord 0xffff front :=
      addBlocks_of_lt_four (by omega) (by omega)
    rw [List.drop_eq_nil_of_le (by omega), List.append_nil, hshort]
    rfl

theorem blockAcc_spec {offset : Nat} {data : List Byte} (hoff : offset < 4)
    (hlen : data.length ≤ 2 ^ 32) :
    0 < blockAcc offset data ∧
      blockAcc offset data ≡ wordSum (List.replicate offset 0#8 ++ data) [MOD 65535] := by
  have hones (n : Nat) : 0xffff + n ≡ n [MOD 65535] := by simp [Nat.ModEq]
  have hlength : (List.replicate offset 0#8 ++ data).length = offset + data.length := by simp
  have hadds : Adds 0xffff (addBlocks 0xffff (List.replicate offset 0#8 ++ data)) _ _ :=
    addBlocks_adds (by omega)
  rw [blockAcc_eq_addBlocks hoff]
  exact ⟨lt_of_lt_of_le (by decide) hadds.le, hadds.modEq.trans (hones _)⟩

theorem foldHalves_spec {acc : Nat} (h : 0 < acc) :
    0 < (acc &&& 0xffffffff) + (acc >>> 32) ∧
      (acc &&& 0xffffffff) + (acc >>> 32) ≡ acc [MOD 65535] := by
  have hand : acc &&& 0xffffffff = acc % 4294967296 := Nat.and_two_pow_sub_one_eq_mod acc 32
  rw [hand, Nat.shiftRight_eq_div_pow]
  unfold Nat.ModEq
  omega

/-- The data are accepted exactly when their words sum to zero in one's complement, wherever
they lie in memory. -/
theorem ipChecksum_eq_zero_iff {offset : Nat} {data : List Byte} (hoff : offset < 4)
    (hlen : data.length < 2 ^ 32) :
    ipChecksum offset data = 0 ↔ wordSum data ≡ 0 [MOD 65535] := by
  obtain ⟨hpos, hmod⟩ := blockAcc_spec hoff hlen.le
  obtain ⟨hpos', hmod'⟩ := foldHalves_spec hpos
  have hlt := foldCarries_lt ((blockAcc offset data &&& 0xffffffff) + (blockAcc offset data >>> 32))
  have hones := foldCarries_eq_ones_iff hpos'
  have hzero : foldCarries ((blockAcc offset data &&& 0xffffffff) + (blockAcc offset data >>> 32))
      = 65535 ↔ wordSum data ≡ 0 [MOD 65535] := by
    rw [hones, ← wordSum_zeros_append_modEq_zero_iff offset]
    exact ⟨fun h => (hmod'.trans hmod).symm.trans h, fun h => (hmod'.trans hmod).trans h⟩
  rw [← hzero]
  change htons (~~~ BitVec.ofNat 16 (if offset % 2 = 1 then
    swapBytes (foldCarries ((blockAcc offset data &&& 0xffffffff) + (blockAcc offset data >>> 32)))
    else foldCarries ((blockAcc offset data &&& 0xffffffff) + (blockAcc offset data >>> 32)))) = 0
    ↔ _
  generalize foldCarries _ = acc at *
  split
  · have hswap := swapBytes_eq hlt
    rw [htons_not_ofNat_eq_zero_iff (by omega)]
    omega
  · exact htons_not_ofNat_eq_zero_iff hlt

def Accepted (p : Mem) : Prop := ipChecksum ipAlign (ipHeader p) = 0

theorem accepted_iff (p : Mem) : Accepted p ↔ wordSum (ipHeader p) ≡ 0 [MOD 65535] :=
  ipChecksum_eq_zero_iff (by decide) (by simp [ipHeader, loadBytes])

theorem calculateChecksum_eq (p : Mem) : calculateChecksum p = ipCheck p + 1 := by
  have hnot : ~~~(((ipTtl p).toNat : Int) + 1) = -((ipTtl p).toNat : Int) - 2 := by
    change Int.negSucc ((ipTtl p).toNat + 1) = _
    omega
  have h : ((ipCheck p).toNat : Int) - ~~~(((ipTtl p).toNat : Int) + 1) - (ipTtl p).toNat - 1
      = ((ipCheck p).toNat : Int) + 1 := by
    rw [hnot]
    omega
  simp only [calculateChecksum, h]
  rw [BitVec.ofInt_add, BitVec.ofInt_natCast, BitVec.ofNat_toNat, BitVec.setWidth_eq]
  rfl

theorem decrementTtl_of_ne {p : Mem} {i : Nat} (h22 : i ≠ 22) (h24 : i ≠ 24) (h25 : i ≠ 25) :
    decrementTtl p i = p i := by
  have h : ¬ (24 ≤ i ∧ i < 26) := by omega
  simp [decrementTtl, store16, storeBytes, bytes16, h, Function.update_of_ne h22]

@[simp] theorem ipTtl_decrementTtl (p : Mem) : ipTtl (decrementTtl p) = ipTtl p - 1 := by
  simp [decrementTtl, store16, storeBytes, bytes16, ipTtl]

@[simp] theorem ipCheck_decrementTtl (p : Mem) : ipCheck (decrementTtl p) = ipCheck p + 1 := by
  have hupd : ipCheck (Function.update p 22 (ipTtl p - 1)) = ipCheck p := by
    simp [ipCheck, load16]
  have hget (w : Word16) (q : Mem) : ipCheck (store16 q 24 w) = w := by
    simp [ipCheck, load16, store16, storeBytes, bytes16]
  simp only [decrementTtl, hget, calculateChecksum_eq, hupd]

/-- The part of the sum that neither the TTL nor the check field enters. -/
def otherSum (p : Mem) : Nat :=
  wordSum [p 14, p 15, p 16, p 17, p 18, p 19, p 20, p 21, 0#8, p 23, 0#8, 0#8, p 26, p 27, p 28,
    p 29, p 30, p 31, p 32, p 33]

theorem wordSum_ipHeader_modEq (p : Mem) :
    wordSum (ipHeader p) ≡ otherSum p + 256 * ((ipTtl p).toNat + (ipCheck p).toNat) [MOD 65535] := by
  have hhdr : ipHeader p = [p 14, p 15, p 16, p 17, p 18, p 19, p 20, p 21, p 22, p 23, p 24, p 25,
    p 26, p 27, p 28, p 29, p 30, p 31, p 32, p 33] := rfl
  have hsum : otherSum p + 256 * ((ipTtl p).toNat + (ipCheck p).toNat)
      = wordSum (ipHeader p) + 65535 * (p 25).toNat := by
    rw [hhdr, otherSum, ipCheck, load16, toNat_le16, ipTtl]
    simp only [wordSum, BitVec.toNat_zero, Nat.reduceAdd]
    omega
  rw [hsum, Nat.ModEq, Nat.add_mul_mod_self_left]

@[simp] theorem otherSum_decrementTtl (p : Mem) : otherSum (decrementTtl p) = otherSum p := by
  simp [otherSum, decrementTtl_of_ne]

/-- One router passes on an acceptable header exactly when the check word was not all ones. -/
theorem accepted_decrementTtl_iff {p : Mem} (hacc : Accepted p) (httl : 0 < (ipTtl p).toNat) :
    Accepted (decrementTtl p) ↔ (ipCheck p).toNat ≠ 0xffff := by
  have hlt := (ipTtl p).isLt
  have hcheck := (ipCheck p).isLt
  have hold := wordSum_ipHeader_modEq p
  have hnew := wordSum_ipHeader_modEq (decrementTtl p)
  have httl' : (ipTtl p - 1).toNat = (ipTtl p).toNat - 1 := BitVec.toNat_sub_of_le (by
    change 1 ≤ _
    exact httl)
  have hcheck' : (ipCheck p + 1).toNat = ((ipCheck p).toNat + 1) % 65536 := BitVec.toNat_add _ _
  rw [accepted_iff] at hacc ⊢
  rw [otherSum_decrementTtl, ipTtl_decrementTtl, ipCheck_decrementTtl, httl', hcheck'] at hnew
  unfold Nat.ModEq at *
  omega

theorem ipTtl_iterate {p : Mem} {k : Nat} (hk : k ≤ (ipTtl p).toNat) :
    (ipTtl (decrementTtl^[k] p)).toNat = (ipTtl p).toNat - k := by
  induction k with
  | zero => simp
  | succ k ih =>
    have hprev := ih (by omega)
    rw [Function.iterate_succ_apply', ipTtl_decrementTtl, BitVec.toNat_sub_of_le]
    · rw [hprev]
      change (ipTtl p).toNat - k - 1 = _
      omega
    · change 1 ≤ (ipTtl (decrementTtl^[k] p)).toNat
      omega

theorem ipCheck_iterate {p : Mem} {k : Nat} (hk : (ipCheck p).toNat + k ≤ 0xffff) :
    (ipCheck (decrementTtl^[k] p)).toNat = (ipCheck p).toNat + k := by
  induction k with
  | zero => simp
  | succ k ih =>
    rw [Function.iterate_succ_apply', ipCheck_decrementTtl, BitVec.toNat_add, ih (by omega)]
    change ((ipCheck p).toNat + k + 1) % 65536 = _
    omega

/-- A header accepted by the first of `n + 1` routers is accepted by all of them exactly when
the check word does not wrap around on the way. -/
theorem accepted_iterate_iff {p : Mem} {n : Nat} (hacc : Accepted p) (hn : n < (ipTtl p).toNat) :
    (∀ k ≤ n, Accepted (decrementTtl^[k] p)) ↔ (ipCheck p).toNat + n ≤ 0xffff := by
  have hcheck := (ipCheck p).isLt
  induction n with
  | zero => simpa [hacc] using Nat.le_of_lt_succ hcheck
  | succ n ih =>
    have hlast : (∀ k ≤ n + 1, Accepted (decrementTtl^[k] p)) ↔
        (∀ k ≤ n, Accepted (decrementTtl^[k] p)) ∧ Accepted (decrementTtl^[n + 1] p) := by
      simp only [Nat.le_succ_iff, or_imp, forall_and, forall_eq]
    have hprev := ih (by omega)
    refine hlast.trans ((and_congr_left' hprev).trans ?_)
    by_cases hle : (ipCheck p).toNat + n ≤ 0xffff
    · have hbefore : Accepted (decrementTtl^[n] p) := hprev.mpr hle n le_rfl
      have httl := ipTtl_iterate (p := p) (k := n) (by omega)
      rw [Function.iterate_succ_apply', accepted_decrementTtl_iff hbefore (by omega),
        ipCheck_iterate hle]
      omega
    · omega

/-- A header from 10.0.0.1 to 10.0.102.224 with TTL 64 whose check word is all ones. -/
def onesHeader : Mem := storeBytes (fun _ => 0) 14
  [0x45, 0, 0, 0x1c, 0, 1, 0, 0, 0x40, 1, 0xff, 0xff, 10, 0, 0, 1, 10, 0, 0x66, 0xe0]

/-- The same header with the other encoding of zero. -/
def zeroHeader : Mem := storeBytes onesHeader 24 [0, 0]

theorem accepted_iterate_iff_zeroHeader :
    Accepted zeroHeader ∧ 63 < (ipTtl zeroHeader).toNat ∧
      ((∀ k ≤ 63, Accepted (decrementTtl^[k] zeroHeader)) ↔
        (ipCheck zeroHeader).toNat + 63 ≤ 0xffff) := by
  have hacc : Accepted zeroHeader := (accepted_iff _).mpr (by decide)
  exact ⟨hacc, by decide, accepted_iterate_iff hacc (by decide)⟩

theorem onesHeader_not_accepted_twice :
    Accepted onesHeader ∧ 1 < (ipTtl onesHeader).toNat ∧ ¬ Accepted (decrementTtl onesHeader) := by
  refine ⟨(accepted_iff _).mpr (by decide), by decide, ?_⟩
  rw [accepted_iff]
  decide

end PCom.Router
