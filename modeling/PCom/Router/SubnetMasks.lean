import PCom.Lib.Masks
import PCom.Router.RoutingTableLaws

/-! From a mask to its prefix length and back. -/

namespace PCom.Router

open Lib

structure SmallestMask (m c : Word32) : Prop where
  contiguous : Contiguous c
  covers : m &&& c = m
  /-- Every other one has all the bits of `c`. -/
  inside : ∀ c', Contiguous c' → m &&& c' = m → c &&& c' = c
  le : ∀ c', Contiguous c' → m &&& c' = m → ntohl c ≤ ntohl c'

@[simp] theorem ntohl_ntohl (m : Word32) : ntohl (ntohl m) = m := by
  rw [ntohl, htonl, htonl, byteOf_le32_zero, byteOf_le32_one, byteOf_le32_two, byteOf_le32_three]
  exact le32_bytes32 m

theorem ntohl_injective : Function.Injective ntohl := by
  intro a b h
  rw [← ntohl_ntohl a, h, ntohl_ntohl]

theorem ntohl_and (a b : Word32) : ntohl (a &&& b) = ntohl a &&& ntohl b := by
  simp only [ntohl, htonl, le32, byteOf, BitVec.extractLsb'_and, ← BitVec.and_append]

theorem and_eq_self_iff_ntohl {a b : Word32} : a &&& b = a ↔ ntohl a &&& ntohl b = ntohl a := by
  rw [← ntohl_and]
  exact ntohl_injective.eq_iff.symm

@[simp] theorem ntohl_netMask (len : Fin 33) : ntohl (netMask len) = leadingOnes 32 len := by
  revert len
  decide

theorem contiguous_iff_getMsbD {m : Word32} :
    Contiguous m ↔ ∃ len ≤ 32, ∀ i < 32, (ntohl m).getMsbD i = decide (i < len) := by
  constructor
  · rintro ⟨len, rfl⟩
    refine ⟨len, Nat.le_of_lt_succ len.isLt, fun i hi => ?_⟩
    rw [ntohl_netMask, getMsbD_leadingOnes, decide_eq_true hi, Bool.true_and]
  · rintro ⟨len, hlen, hbits⟩
    refine ⟨⟨len, Nat.lt_succ_of_le hlen⟩, ntohl_injective ?_⟩
    rw [ntohl_netMask]
    apply BitVec.eq_of_getMsbD_eq
    intro i hi
    rw [hbits i hi, getMsbD_leadingOnes, decide_eq_true hi, Bool.true_and]

theorem covers_netMask_iff {m : Word32} {len : Fin 33} :
    m &&& netMask len = m ↔ ntohl m <<< len.val = 0#32 := by
  rw [and_eq_self_iff_ntohl, ntohl_netMask, and_leadingOnes_iff]

theorem prefixLengthLoop_of_shiftLeft (n : Nat) {ip : Word32} (h : ip <<< n = 0#32) (len : Nat) :
    ∃ k ≤ n, prefixLengthLoop (n + 1) ip len = some (len + k) ∧ ip <<< k = 0#32 ∧
      ∀ j, ip <<< j = 0#32 → k ≤ j := by
  induction n generalizing ip len with
  | zero =>
    rw [BitVec.shiftLeft_zero] at h
    subst h
    exact ⟨0, le_rfl, rfl, rfl, fun j _ => Nat.zero_le j⟩
  | succ n ih =>
    rw [prefixLengthLoop]
    split
    next hip =>
      rw [Nat.add_comm, BitVec.shiftLeft_add] at h
      obtain ⟨k, hk, hloop, hzero, hleast⟩ := ih h (len + 1)
      refine ⟨k + 1, Nat.succ_le_succ hk, ?_, ?_, fun j hj => ?_⟩
      · rw [hloop, Nat.add_assoc, Nat.add_comm 1]
      · rw [Nat.add_comm, BitVec.shiftLeft_add, hzero]
      · cases j with
        | zero =>
          rw [BitVec.shiftLeft_zero] at hj
          rw [hj] at hip
          exact absurd hip (by decide)
        | succ j =>
          rw [Nat.add_comm, BitVec.shiftLeft_add] at hj
          exact Nat.succ_le_succ (hleast j hj)
    next hip =>
      have hzero : ip = 0#32 := by
        apply BitVec.eq_of_toNat_eq
        simpa [BitVec.lt_def] using hip
      subst hzero
      exact ⟨0, Nat.zero_le _, rfl, rfl, fun j _ => Nat.zero_le j⟩

theorem getPrefixLength_spec (m : Word32) : ∃ len : Fin 33, getPrefixLength m = some len.val ∧
    ∀ len' : Fin 33, m &&& netMask len' = m ↔ len ≤ len' := by
  obtain ⟨k, hk, hloop, hzero, hleast⟩ := prefixLengthLoop_of_shiftLeft 32
    (BitVec.shiftLeft_eq_zero (x := ntohl m) le_rfl) 0
  refine ⟨⟨k, Nat.lt_succ_of_le hk⟩, by rw [getPrefixLength, hloop, Nat.zero_add], fun len' => ?_⟩
  rw [covers_netMask_iff]
  exact ⟨fun h => hleast len' h, fun h => shiftLeft_eq_zero_of_le h hzero⟩

theorem exists_bucket (m : Word32) : ∃ i : Fin 33, getPrefixLength m = some i.val := by
  obtain ⟨len, hlen, -⟩ := getPrefixLength_spec m
  exact ⟨len, hlen⟩

theorem smallestMask_netMask {m : Word32} {len : Fin 33}
    (h : ∀ len' : Fin 33, m &&& netMask len' = m ↔ len ≤ len') : SmallestMask m (netMask len) := by
  have hinside (c' : Word32) (hc' : Contiguous c') (hcovers : m &&& c' = m) :
      netMask len &&& c' = netMask len := by
    obtain ⟨len', rfl⟩ := hc'
    rw [and_eq_self_iff_ntohl, ntohl_netMask, ntohl_netMask]
    exact leadingOnes_and ((h len').mp hcovers)
  refine ⟨⟨len, rfl⟩, (h len).mpr le_rfl, hinside, fun c' hc' hcovers => ?_⟩
  exact le_of_and_eq (and_eq_self_iff_ntohl.mp (hinside c' hc' hcovers))

theorem SmallestMask.eq_iff {m c : Word32} (h : SmallestMask m c) : c = m ↔ Contiguous m := by
  constructor
  · rintro rfl
    exact h.contiguous
  · intro hm
    have hin : c &&& m = c := h.inside m hm BitVec.and_self
    rw [← hin, BitVec.and_comm, h.covers]

/-- Every mask has a prefix length of 0 to 32, and back from it comes the smallest contiguous mask
with all its bits: the mask itself exactly if it is contiguous. -/
theorem getSubnetMask_getPrefixLength (m : Word32) :
    ∃ len ≤ 32, getPrefixLength m = some len ∧ SmallestMask m (getSubnetMask len) ∧
      (getSubnetMask len = m ↔ Contiguous m) := by
  obtain ⟨len, hlen, hcovers⟩ := getPrefixLength_spec m
  have hsmallest : SmallestMask m (getSubnetMask len) := by
    rw [getSubnetMask_eq_netMask]
    exact smallestMask_netMask hcovers
  exact ⟨len, Nat.le_of_lt_succ len.isLt, hlen, hsmallest, hsmallest.eq_iff⟩

end PCom.Router
