import Mathlib.Data.BitVec

/-! Masks of leading ones in words of any width. -/

namespace PCom.Lib

variable {w : Nat}

def leadingOnes (w len : Nat) : BitVec w := BitVec.allOnes w <<< (w - len)

@[simp] theorem getMsbD_leadingOnes (len i : Nat) :
    (leadingOnes w len).getMsbD i = (decide (i < w) && decide (i < len)) := by
  rw [leadingOnes, BitVec.getMsbD_shiftLeft, BitVec.getMsbD_allOnes, Bool.eq_iff_iff]
  simp only [decide_eq_true_eq, Bool.and_eq_true]
  omega

theorem shiftLeft_eq_zero_iff {x : BitVec w} {n : Nat} :
    x <<< n = 0#w ↔ ∀ i, n ≤ i → x.getMsbD i = false := by
  constructor
  · intro h i hi
    have hbit : (x <<< n).getMsbD (i - n) = false := by rw [h, BitVec.getMsbD_zero]
    rwa [BitVec.getMsbD_shiftLeft, Nat.sub_add_cancel hi] at hbit
  · intro h
    apply BitVec.eq_of_getMsbD_eq
    intro i _
    rw [BitVec.getMsbD_shiftLeft, BitVec.getMsbD_zero]
    exact h _ (Nat.le_add_left n i)

theorem and_leadingOnes_iff {x : BitVec w} {len : Nat} :
    x &&& leadingOnes w len = x ↔ x <<< len = 0#w := by
  rw [shiftLeft_eq_zero_iff]
  constructor
  · intro h i hi
    rw [← h, BitVec.getMsbD_and, getMsbD_leadingOnes, decide_eq_false (by omega : ¬ i < len),
      Bool.and_false, Bool.and_false]
  · intro h
    apply BitVec.eq_of_getMsbD_eq
    intro i hi
    rw [BitVec.getMsbD_and, getMsbD_leadingOnes, decide_eq_true hi, Bool.true_and]
    rcases Nat.lt_or_ge i len with hlen | hlen
    · rw [decide_eq_true hlen, Bool.and_true]
    · rw [h i hlen, Bool.false_and]

theorem shiftLeft_eq_zero_of_le {x : BitVec w} {n m : Nat} (hnm : n ≤ m) (h : x <<< n = 0#w) :
    x <<< m = 0#w := by
  rw [shiftLeft_eq_zero_iff] at h ⊢
  exact fun i hi => h i (hnm.trans hi)

theorem leadingOnes_shiftLeft {len : Nat} : leadingOnes w len <<< len = 0#w := by
  rw [shiftLeft_eq_zero_iff]
  intro i hi
  rw [getMsbD_leadingOnes, decide_eq_false (by omega : ¬ i < len), Bool.and_false]

theorem le_of_and_eq {x y : BitVec w} (h : x &&& y = x) : x ≤ y := by
  rw [BitVec.le_def, ← h, BitVec.toNat_and]
  exact Nat.and_le_right

theorem leadingOnes_and {n m : Nat} (h : n ≤ m) :
    leadingOnes w n &&& leadingOnes w m = leadingOnes w n :=
  and_leadingOnes_iff.mpr (shiftLeft_eq_zero_of_le h leadingOnes_shiftLeft)

end PCom.Lib
