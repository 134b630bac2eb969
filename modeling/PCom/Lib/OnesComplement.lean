import Mathlib.Data.Nat.ModEq
import PCom.Lib.Bytes

/-! One's-complement arithmetic on 16-bit words, read as arithmetic modulo 65535. -/

namespace PCom.Lib

/-- The sum of the big-endian 16-bit words of `bs`, an odd last byte padded with a zero. -/
def wordSum : List Byte → Nat
  | [] => 0
  | [a] => 256 * a.toNat
  | a :: b :: t => 256 * a.toNat + b.toNat + wordSum t

/-- Carries out of the low 16 bits are added back until none is left. -/
def foldCarries (acc : Nat) : Nat :=
  if acc < 65536 then acc else foldCarries (acc % 65536 + acc / 65536)

theorem foldCarries_lt (acc : Nat) : foldCarries acc < 65536 := by
  induction acc using foldCarries.induct with
  | case1 acc h => rwa [foldCarries, if_pos h]
  | case2 acc h ih => rwa [foldCarries, if_neg h]

theorem foldCarries_modEq (acc : Nat) : foldCarries acc ≡ acc [MOD 65535] := by
  induction acc using foldCarries.induct with
  | case1 acc h => rw [foldCarries, if_pos h]
  | case2 acc h ih =>
    rw [foldCarries, if_neg h]
    refine ih.trans ?_
    unfold Nat.ModEq
    omega

theorem foldCarries_pos {acc : Nat} (h : 0 < acc) : 0 < foldCarries acc := by
  induction acc using foldCarries.induct with
  | case1 acc hlt => rwa [foldCarries, if_pos hlt]
  | case2 acc hge ih =>
    rw [foldCarries, if_neg hge]
    exact ih (by omega)

theorem foldCarries_eq_ones_iff {acc : Nat} (h : 0 < acc) :
    foldCarries acc = 65535 ↔ acc ≡ 0 [MOD 65535] := by
  have hpos := foldCarries_pos h
  have hlt := foldCarries_lt acc
  have hmod := foldCarries_modEq acc
  unfold Nat.ModEq at *
  omega

theorem wordSum_cons (a : Byte) (t : List Byte) :
    wordSum (a :: t) ≡ 256 * (a.toNat + wordSum t) [MOD 65535] := by
  induction t generalizing a with
  | nil => simp [wordSum, Nat.ModEq]
  | cons b t ih =>
    have h : 256 * wordSum (b :: t) ≡ b.toNat + wordSum t [MOD 65535] := by
      have := (ih b).mul_left 256
      refine this.trans ?_
      unfold Nat.ModEq
      omega
    have hs : wordSum (a :: b :: t) = 256 * a.toNat + (b.toNat + wordSum t) := by
      rw [wordSum, Nat.add_assoc]
    rw [hs, Nat.mul_add]
    exact h.symm.add_left _

theorem wordSum_append {as : List Byte} (h : as.length % 2 = 0) (bs : List Byte) :
    wordSum (as ++ bs) = wordSum as + wordSum bs := by
  induction as using wordSum.induct with
  | case1 => simp [wordSum]
  | case2 a => simp at h
  | case3 a b t ih =>
    have ht : t.length % 2 = 0 := by
      simp only [List.length_cons] at h
      omega
    simp only [List.cons_append, wordSum, ih ht]
    omega

theorem mul_256_modEq_zero_iff (n : Nat) : 256 * n ≡ 0 [MOD 65535] ↔ n ≡ 0 [MOD 65535] := by
  unfold Nat.ModEq
  omega

/-- Data that begin later within their word have the same zeros. -/
theorem wordSum_zeros_append_modEq_zero_iff (n : Nat) (bs : List Byte) :
    wordSum (List.replicate n 0#8 ++ bs) ≡ 0 [MOD 65535] ↔ wordSum bs ≡ 0 [MOD 65535] := by
  induction n with
  | zero => simp
  | succ n ih =>
    rw [← ih, ← mul_256_modEq_zero_iff (wordSum (List.replicate n 0#8 ++ bs))]
    have hcons := wordSum_cons 0#8 (List.replicate n 0#8 ++ bs)
    rw [BitVec.toNat_zero, Nat.zero_add] at hcons
    exact ⟨hcons.symm.trans, hcons.trans⟩

/-- With `n` bytes in front of them, data that lie in their words as before sum to the same, and
others to the same with the two bytes of each word exchanged. -/
theorem wordSum_zeros_append_modEq (n : Nat) (bs : List Byte) :
    wordSum (List.replicate n 0#8 ++ bs)
      ≡ (if n % 2 = 1 then 256 else 1) * wordSum bs [MOD 65535] := by
  induction n with
  | zero => simpa using Nat.ModEq.refl _
  | succ n ih =>
    have hcons := wordSum_cons 0#8 (List.replicate n 0#8 ++ bs)
    rw [BitVec.toNat_zero, Nat.zero_add] at hcons
    refine hcons.trans ((ih.mul_left 256).trans ?_)
    unfold Nat.ModEq
    by_cases hn : n % 2 = 1
    · rw [if_pos hn, if_neg (by omega)]
      omega
    · rw [if_neg hn, if_pos (by omega)]
      omega

/-- The Internet checksum of `bs` as a number: the word that makes the sum zero, the all-ones form
of zero excluded. -/
structure IsInternetChecksum (bs : List Byte) (c : Nat) : Prop where
  le : c ≤ 0xfffe
  modEq : c + wordSum bs ≡ 0 [MOD 65535]

theorem IsInternetChecksum.unique {bs : List Byte} {c c' : Nat} (h : IsInternetChecksum bs c)
    (h' : IsInternetChecksum bs c') : c = c' := by
  have heq : c + wordSum bs ≡ c' + wordSum bs [MOD 65535] := h.modEq.trans h'.modEq.symm
  have hmod : c ≡ c' [MOD 65535] := Nat.ModEq.add_right_cancel' _ heq
  have hle := h.le
  have hle' := h'.le
  exact hmod.eq_of_lt_of_lt (by omega) (by omega)

end PCom.Lib
