import Mathlib.Data.BitVec
import Mathlib.Data.List.TakeWhile
import Mathlib.Tactic.Ring

namespace PCom.Lib

abbrev Byte := BitVec 8
abbrev Word16 := BitVec 16
abbrev Word32 := BitVec 32

/-- The characters of a C string that starts at the head of `bs`. -/
def cstr (bs : List Byte) : List Byte := bs.takeWhile (· ≠ 0#8)

def strlen (bs : List Byte) : Nat := (cstr bs).length

/-- `memset` to zero, then a read of `bs` into the first bytes of an `n` byte buffer. -/
def zeroPad (n : Nat) (bs : List Byte) : List Byte := bs ++ List.replicate (n - bs.length) 0#8

theorem length_zeroPad {n : Nat} {bs : List Byte} (h : bs.length ≤ n) : (zeroPad n bs).length = n := by
  rw [zeroPad, List.length_append, List.length_replicate]
  omega

theorem cstr_append_of_mem {bs : List Byte} (h : 0#8 ∈ bs) (cs : List Byte) :
    cstr (bs ++ cs) = cstr bs := by
  induction bs with
  | nil => simp at h
  | cons b bs ih =>
    by_cases hb : b = 0#8
    · simp [cstr, hb]
    · have hbs : 0#8 ∈ bs := (List.mem_cons.mp h).resolve_left (Ne.symm hb)
      simpa [cstr, List.takeWhile_cons, hb] using ih hbs

theorem cstr_append_of_not_mem {bs : List Byte} (h : 0#8 ∉ bs) (cs : List Byte) :
    cstr (bs ++ cs) = bs ++ cstr cs := by
  apply List.takeWhile_append_of_pos
  intro b hb
  simpa using fun h0 : b = 0#8 => h (h0 ▸ hb)

@[simp] theorem cstr_replicate_zero (n : Nat) : cstr (List.replicate n 0#8) = [] := by
  cases n <;> simp [cstr, List.replicate_succ]

@[simp] theorem cstr_nil : cstr [] = [] := rfl

@[simp] theorem cstr_zero_cons (bs : List Byte) : cstr (0#8 :: bs) = [] := by simp [cstr]

theorem cstr_cons_of_ne {b : Byte} (h : b ≠ 0#8) (bs : List Byte) :
    cstr (b :: bs) = b :: cstr bs := by
  simpa [cstr, List.takeWhile_cons] using h

theorem cstr_of_not_mem {bs : List Byte} (h : 0#8 ∉ bs) : cstr bs = bs := by
  simpa using cstr_append_of_not_mem h []

@[simp] theorem cstr_append_replicate (bs : List Byte) (n : Nat) :
    cstr (bs ++ List.replicate n 0#8) = cstr bs := by
  by_cases h : 0#8 ∈ bs
  · exact cstr_append_of_mem h _
  · rw [cstr_append_of_not_mem h, cstr_replicate_zero, List.append_nil, cstr_of_not_mem h]

@[simp] theorem cstr_zeroPad (n : Nat) (bs : List Byte) : cstr (zeroPad n bs) = cstr bs :=
  cstr_append_replicate bs _

@[simp] theorem cstr_cstr (bs : List Byte) : cstr (cstr bs) = cstr bs :=
  List.takeWhile_idem

/-- A string in a field of `n` bytes ends in it, or runs on when it fills the field. -/
theorem cstr_zeroPad_append {n : Nat} {bs : List Byte} (h0 : 0#8 ∉ bs) (hlen : bs.length ≤ n)
    (rest : List Byte) :
    cstr (zeroPad n bs ++ rest) = bs ++ if bs.length < n then [] else cstr rest := by
  rw [zeroPad, List.append_assoc, cstr_append_of_not_mem h0]
  split
  next h =>
    obtain ⟨k, hk⟩ : ∃ k, n - bs.length = k + 1 := ⟨n - bs.length - 1, by omega⟩
    rw [hk, List.replicate_succ, List.cons_append, cstr_zero_cons]
  next h =>
    rw [show n - bs.length = 0 by omega, List.replicate_zero, List.nil_append]

theorem exists_eq_cstr_append {bs : List Byte} (h : 0#8 ∈ bs) : ∃ rest, bs = cstr bs ++ 0#8 :: rest := by
  induction bs with
  | nil => simp at h
  | cons b bs ih =>
    by_cases hb : b = 0#8
    · exact ⟨bs, by simp [hb]⟩
    · obtain ⟨rest, hrest⟩ := ih ((List.mem_cons.mp h).resolve_left (Ne.symm hb))
      refine ⟨rest, ?_⟩
      rw [cstr_cons_of_ne hb, List.cons_append, ← hrest]

theorem strlen_le (bs : List Byte) : strlen bs ≤ bs.length :=
  (List.takeWhile_prefix _).length_le

theorem strlen_lt_of_mem {bs : List Byte} (h : 0#8 ∈ bs) : strlen bs < bs.length := by
  obtain ⟨rest, hrest⟩ := exists_eq_cstr_append h
  have hlength := congrArg List.length hrest
  rw [List.length_append, List.length_cons] at hlength
  rw [strlen]
  omega

theorem zeroPad_take_strlen {n : Nat} {bs : List Byte} (h : bs.length ≤ n) :
    zeroPad n (bs.take (strlen bs + 1)) = zeroPad n (cstr bs) := by
  by_cases h0 : 0#8 ∈ bs
  · obtain ⟨rest, hrest⟩ := exists_eq_cstr_append h0
    have htake : bs.take (strlen bs + 1) = cstr bs ++ [0#8] := by
      calc
        bs.take (strlen bs + 1) = (cstr bs ++ 0#8 :: rest).take ((cstr bs).length + 1) := by
          rw [← hrest, strlen]
        _ = cstr bs ++ [0#8] := by
          rw [List.take_length_add_append, List.take_succ_cons, List.take_zero]
    have hlen : (cstr bs).length + 1 ≤ n := by
      have := congrArg List.length hrest
      rw [List.length_append, List.length_cons] at this
      omega
    rw [htake, zeroPad, zeroPad, List.append_assoc, List.length_append, List.length_singleton,
      List.singleton_append, ← List.replicate_succ]
    congr 2
    omega
  · rw [strlen, cstr_of_not_mem h0, List.take_of_length_le (Nat.le_succ _)]

theorem take_zeroPad_take {n k : Nat} {bs : List Byte} (h : k ≤ bs.length) :
    (zeroPad n (bs.take k)).take k = bs.take k :=
  List.take_left' (List.length_take_of_le h)

/-- Bytes in memory order as the word an x86 load gives. -/
def le16 (b0 b1 : Byte) : Word16 := b1 ++ b0

def le32 (b0 b1 b2 b3 : Byte) : Word32 := b3 ++ b2 ++ b1 ++ b0

/-- Byte `i` of a word, counted from the least significant one. -/
def byteOf (w : BitVec n) (i : Nat) : Byte := w.extractLsb' (8 * i) 8

def bytes16 (w : Word16) : List Byte := [byteOf w 0, byteOf w 1]

def bytes32 (w : Word32) : List Byte := [byteOf w 0, byteOf w 1, byteOf w 2, byteOf w 3]

/-- The `k` bytes of a number, the least significant one first. -/
def leBytes : Nat → Nat → List Byte
  | 0, _ => []
  | k + 1, n => BitVec.ofNat 8 n :: leBytes k (n / 256)

def leValue : List Byte → Nat
  | [] => 0
  | b :: bs => b.toNat + 256 * leValue bs

def htons (w : Word16) : Word16 := le16 (byteOf w 1) (byteOf w 0)

def htonl (w : Word32) : Word32 := le32 (byteOf w 3) (byteOf w 2) (byteOf w 1) (byteOf w 0)

/-- Swapping the bytes is its own inverse, so one function serves both directions. -/
abbrev ntohs := htons
abbrev ntohl := htonl

@[simp] theorem length_leBytes (k n : Nat) : (leBytes k n).length = k := by
  induction k generalizing n with
  | zero => rfl
  | succ k ih => simp [leBytes, ih]

theorem leValue_leBytes {k n : Nat} (h : n < 256 ^ k) : leValue (leBytes k n) = n := by
  induction k generalizing n with
  | zero => simp [leBytes, leValue, Nat.lt_one_iff.mp h]
  | succ k ih =>
    have hdiv : n / 256 < 256 ^ k := by
      rw [Nat.div_lt_iff_lt_mul (by decide)]
      rwa [Nat.pow_succ] at h
    rw [leBytes, leValue, ih hdiv, BitVec.toNat_ofNat]
    omega

theorem toNat_le16 (b0 b1 : Byte) : (le16 b0 b1).toNat = b0.toNat + 256 * b1.toNat := by
  rw [le16, BitVec.toNat_append, ← Nat.shiftLeft_add_eq_or_of_lt b0.isLt, Nat.shiftLeft_eq]
  omega

theorem toNat_le32 (b0 b1 b2 b3 : Byte) :
    (le32 b0 b1 b2 b3).toNat =
      b0.toNat + 256 * b1.toNat + 65536 * b2.toNat + 16777216 * b3.toNat := by
  have h0 := b0.isLt
  have h1 := b1.isLt
  have h2 := b2.isLt
  simp only [le32, BitVec.toNat_append]
  rw [← Nat.shiftLeft_add_eq_or_of_lt h2, ← Nat.shiftLeft_add_eq_or_of_lt h1,
    ← Nat.shiftLeft_add_eq_or_of_lt h0]
  simp only [Nat.shiftLeft_eq]
  omega

theorem toNat_byteOf (w : BitVec n) (i : Nat) :
    (byteOf w i).toNat = w.toNat / 2 ^ (8 * i) % 256 := by
  simp [byteOf, BitVec.extractLsb'_toNat, Nat.shiftRight_eq_div_pow]

@[simp] theorem le16_bytes16 (w : Word16) : le16 (byteOf w 0) (byteOf w 1) = w := by
  apply BitVec.eq_of_toNat_eq
  have := w.isLt
  rw [toNat_le16, toNat_byteOf, toNat_byteOf]
  omega

@[simp] theorem le32_bytes32 (w : Word32) :
    le32 (byteOf w 0) (byteOf w 1) (byteOf w 2) (byteOf w 3) = w := by
  apply BitVec.eq_of_toNat_eq
  have := w.isLt
  rw [toNat_le32, toNat_byteOf, toNat_byteOf, toNat_byteOf, toNat_byteOf]
  omega

@[simp] theorem byteOf_le16_one (b0 b1 : Byte) : byteOf (le16 b0 b1) 1 = b1 := by
  apply BitVec.eq_of_toNat_eq
  rw [toNat_byteOf, toNat_le16]
  have := b0.isLt
  have := b1.isLt
  omega

@[simp] theorem byteOf_le16_zero (b0 b1 : Byte) : byteOf (le16 b0 b1) 0 = b0 := by
  apply BitVec.eq_of_toNat_eq
  rw [toNat_byteOf, toNat_le16]
  have := b0.isLt
  omega

theorem toNat_htons (w : Word16) : (htons w).toNat = w.toNat / 256 + 256 * (w.toNat % 256) := by
  have hlt := w.isLt
  rw [htons, toNat_le16, toNat_byteOf, toNat_byteOf]
  omega

@[simp] theorem htons_htons (w : Word16) : htons (htons w) = w := by
  rw [htons, htons, byteOf_le16_one, byteOf_le16_zero, le16_bytes16]

@[simp] theorem byteOf_le32_zero (b0 b1 b2 b3 : Byte) : byteOf (le32 b0 b1 b2 b3) 0 = b0 := by
  apply BitVec.eq_of_toNat_eq
  rw [toNat_byteOf, toNat_le32]
  have := b0.isLt
  omega

@[simp] theorem byteOf_le32_one (b0 b1 b2 b3 : Byte) : byteOf (le32 b0 b1 b2 b3) 1 = b1 := by
  apply BitVec.eq_of_toNat_eq
  rw [toNat_byteOf, toNat_le32]
  have := b0.isLt
  have := b1.isLt
  omega

@[simp] theorem byteOf_le32_two (b0 b1 b2 b3 : Byte) : byteOf (le32 b0 b1 b2 b3) 2 = b2 := by
  apply BitVec.eq_of_toNat_eq
  rw [toNat_byteOf, toNat_le32]
  have := b0.isLt
  have := b1.isLt
  have := b2.isLt
  omega

@[simp] theorem byteOf_le32_three (b0 b1 b2 b3 : Byte) : byteOf (le32 b0 b1 b2 b3) 3 = b3 := by
  apply BitVec.eq_of_toNat_eq
  rw [toNat_byteOf, toNat_le32]
  have := b0.isLt
  have := b1.isLt
  have := b2.isLt
  have := b3.isLt
  omega

theorem toNat_ntohl_le32 (b0 b1 b2 b3 : Byte) :
    (ntohl (le32 b0 b1 b2 b3)).toNat =
      16777216 * b0.toNat + 65536 * b1.toNat + 256 * b2.toNat + b3.toNat := by
  rw [ntohl, htonl]
  simp only [byteOf_le32_zero, byteOf_le32_one, byteOf_le32_two, byteOf_le32_three]
  rw [toNat_le32]
  omega

end PCom.Lib
