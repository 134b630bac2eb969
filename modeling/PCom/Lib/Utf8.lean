import PCom.Lib.Bytes

/-! The bytes of Unicode characters in UTF-8, case by case, and a reader of hexadecimal digits. -/

namespace PCom.Lib

def utf8 (c : Char) : List Byte := (String.utf8EncodeChar c).map UInt8.toBitVec

def IsUtf8 (s : List Byte) : Prop := ∃ cs : List Char, s = cs.flatMap utf8

theorem toNat_scalar (c : Char) : c.toNat < 0xD800 ∨ 0xDFFF < c.toNat ∧ c.toNat < 0x110000 := c.valid

theorem exists_char {n : Nat} (h : n < 0xD800 ∨ 0xDFFF < n ∧ n < 0x110000) : ∃ c : Char, c.toNat = n :=
  ⟨Char.ofNatAux n h, rfl⟩

section Cases

variable {c : Char}

theorem utf8_one (h : c.toNat < 0x80) : utf8 c = [BitVec.ofNat 8 c.toNat] := by
  rw [utf8, String.utf8EncodeChar, if_pos (show c.val.toNat ≤ 0x7f from Nat.le_of_lt_succ h)]
  rfl

theorem utf8_two (h : 0x80 ≤ c.toNat) (h' : c.toNat < 0x800) :
    utf8 c = [BitVec.ofNat 8 (c.toNat / 64 + 0xC0), BitVec.ofNat 8 (c.toNat % 64 + 0x80)] := by
  have hone : ¬ c.val.toNat ≤ 0x7f := Nat.not_le.mpr h
  have hlt : c.toNat / 64 < 0x20 := by omega
  have hhigh : c.val.toNat / 64 % 0x20 = c.toNat / 64 := Nat.mod_eq_of_lt hlt
  rw [utf8, String.utf8EncodeChar, if_neg hone,
    if_pos (show c.val.toNat ≤ 0x7ff from Nat.le_of_lt_succ h'), hhigh]
  rfl

theorem utf8_three (h : 0x800 ≤ c.toNat) (h' : c.toNat < 0x10000) :
    utf8 c = [BitVec.ofNat 8 (c.toNat / 4096 + 0xE0), BitVec.ofNat 8 (c.toNat / 64 % 64 + 0x80),
      BitVec.ofNat 8 (c.toNat % 64 + 0x80)] := by
  have hone : ¬ c.val.toNat ≤ 0x7f := Nat.not_le.mpr (Nat.lt_of_lt_of_le (by decide) h)
  have htwo : ¬ c.val.toNat ≤ 0x7ff := Nat.not_le.mpr h
  have hlt : c.toNat / 4096 < 0x10 := by omega
  have hhigh : c.val.toNat / 4096 % 0x10 = c.toNat / 4096 := Nat.mod_eq_of_lt hlt
  rw [utf8, String.utf8EncodeChar, if_neg hone, if_neg htwo,
    if_pos (show c.val.toNat ≤ 0xffff from Nat.le_of_lt_succ h'), hhigh]
  rfl

theorem utf8_four (h : 0x10000 ≤ c.toNat) :
    utf8 c = [BitVec.ofNat 8 (c.toNat / 262144 + 0xF0), BitVec.ofNat 8 (c.toNat / 4096 % 64 + 0x80),
      BitVec.ofNat 8 (c.toNat / 64 % 64 + 0x80), BitVec.ofNat 8 (c.toNat % 64 + 0x80)] := by
  have hone : ¬ c.val.toNat ≤ 0x7f := Nat.not_le.mpr (Nat.lt_of_lt_of_le (by decide) h)
  have htwo : ¬ c.val.toNat ≤ 0x7ff := Nat.not_le.mpr (Nat.lt_of_lt_of_le (by decide) h)
  have hthree : ¬ c.val.toNat ≤ 0xffff := Nat.not_le.mpr h
  have hscalar := toNat_scalar c
  have hlt : c.toNat / 262144 < 0x08 := by omega
  have hhigh : c.val.toNat / 262144 % 0x08 = c.toNat / 262144 := Nat.mod_eq_of_lt hlt
  rw [utf8, String.utf8EncodeChar, if_neg hone, if_neg htwo, if_neg hthree, hhigh]
  rfl

theorem utf8_ne_nil (c : Char) : utf8 c ≠ [] := by
  simp [utf8]

end Cases

def hexValue (c : Byte) : Option Nat :=
  if 48 ≤ c.toNat ∧ c.toNat ≤ 57 then some (c.toNat - 48)
  else if 97 ≤ c.toNat ∧ c.toNat ≤ 102 then some (c.toNat - 97 + 10)
  else if 65 ≤ c.toNat ∧ c.toNat ≤ 70 then some (c.toNat - 65 + 10)
  else none

def hexDigit (n : Nat) : Byte := if n < 10 then BitVec.ofNat 8 (48 + n) else BitVec.ofNat 8 (87 + n)

theorem hexValue_hexDigit {n : Nat} (h : n < 16) : hexValue (hexDigit n) = some n := by
  revert n
  decide

theorem hexValue_lt {c : Byte} {n : Nat} (h : hexValue c = some n) : n < 16 := by
  rw [hexValue] at h
  split at h
  next =>
    cases h
    omega
  next =>
    split at h
    next =>
      cases h
      omega
    next =>
      split at h
      next =>
        cases h
        omega
      next => cases h

def hex4Value (x1 x2 x3 x4 : Nat) : Nat := 4096 * x1 + 256 * x2 + 16 * x3 + x4

end PCom.Lib
