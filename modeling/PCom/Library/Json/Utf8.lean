import PCom.Lib.Utf8
import PCom.Library.Requests

/-! Which strings `json_value_init_string` takes: `is_valid_utf8`. -/

namespace PCom.Library.Json

open Lib

def isCont (b : Byte) : Bool := b &&& 0xC0 == 0x80

def numBytesInUtf8Sequence (c : Byte) : Nat :=
  if c = 0xC0 ∨ c = 0xC1 ∨ 0xF4 < c ∨ isCont c then 0
  else if c &&& 0x80 = 0 then 1
  else if c &&& 0xE0 = 0xC0 then 2
  else if c &&& 0xF0 = 0xE0 then 3
  else if c &&& 0xF8 = 0xF0 then 4
  else 0

/-- `cp` with the six bits of one more byte. -/
def addCont (cp : Nat) (b : Byte) : Nat := cp <<< 6 ||| (b &&& 0x3F).toNat

/-- `cp`, if there are as many continuation bytes as the length asks for. -/
def codePoint (len : Nat) (b0 b1 b2 b3 : Byte) : Option Nat :=
  if len = 1 then some b0.toNat
  else if len = 2 ∧ isCont b1 then some (addCont (b0 &&& 0x1F).toNat b1)
  else if len = 3 ∧ isCont b1 ∧ isCont b2 then some (addCont (addCont (b0 &&& 0xF).toNat b1) b2)
  else if len = 4 ∧ isCont b1 ∧ isCont b2 ∧ isCont b3 then
    some (addCont (addCont (addCont (b0 &&& 0x7).toNat b1) b2) b3)
  else none

/-- No overlong encodings, nothing above the last code point and no surrogate halves. -/
def checkCodePoint (len cp : Nat) : Bool :=
  if cp < 0x80 ∧ 1 < len ∨ cp < 0x800 ∧ 2 < len ∨ cp < 0x10000 ∧ 3 < len then false
  else if 0x10FFFF < cp then false
  else if 0xD800 ≤ cp ∧ cp ≤ 0xDFFF then false
  else true

/-- The length of the sequence, if it is one.  `string` is the memory from a pointer on. -/
def verifyUtf8Sequence (string : Nat → Byte) : Option Nat :=
  let len := numBytesInUtf8Sequence (string 0)
  match codePoint len (string 0) (string 1) (string 2) (string 3) with
  | none => none
  | some cp => if checkCodePoint len cp then some len else none

/-- The loop, with as many passes as there are bytes in front of `string_end`. -/
def isValidUtf8Loop : Nat → (Nat → Byte) → Nat → Bool
  | _, _, 0 => true
  | 0, _, _ + 1 => false
  | passes + 1, string, left + 1 =>
    match verifyUtf8Sequence string with
    | none => false
    | some len => isValidUtf8Loop passes (fun i => string (i + len)) (left + 1 - len)

/-- The last sequence may go on behind the length. -/
def isValidUtf8 (string : Nat → Byte) (stringLen : Nat) : Bool :=
  isValidUtf8Loop stringLen string stringLen

def bytes (string : Nat → Byte) (n : Nat) : Str := (List.range n).map string

def terminated (s : Str) (i : Nat) : Byte := s.getD i 0

/-! ## Bytes as numbers -/

theorem isCont_iff {b : Byte} : isCont b = true ↔ 0x80 ≤ b.toNat ∧ b.toNat < 0xC0 := by
  revert b
  set_option maxRecDepth 10000 in
  decide

theorem numBytes_eq (c : Byte) : numBytesInUtf8Sequence c =
    if c.toNat < 0x80 then 1 else if c.toNat < 0xC2 then 0 else if c.toNat < 0xE0 then 2
    else if c.toNat < 0xF0 then 3 else if c.toNat < 0xF5 then 4 else 0 := by
  revert c
  set_option maxRecDepth 10000 in
  decide

theorem numBytes_range {b : Byte} {n : Nat} (h : numBytesInUtf8Sequence b = n) :
    (n = 1 → b.toNat < 0x80) ∧ (n = 2 → 0xC2 ≤ b.toNat ∧ b.toNat < 0xE0) ∧
      (n = 3 → 0xE0 ≤ b.toNat ∧ b.toNat < 0xF0) ∧ (n = 4 → 0xF0 ≤ b.toNat ∧ b.toNat < 0xF5) := by
  rw [numBytes_eq] at h
  split_ifs at h <;> omega

theorem addCont_eq (cp : Nat) {b : Byte} (h : isCont b = true) :
    addCont cp b = 64 * cp + (b.toNat - 0x80) := by
  have hrange := isCont_iff.mp h
  have hb : (b &&& 0x3F).toNat = b.toNat - 0x80 := by
    have hmod : (b &&& 0x3F).toNat = b.toNat % 2 ^ 6 := Nat.and_two_pow_sub_one_eq_mod b.toNat 6
    omega
  have hlt : (b &&& 0x3F).toNat < 2 ^ 6 := by
    omega
  rw [addCont, ← Nat.shiftLeft_add_eq_or_of_lt hlt, Nat.shiftLeft_eq, hb]
  omega

theorem lead_two {b : Byte} (h : numBytesInUtf8Sequence b = 2) :
    (b &&& 0x1F).toNat = b.toNat - 0xC0 := by
  have hrange := (numBytes_range h).2.1 rfl
  have hmod : (b &&& 0x1F).toNat = b.toNat % 2 ^ 5 := Nat.and_two_pow_sub_one_eq_mod b.toNat 5
  omega

theorem lead_three {b : Byte} (h : numBytesInUtf8Sequence b = 3) :
    (b &&& 0xF).toNat = b.toNat - 0xE0 := by
  have hrange := (numBytes_range h).2.2.1 rfl
  have hmod : (b &&& 0xF).toNat = b.toNat % 2 ^ 4 := Nat.and_two_pow_sub_one_eq_mod b.toNat 4
  omega

theorem lead_four {b : Byte} (h : numBytesInUtf8Sequence b = 4) :
    (b &&& 0x7).toNat = b.toNat - 0xF0 := by
  have hrange := (numBytes_range h).2.2.2 rfl
  have hmod : (b &&& 0x7).toNat = b.toNat % 2 ^ 3 := Nat.and_two_pow_sub_one_eq_mod b.toNat 3
  omega

theorem checkCodePoint_iff {len cp : Nat} : checkCodePoint len cp = true ↔
    (cp < 0xD800 ∨ 0xDFFF < cp ∧ cp < 0x110000) ∧ (1 < len → 0x80 ≤ cp) ∧ (2 < len → 0x800 ≤ cp) ∧
      (3 < len → 0x10000 ≤ cp) := by
  rw [checkCodePoint]
  split
  next =>
    refine iff_of_false (by decide) ?_
    omega
  next =>
    split
    next =>
      refine iff_of_false (by decide) ?_
      omega
    next =>
      split
      next =>
        refine iff_of_false (by decide) ?_
        omega
      next =>
        refine iff_of_true rfl ?_
        omega

theorem toNat_ofNat_byte {b : Byte} {n : Nat} (hb : BitVec.ofNat 8 n = b) (h : n < 256) :
    b.toNat = n := by
  rw [← hb, BitVec.toNat_ofNat]
  exact Nat.mod_eq_of_lt h

/-! ## Sequences of two, three and four bytes -/

section Sequences

variable {string : Nat → Byte}

theorem verify_one (h0 : numBytesInUtf8Sequence (string 0) = 1) :
    verifyUtf8Sequence string = some 1 := by
  have hb : (string 0).toNat < 0x80 := (numBytes_range h0).1 rfl
  have hcheck : checkCodePoint 1 (string 0).toNat = true := checkCodePoint_iff.mpr (by omega)
  simp only [verifyUtf8Sequence, h0, codePoint, if_true, hcheck]

theorem verify_two (h0 : numBytesInUtf8Sequence (string 0) = 2) (h1 : isCont (string 1) = true) :
    verifyUtf8Sequence string =
      if checkCodePoint 2 (64 * ((string 0).toNat - 0xC0) + ((string 1).toNat - 0x80)) then some 2
      else none := by
  have hcp : codePoint 2 (string 0) (string 1) (string 2) (string 3)
      = some (64 * ((string 0).toNat - 0xC0) + ((string 1).toNat - 0x80)) := by
    rw [codePoint, if_neg (by decide), if_pos ⟨rfl, h1⟩, addCont_eq _ h1, lead_two h0]
  simp only [verifyUtf8Sequence, h0, hcp]

theorem verify_three (h0 : numBytesInUtf8Sequence (string 0) = 3) (h1 : isCont (string 1) = true)
    (h2 : isCont (string 2) = true) : verifyUtf8Sequence string =
      if checkCodePoint 3 (64 * (64 * ((string 0).toNat - 0xE0) + ((string 1).toNat - 0x80))
        + ((string 2).toNat - 0x80)) then some 3 else none := by
  have hcp : codePoint 3 (string 0) (string 1) (string 2) (string 3)
      = some (64 * (64 * ((string 0).toNat - 0xE0) + ((string 1).toNat - 0x80))
        + ((string 2).toNat - 0x80)) := by
    rw [codePoint, if_neg (by decide), if_neg (fun h => absurd h.1 (by decide)),
      if_pos ⟨rfl, h1, h2⟩, addCont_eq _ h2, addCont_eq _ h1, lead_three h0]
  simp only [verifyUtf8Sequence, h0, hcp]

theorem verify_four (h0 : numBytesInUtf8Sequence (string 0) = 4) (h1 : isCont (string 1) = true)
    (h2 : isCont (string 2) = true) (h3 : isCont (string 3) = true) :
    verifyUtf8Sequence string =
      if checkCodePoint 4 (64 * (64 * (64 * ((string 0).toNat - 0xF0) + ((string 1).toNat - 0x80))
        + ((string 2).toNat - 0x80)) + ((string 3).toNat - 0x80)) then some 4 else none := by
  have hcp : codePoint 4 (string 0) (string 1) (string 2) (string 3)
      = some (64 * (64 * (64 * ((string 0).toNat - 0xF0) + ((string 1).toNat - 0x80))
        + ((string 2).toNat - 0x80)) + ((string 3).toNat - 0x80)) := by
    rw [codePoint, if_neg (by decide), if_neg (fun h => absurd h.1 (by decide)),
      if_neg (fun h => absurd h.1 (by decide)), if_pos ⟨rfl, h1, h2, h3⟩, addCont_eq _ h3,
      addCont_eq _ h2, addCont_eq _ h1, lead_four h0]
  simp only [verifyUtf8Sequence, h0, hcp]

end Sequences

@[simp] theorem length_bytes (string : Nat → Byte) (n : Nat) : (bytes string n).length = n := by
  rw [bytes, List.length_map, List.length_range]

theorem bytes_add (string : Nat → Byte) (m n : Nat) :
    bytes string (m + n) = bytes string m ++ bytes (fun i => string (i + m)) n := by
  rw [bytes, List.range_add, List.map_append, List.map_map]
  refine congrArg (bytes string m ++ ·) (List.map_congr_left fun i _ => ?_)
  rw [Function.comp_apply, Nat.add_comm]

theorem verify_utf8 {string : Nat → Byte} {n : Nat} {c : Char} (h : utf8 c = bytes string n) :
    verifyUtf8Sequence string = some n := by
  have hscalar := toNat_scalar c
  obtain rfl : (utf8 c).length = n := by rw [h, length_bytes]
  by_cases h1 : c.toNat < 0x80
  · rw [utf8_one h1] at h ⊢
    obtain ⟨h0, -⟩ := List.cons.inj h
    refine verify_one ?_
    rw [numBytes_eq, toNat_ofNat_byte h0 (by omega), if_pos h1]
  by_cases h2 : c.toNat < 0x800
  · rw [utf8_two (by omega) h2] at h ⊢
    obtain ⟨h0, h⟩ := List.cons.inj h
    obtain ⟨h1, -⟩ := List.cons.inj h
    have hb0 : (string 0).toNat = c.toNat / 64 + 0xC0 := toNat_ofNat_byte h0 (by omega)
    have hb1 : (string 1).toNat = c.toNat % 64 + 0x80 := toNat_ofNat_byte h1 (by omega)
    refine (verify_two ?_ ?_).trans (if_pos ?_)
    · rw [numBytes_eq, hb0, if_neg (by omega), if_neg (by omega), if_pos (by omega)]
    · rw [isCont_iff, hb1]
      omega
    · rw [checkCodePoint_iff, hb0, hb1]
      omega
  by_cases h3 : c.toNat < 0x10000
  · rw [utf8_three (by omega) h3] at h ⊢
    obtain ⟨h0, h⟩ := List.cons.inj h
    obtain ⟨h1, h⟩ := List.cons.inj h
    obtain ⟨h2, -⟩ := List.cons.inj h
    have hb0 : (string 0).toNat = c.toNat / 4096 + 0xE0 := toNat_ofNat_byte h0 (by omega)
    have hb1 : (string 1).toNat = c.toNat / 64 % 64 + 0x80 := toNat_ofNat_byte h1 (by omega)
    have hb2 : (string 2).toNat = c.toNat % 64 + 0x80 := toNat_ofNat_byte h2 (by omega)
    refine (verify_three ?_ ?_ ?_).trans (if_pos ?_)
    · rw [numBytes_eq, hb0, if_neg (by omega), if_neg (by omega), if_neg (by omega),
        if_pos (by omega)]
    · rw [isCont_iff, hb1]
      omega
    · rw [isCont_iff, hb2]
      omega
    · rw [checkCodePoint_iff, hb0, hb1, hb2]
      omega
  · rw [utf8_four (by omega)] at h ⊢
    obtain ⟨h0, h⟩ := List.cons.inj h
    obtain ⟨h1, h⟩ := List.cons.inj h
    obtain ⟨h2, h⟩ := List.cons.inj h
    obtain ⟨h3, -⟩ := List.cons.inj h
    have hb0 : (string 0).toNat = c.toNat / 262144 + 0xF0 := toNat_ofNat_byte h0 (by omega)
    have hb1 : (string 1).toNat = c.toNat / 4096 % 64 + 0x80 := toNat_ofNat_byte h1 (by omega)
    have hb2 : (string 2).toNat = c.toNat / 64 % 64 + 0x80 := toNat_ofNat_byte h2 (by omega)
    have hb3 : (string 3).toNat = c.toNat % 64 + 0x80 := toNat_ofNat_byte h3 (by omega)
    refine (verify_four ?_ ?_ ?_ ?_).trans (if_pos ?_)
    · rw [numBytes_eq, hb0, if_neg (by omega), if_neg (by omega), if_neg (by omega),
        if_neg (by omega), if_pos (by omega)]
    · rw [isCont_iff, hb1]
      omega
    · rw [isCont_iff, hb2]
      omega
    · rw [isCont_iff, hb3]
      omega
    · rw [checkCodePoint_iff, hb0, hb1, hb2, hb3]
      omega

theorem ofNat_eq_byte {b : Byte} {n : Nat} (h : n = b.toNat) : BitVec.ofNat 8 n = b := by
  rw [h, BitVec.ofNat_toNat, BitVec.setWidth_eq]

section Characters

variable {b0 b1 b2 b3 : Byte}

theorem exists_utf8_one (h0 : numBytesInUtf8Sequence b0 = 1) : ∃ c, utf8 c = [b0] := by
  have hb0 := (numBytes_range h0).1 rfl
  obtain ⟨c, hc⟩ := exists_char
    (show b0.toNat < 0xD800 ∨ 0xDFFF < b0.toNat ∧ b0.toNat < 0x110000 by omega)
  exact ⟨c, by rw [utf8_one (by omega), hc, ofNat_eq_byte rfl]⟩

theorem exists_utf8_two (h0 : numBytesInUtf8Sequence b0 = 2) (h1 : isCont b1 = true)
    (h : checkCodePoint 2 (64 * (b0.toNat - 0xC0) + (b1.toNat - 0x80)) = true) :
    ∃ c, utf8 c = [b0, b1] := by
  have hb0 := (numBytes_range h0).2.1 rfl
  have hb1 := isCont_iff.mp h1
  obtain ⟨hscalar, hlong, -⟩ := checkCodePoint_iff.mp h
  obtain ⟨c, hc⟩ := exists_char hscalar
  refine ⟨c, ?_⟩
  rw [utf8_two (by omega) (by omega), ofNat_eq_byte (b := b0) (by omega),
    ofNat_eq_byte (b := b1) (by omega)]

theorem exists_utf8_three (h0 : numBytesInUtf8Sequence b0 = 3) (h1 : isCont b1 = true)
    (h2 : isCont b2 = true) (h : checkCodePoint 3
      (64 * (64 * (b0.toNat - 0xE0) + (b1.toNat - 0x80)) + (b2.toNat - 0x80)) = true) :
    ∃ c, utf8 c = [b0, b1, b2] := by
  have hb0 := (numBytes_range h0).2.2.1 rfl
  have hb1 := isCont_iff.mp h1
  have hb2 := isCont_iff.mp h2
  obtain ⟨hscalar, -, hlong, -⟩ := checkCodePoint_iff.mp h
  obtain ⟨c, hc⟩ := exists_char hscalar
  refine ⟨c, ?_⟩
  rw [utf8_three (by omega) (by omega), ofNat_eq_byte (b := b0) (by omega),
    ofNat_eq_byte (b := b1) (by omega), ofNat_eq_byte (b := b2) (by omega)]

theorem exists_utf8_four (h0 : numBytesInUtf8Sequence b0 = 4) (h1 : isCont b1 = true)
    (h2 : isCont b2 = true) (h3 : isCont b3 = true) (h : checkCodePoint 4
      (64 * (64 * (64 * (b0.toNat - 0xF0) + (b1.toNat - 0x80)) + (b2.toNat - 0x80))
        + (b3.toNat - 0x80)) = true) : ∃ c, utf8 c = [b0, b1, b2, b3] := by
  have hb0 := (numBytes_range h0).2.2.2 rfl
  have hb1 := isCont_iff.mp h1
  have hb2 := isCont_iff.mp h2
  have hb3 := isCont_iff.mp h3
  obtain ⟨hscalar, -, -, hlong⟩ := checkCodePoint_iff.mp h
  obtain ⟨c, hc⟩ := exists_char hscalar
  refine ⟨c, ?_⟩
  rw [utf8_four (by omega), ofNat_eq_byte (b := b0) (by omega), ofNat_eq_byte (b := b1) (by omega),
    ofNat_eq_byte (b := b2) (by omega), ofNat_eq_byte (b := b3) (by omega)]

end Characters

theorem utf8_of_verify {string : Nat → Byte} {n : Nat} (h : verifyUtf8Sequence string = some n) :
    (∃ c, utf8 c = bytes string n) ∧ ∀ i, 0 < i → i < n → isCont (string i) = true := by
  -- The first byte and the continuation bytes that are there select the lemma.
  have hverify := h
  rw [verifyUtf8Sequence] at h
  obtain ⟨len, hlen⟩ : ∃ len, numBytesInUtf8Sequence (string 0) = len := ⟨_, rfl⟩
  rw [hlen] at h
  cases hcp : codePoint len (string 0) (string 1) (string 2) (string 3) with
  | none =>
    rw [hcp] at h
    cases h
  | some cp =>
    clear h
    rw [codePoint] at hcp
    split at hcp
    next h =>
      subst h
      rw [verify_one hlen] at hverify
      cases hverify
      exact ⟨exists_utf8_one hlen, fun i hi hin => by omega⟩
    next =>
    split at hcp
    next h =>
      obtain ⟨rfl, h1⟩ := h
      rw [verify_two hlen h1] at hverify
      obtain ⟨hcheck, hn⟩ := Option.ite_none_right_eq_some.mp hverify
      cases hn
      refine ⟨exists_utf8_two hlen h1 hcheck, fun i hi hin => ?_⟩
      obtain rfl : i = 1 := by omega
      exact h1
    next =>
    split at hcp
    next h =>
      obtain ⟨rfl, h1, h2⟩ := h
      rw [verify_three hlen h1 h2] at hverify
      obtain ⟨hcheck, hn⟩ := Option.ite_none_right_eq_some.mp hverify
      cases hn
      refine ⟨exists_utf8_three hlen h1 h2 hcheck, fun i hi hin => ?_⟩
      obtain rfl | rfl : i = 1 ∨ i = 2 := by omega
      · exact h1
      · exact h2
    next =>
    split at hcp
    next h =>
      obtain ⟨rfl, h1, h2, h3⟩ := h
      rw [verify_four hlen h1 h2 h3] at hverify
      obtain ⟨hcheck, hn⟩ := Option.ite_none_right_eq_some.mp hverify
      cases hn
      refine ⟨exists_utf8_four hlen h1 h2 h3 hcheck, fun i hi hin => ?_⟩
      obtain rfl | rfl | rfl : i = 1 ∨ i = 2 ∨ i = 3 := by omega
      · exact h1
      · exact h2
      · exact h3
    next => cases hcp

/-! ## Strings -/

theorem isValidUtf8Loop_of_chars (cs : List Char) {passes left n : Nat} {string : Nat → Byte}
    (h : cs.flatMap utf8 = bytes string n) (hleft : left ≤ n) (hpasses : left ≤ passes) :
    isValidUtf8Loop passes string left = true := by
  induction cs generalizing passes left n string with
  | nil =>
    obtain rfl : 0 = n := by
      rw [← length_bytes string n, ← h]
      rfl
    obtain rfl := Nat.le_zero.mp hleft
    cases passes <;> rfl
  | cons c cs ih =>
    cases left with
    | zero => cases passes <;> rfl
    | succ left =>
      obtain ⟨passes, rfl⟩ := Nat.exists_eq_succ_of_ne_zero (Nat.ne_zero_of_lt hpasses)
      have hlength := congrArg List.length h
      rw [List.flatMap_cons, List.length_append, length_bytes] at hlength
      have hpos := List.length_pos_of_ne_nil (utf8_ne_nil c)
      have hn : n = (utf8 c).length + (cs.flatMap utf8).length := hlength.symm
      rw [hn, bytes_add, List.flatMap_cons] at h
      obtain ⟨hc, hcs⟩ := List.append_inj h (length_bytes _ _).symm
      rw [isValidUtf8Loop, verify_utf8 hc]
      exact ih hcs (by omega) (by omega)

theorem chars_of_isValidUtf8Loop {passes left : Nat} {string : Nat → Byte}
    (h : isValidUtf8Loop passes string left = true) : ∃ n, left ≤ n ∧ IsUtf8 (bytes string n) := by
  induction passes generalizing string left with
  | zero =>
    cases left with
    | zero => exact ⟨0, Nat.le_refl _, [], rfl⟩
    | succ left => cases h
  | succ passes ih =>
    cases left with
    | zero => exact ⟨0, Nat.le_refl _, [], rfl⟩
    | succ left =>
      rw [isValidUtf8Loop] at h
      cases hverify : verifyUtf8Sequence string with
      | none =>
        rw [hverify] at h
        cases h
      | some len =>
        obtain ⟨⟨c, hc⟩, -⟩ := utf8_of_verify hverify
        rw [hverify] at h
        obtain ⟨n, hn, cs, hcs⟩ := ih h
        refine ⟨len + n, by omega, c :: cs, ?_⟩
        rw [bytes_add, ← hc, hcs, List.flatMap_cons]

/-- A string is taken exactly if a text in UTF-8 begins with its bytes and goes on, if at all, with
the bytes behind them: there is no overlong sequence, no surrogate, nothing above the last code
point, and no sequence that breaks off before the memory behind the length does. -/
theorem isValidUtf8_iff (string : Nat → Byte) (stringLen : Nat) :
    isValidUtf8 string stringLen = true ↔ ∃ n, stringLen ≤ n ∧ IsUtf8 (bytes string n) := by
  constructor
  · exact chars_of_isValidUtf8Loop
  · rintro ⟨n, hn, cs, hcs⟩
    exact isValidUtf8Loop_of_chars cs hcs.symm hn (Nat.le_refl _)

/-- Before a terminator no sequence breaks off. -/
theorem isUtf8_of_terminator {string : Nat → Byte} {len n : Nat} (hzero : string len = 0)
    (hn : len ≤ n) (h : IsUtf8 (bytes string n)) : IsUtf8 (bytes string len) := by
  obtain ⟨cs, hcs⟩ := h
  induction cs generalizing string len n with
  | nil =>
    obtain rfl : n = 0 := by
      rw [← length_bytes string n, hcs]
      rfl
    exact ⟨[], by rw [Nat.le_zero.mp hn]; rfl⟩
  | cons c cs ih =>
    cases hlen : len with
    | zero => exact ⟨[], rfl⟩
    | succ left =>
      have hlength := congrArg List.length hcs
      rw [List.flatMap_cons, List.length_append, length_bytes] at hlength
      rw [hlength, bytes_add, List.flatMap_cons] at hcs
      obtain ⟨hc, hrest⟩ := List.append_inj hcs (length_bytes _ _)
      have hinside : (utf8 c).length ≤ len := by
        by_contra hlt
        have hcont := (utf8_of_verify (verify_utf8 hc.symm)).2 len (by omega) (by omega)
        rw [hzero] at hcont
        exact absurd hcont (by decide)
      have hrest := @ih (fun i => string (i + (utf8 c).length)) (len - (utf8 c).length) _
        (by rw [Nat.sub_add_cancel hinside, hzero]) (by omega) hrest
      obtain ⟨cs', hcs'⟩ := hrest
      refine ⟨c :: cs', ?_⟩
      rw [← hlen, ← Nat.add_sub_cancel' hinside, bytes_add, hc, hcs', List.flatMap_cons]

@[simp] theorem bytes_terminated (s : Str) : bytes (terminated s) s.length = s := by
  refine List.ext_getElem (length_bytes _ _) fun i hi hs => ?_
  simp [bytes, terminated, hs]

/-- A string with its terminator is taken exactly if it is a text in UTF-8, whatever comes behind
the terminator. -/
theorem isValidUtf8_terminated {string : Nat → Byte} {len : Nat} (hzero : string len = 0) :
    isValidUtf8 string len = true ↔ IsUtf8 (bytes string len) := by
  rw [isValidUtf8_iff]
  constructor
  · rintro ⟨n, hn, h⟩
    exact isUtf8_of_terminator hzero hn h
  · exact fun h => ⟨len, Nat.le_refl _, h⟩

end PCom.Library.Json
