import PCom.Lib.Utf8
import PCom.Library.Requests

/-! The strings of a JSON text: how `parson.c` reads them, and how it writes them. -/

namespace PCom.Library.Json

open Lib

/-- `hex_char_to_int`, with `none` for -1. -/
def hexCharToInt (c : Byte) : Option Nat := hexValue c

def parseUtf16Hex : Str → Option Nat
  | s0 :: s1 :: s2 :: s3 :: _ => do
    let x1 ← hexCharToInt s0
    let x2 ← hexCharToInt s1
    let x3 ← hexCharToInt s2
    let x4 ← hexCharToInt s3
    return x1 <<< 12 ||| x2 <<< 8 ||| x3 <<< 4 ||| x4
  | _ => none

/-- The bytes that are written for a code point that is no surrogate. -/
def processedBytes (cp : Nat) : Str :=
  if cp < 0x80 then [BitVec.ofNat 8 cp]
  else if cp < 0x800 then
    [BitVec.ofNat 8 ((cp >>> 6 &&& 0x1F) ||| 0xC0), BitVec.ofNat 8 ((cp &&& 0x3F) ||| 0x80)]
  else if cp < 0x10000 then
    [BitVec.ofNat 8 ((cp >>> 12 &&& 0x0F) ||| 0xE0), BitVec.ofNat 8 ((cp >>> 6 &&& 0x3F) ||| 0x80),
      BitVec.ofNat 8 ((cp &&& 0x3F) ||| 0x80)]
  else
    [BitVec.ofNat 8 ((cp >>> 18 &&& 0x07) ||| 0xF0), BitVec.ofNat 8 ((cp >>> 12 &&& 0x3F) ||| 0x80),
      BitVec.ofNat 8 ((cp >>> 6 &&& 0x3F) ||| 0x80), BitVec.ofNat 8 ((cp &&& 0x3F) ||| 0x80)]

def parseTrail : Str → Option Nat
  | c :: u :: unprocessed =>
    if c ≠ 92 ∨ u ≠ 117 then none
    else
      match parseUtf16Hex unprocessed with
      | none => none
      | some trail => if trail < 0xDC00 ∨ 0xDFFF < trail then none else some trail
  | _ => none

/-- What stands for the escape whose digits `unprocessed` begins with, and how many characters are
behind the `u` of it. -/
def parseUtf16 (unprocessed : Str) : Option (Str × Nat) :=
  match parseUtf16Hex unprocessed with
  | none => none
  | some cp =>
    if cp < 0xD800 ∨ 0xDFFF < cp then some (processedBytes cp, 4)
    else if cp ≤ 0xDBFF then
      (parseTrail (unprocessed.drop 4)).map fun trail =>
        (processedBytes (((cp - 0xD800 &&& 0x3FF) <<< 10 ||| (trail - 0xDC00 &&& 0x3FF)) + 0x10000), 10)
    else none

/-- The character behind a backslash, and what it stands for. -/
def unescape (c : Byte) : Option Byte :=
  if c = 34 then some 34
  else if c = 92 then some 92
  else if c = 47 then some 47
  else if c = 98 then some 8
  else if c = 102 then some 12
  else if c = 110 then some 10
  else if c = 114 then some 13
  else if c = 116 then some 9
  else none

/-- One pass of the loop of `process_string`: what is written, and how many characters it is for. -/
def processChar : Str → Option (Str × Nat)
  | [] => none
  | c :: input =>
    if c = 92 then
      match input with
      | [] => none
      | e :: input =>
        match unescape e with
        | some b => some ([b], 2)
        | none =>
          if e = 117 then (parseUtf16 input).map fun r => (r.1, r.2 + 2)
          else none
    else if c.toNat < 0x20 then none
    else some ([c], 1)

/-- `process_string`.  There are at most as many passes as there are characters. -/
def processLoop : Nat → Str → Nat → Option Str
  | 0, _, _ => some []
  | passes + 1, input, inputLen =>
    if input = [] ∨ inputLen = 0 then some []
    else
      match processChar input with
      | none => none
      | some (bytes, n) => (processLoop passes (input.drop n) (inputLen - n)).map (bytes ++ ·)

def processString (input : Str) (inputLen : Nat) : Option Str := processLoop inputLen input inputLen

def skipToQuote : Str → Option Str
  | [] => none
  | c :: string =>
    if c = 34 then some string
    else if c = 92 then
      match string with
      | [] => none
      | _ :: string => skipToQuote string
    else skipToQuote string

def skipQuotes : Str → Option Str
  | [] => none
  | c :: string => if c = 34 then skipToQuote string else none

def getQuotedString (string : Str) : Option (Str × Str) :=
  match skipQuotes string with
  | none => none
  | some rest =>
    (processString (string.drop 1) (string.length - rest.length - 2)).map fun s => (s, rest)

/-- What `json_serialize_string` puts in the place of a character, if it does not leave it.  The
switch has a line for each control character, with its code in four hexadecimal digits. -/
def escape (c : Byte) : Option Str :=
  if c = 34 then some (ascii "\\\"")
  else if c = 92 then some (ascii "\\\\")
  else if c = 8 then some (ascii "\\b")
  else if c = 12 then some (ascii "\\f")
  else if c = 10 then some (ascii "\\n")
  else if c = 13 then some (ascii "\\r")
  else if c = 9 then some (ascii "\\t")
  else if c.toNat < 0x20 then
    some (ascii "\\u00" ++ [hexDigit (c.toNat / 16), hexDigit (c.toNat % 16)])
  else if c = 47 then some (ascii "\\/")
  else none

/-- The characters of a string and the bytes they stand for: as they are, with an escape, or with
the digits of one or two words of UTF-16. -/
inductive CharText : Str → Str → Prop
  | plain {c : Byte} : 0x20 ≤ c.toNat → c ≠ 34 → c ≠ 92 → CharText [c] [c]
  | escaped {e b : Byte} : unescape e = some b → CharText [92, e] [b]
  | word {h1 h2 h3 h4 : Byte} {x1 x2 x3 x4 : Nat} {c : Char} :
    hexValue h1 = some x1 → hexValue h2 = some x2 → hexValue h3 = some x3 → hexValue h4 = some x4 →
    hex4Value x1 x2 x3 x4 = c.toNat → CharText [92, 117, h1, h2, h3, h4] (utf8 c)
  | pair {h1 h2 h3 h4 l1 l2 l3 l4 : Byte} {x1 x2 x3 x4 y1 y2 y3 y4 lead trail : Nat} {c : Char} :
    hexValue h1 = some x1 → hexValue h2 = some x2 → hexValue h3 = some x3 → hexValue h4 = some x4 →
    hexValue l1 = some y1 → hexValue l2 = some y2 → hexValue l3 = some y3 → hexValue l4 = some y4 →
    hex4Value x1 x2 x3 x4 = 0xD800 + lead → lead < 0x400 →
    hex4Value y1 y2 y3 y4 = 0xDC00 + trail → trail < 0x400 →
    c.toNat = 0x10000 + 0x400 * lead + trail →
    CharText [92, 117, h1, h2, h3, h4, 92, 117, l1, l2, l3, l4] (utf8 c)

/-- A text between quotes and the string it stands for. -/
inductive StringText : Str → Str → Prop
  | nil : StringText [] []
  | cons {t bytes ts s : Str} : CharText t bytes → StringText ts s → StringText (t ++ ts) (bytes ++ s)

/-! ## Words of UTF-16 -/

theorem shiftLeft_or_eq {a b k : Nat} (h : b < 2 ^ k) : a <<< k ||| b = 2 ^ k * a + b := by
  rw [← Nat.shiftLeft_add_eq_or_of_lt h, Nat.shiftLeft_eq, Nat.mul_comm]

theorem parseUtf16Hex_eq {h1 h2 h3 h4 : Byte} {x1 x2 x3 x4 : Nat} (e1 : hexValue h1 = some x1)
    (e2 : hexValue h2 = some x2) (e3 : hexValue h3 = some x3) (e4 : hexValue h4 = some x4)
    (rest : Str) : parseUtf16Hex (h1 :: h2 :: h3 :: h4 :: rest) = some (hex4Value x1 x2 x3 x4) := by
  have hx2 := hexValue_lt e2
  have hx3 := hexValue_lt e3
  have hx4 := hexValue_lt e4
  have hvalue : x1 <<< 12 ||| x2 <<< 8 ||| x3 <<< 4 ||| x4 = hex4Value x1 x2 x3 x4 := by
    have h12 : x1 <<< 12 ||| x2 <<< 8 = 256 * (16 * x1 + x2) := by
      rw [shiftLeft_or_eq (by rw [Nat.shiftLeft_eq]; omega), Nat.shiftLeft_eq]
      omega
    have h34 : x3 <<< 4 ||| x4 = 16 * x3 + x4 := shiftLeft_or_eq (by omega)
    have hshift : 256 * (16 * x1 + x2) = (16 * x1 + x2) <<< 8 := by
      rw [Nat.shiftLeft_eq, Nat.mul_comm]
    rw [Nat.or_assoc, h12, h34, hshift, shiftLeft_or_eq (by omega), hex4Value]
    omega
  simp only [parseUtf16Hex, hexCharToInt, e1, e2, e3, e4, Option.bind_eq_bind, Option.bind_some,
    Option.pure_def, hvalue]

theorem exists_of_parseUtf16Hex {s : Str} {cp : Nat} (h : parseUtf16Hex s = some cp) :
    ∃ h1 h2 h3 h4 rest x1 x2 x3 x4, s = h1 :: h2 :: h3 :: h4 :: rest ∧ hexValue h1 = some x1 ∧
      hexValue h2 = some x2 ∧ hexValue h3 = some x3 ∧ hexValue h4 = some x4 ∧
      cp = hex4Value x1 x2 x3 x4 := by
  have hparse := h
  rcases s with _ | ⟨h1, _ | ⟨h2, _ | ⟨h3, _ | ⟨h4, rest⟩⟩⟩⟩
  · cases h
  · cases h
  · cases h
  · cases h
  · obtain ⟨x1, e1, h⟩ := Option.bind_eq_some_iff.mp h
    obtain ⟨x2, e2, h⟩ := Option.bind_eq_some_iff.mp h
    obtain ⟨x3, e3, h⟩ := Option.bind_eq_some_iff.mp h
    obtain ⟨x4, e4, -⟩ := Option.bind_eq_some_iff.mp h
    have hvalue := hparse.symm.trans (parseUtf16Hex_eq e1 e2 e3 e4 rest)
    exact ⟨h1, h2, h3, h4, rest, x1, x2, x3, x4, rfl, e1, e2, e3, e4, Option.some.inj hvalue⟩

theorem hex4Value_lt {h1 h2 h3 h4 : Byte} {x1 x2 x3 x4 : Nat} (e1 : hexValue h1 = some x1)
    (e2 : hexValue h2 = some x2) (e3 : hexValue h3 = some x3) (e4 : hexValue h4 = some x4) :
    hex4Value x1 x2 x3 x4 < 0x10000 := by
  have := hexValue_lt e1
  have := hexValue_lt e2
  have := hexValue_lt e3
  have := hexValue_lt e4
  rw [hex4Value]
  omega

theorem or_two {n : Nat} (h : n < 0x20) : n ||| 0xC0 = n + 0xC0 := by
  revert n
  decide

theorem or_three {n : Nat} (h : n < 0x10) : n ||| 0xE0 = n + 0xE0 := by
  revert n
  decide

theorem or_four {n : Nat} (h : n < 0x08) : n ||| 0xF0 = n + 0xF0 := by
  revert n
  decide

theorem or_cont (n : Nat) : (n &&& 0x3F) ||| 0x80 = n % 64 + 0x80 := by
  have hmod : n &&& 0x3F = n % 64 := Nat.and_two_pow_sub_one_eq_mod n 6
  have hlt : n % 64 < 64 := Nat.mod_lt _ (by decide)
  rw [hmod]
  revert hlt
  generalize n % 64 = m
  revert m
  decide

theorem processedBytes_eq (c : Char) : processedBytes c.toNat = utf8 c := by
  have hscalar := toNat_scalar c
  have h6 : c.toNat >>> 6 = c.toNat / 64 := Nat.shiftRight_eq_div_pow _ 6
  have h12 : c.toNat >>> 12 = c.toNat / 4096 := Nat.shiftRight_eq_div_pow _ 12
  have h18 : c.toNat >>> 18 = c.toNat / 262144 := Nat.shiftRight_eq_div_pow _ 18
  rw [processedBytes]
  split
  next h => rw [utf8_one h]
  next h1 =>
    split
    next h =>
      have hlead : c.toNat / 64 &&& 0x1F = c.toNat / 64 :=
        (Nat.and_two_pow_sub_one_eq_mod _ 5).trans (Nat.mod_eq_of_lt (by omega))
      rw [utf8_two (by omega) h, or_cont, h6, hlead, or_two (by omega)]
    next h2 =>
      split
      next h =>
        have hlead : c.toNat / 4096 &&& 0x0F = c.toNat / 4096 :=
          (Nat.and_two_pow_sub_one_eq_mod _ 4).trans (Nat.mod_eq_of_lt (by omega))
        rw [utf8_three (by omega) h, or_cont, or_cont, h6, h12, hlead, or_three (by omega)]
      next h3 =>
        have hlead : c.toNat / 262144 &&& 0x07 = c.toNat / 262144 :=
          (Nat.and_two_pow_sub_one_eq_mod _ 3).trans (Nat.mod_eq_of_lt (by omega))
        rw [utf8_four (by omega), or_cont, or_cont, or_cont, h6, h12, h18, hlead,
          or_four (by omega)]

theorem surrogates_eq {lead trail : Nat} (hlead : lead < 0x400) (htrail : trail < 0x400) :
    ((0xD800 + lead - 0xD800 &&& 0x3FF) <<< 10 ||| (0xDC00 + trail - 0xDC00 &&& 0x3FF)) + 0x10000
      = 0x10000 + 0x400 * lead + trail := by
  have hmask {n : Nat} (h : n < 0x400) : n &&& 0x3FF = n :=
    (Nat.and_two_pow_sub_one_eq_mod n 10).trans (Nat.mod_eq_of_lt h)
  rw [Nat.add_sub_cancel_left, Nat.add_sub_cancel_left, hmask hlead, hmask htrail,
    shiftLeft_or_eq (by omega)]
  omega

/-! ## Characters -/

theorem parseTrail_eq {l1 l2 l3 l4 : Byte} {y1 y2 y3 y4 : Nat} (f1 : hexValue l1 = some y1)
    (f2 : hexValue l2 = some y2) (f3 : hexValue l3 = some y3) (f4 : hexValue l4 = some y4)
    (h : 0xDC00 ≤ hex4Value y1 y2 y3 y4) (h' : hex4Value y1 y2 y3 y4 ≤ 0xDFFF) (rest : Str) :
    parseTrail (92 :: 117 :: l1 :: l2 :: l3 :: l4 :: rest) = some (hex4Value y1 y2 y3 y4) := by
  rw [parseTrail, if_neg (by decide), parseUtf16Hex_eq f1 f2 f3 f4]
  exact if_neg (by omega)

theorem exists_of_parseTrail {s : Str} {trail : Nat} (h : parseTrail s = some trail) :
    ∃ l1 l2 l3 l4 rest y1 y2 y3 y4, s = 92 :: 117 :: l1 :: l2 :: l3 :: l4 :: rest ∧
      hexValue l1 = some y1 ∧ hexValue l2 = some y2 ∧ hexValue l3 = some y3 ∧
      hexValue l4 = some y4 ∧ trail = hex4Value y1 y2 y3 y4 ∧ 0xDC00 ≤ trail ∧ trail ≤ 0xDFFF := by
  rcases s with _ | ⟨c, _ | ⟨u, rest⟩⟩
  · cases h
  · cases h
  · rw [parseTrail] at h
    obtain ⟨hcu, h⟩ := Option.ite_none_left_eq_some.mp h
    cases hhex : parseUtf16Hex rest with
    | none =>
      rw [hhex] at h
      cases h
    | some word =>
      rw [hhex] at h
      obtain ⟨hrange, heq⟩ := Option.ite_none_left_eq_some.mp h
      cases heq
      obtain ⟨l1, l2, l3, l4, rest, y1, y2, y3, y4, rfl, f1, f2, f3, f4, hword⟩ :=
        exists_of_parseUtf16Hex hhex
      have hc : c = 92 := not_not.mp fun hc => hcu (.inl hc)
      have hu : u = 117 := not_not.mp fun hu => hcu (.inr hu)
      exact ⟨l1, l2, l3, l4, rest, y1, y2, y3, y4, by rw [hc, hu], f1, f2, f3, f4, hword,
        by omega, by omega⟩

theorem processChar_unicode (input : Str) :
    processChar (92 :: 117 :: input) = (parseUtf16 input).map fun r => (r.1, r.2 + 2) := rfl

theorem processChar_append {t bytes : Str} (h : CharText t bytes) (rest : Str) :
    processChar (t ++ rest) = some (bytes, t.length) := by
  cases h with
  | plain hcontrol hquote hbackslash =>
    rw [List.singleton_append, processChar.eq_def]
    exact (if_neg hbackslash).trans (if_neg (Nat.not_lt.mpr hcontrol))
  | escaped he =>
    simp only [List.cons_append, List.nil_append, processChar.eq_def, if_true, he,
      List.length_cons, List.length_nil]
  | @word h1 h2 h3 h4 x1 x2 x3 x4 c e1 e2 e3 e4 hc =>
    have hscalar := toNat_scalar c
    have hparse : parseUtf16 (h1 :: h2 :: h3 :: h4 :: rest) = some (utf8 c, 4) := by
      rw [parseUtf16, parseUtf16Hex_eq e1 e2 e3 e4]
      simp only [hc]
      rw [if_pos (by omega), processedBytes_eq]
    simp only [List.cons_append, List.nil_append, processChar_unicode, hparse, Option.map_some,
      List.length_cons, List.length_nil]
  | @pair h1 h2 h3 h4 l1 l2 l3 l4 x1 x2 x3 x4 y1 y2 y3 y4 lead trail c e1 e2 e3 e4 f1 f2 f3 f4 hlead
      hlt htrail htlt hc =>
    have hparse : parseUtf16 (h1 :: h2 :: h3 :: h4 :: 92 :: 117 :: l1 :: l2 :: l3 :: l4 :: rest)
        = some (utf8 c, 10) := by
      rw [parseUtf16, parseUtf16Hex_eq e1 e2 e3 e4]
      simp only [List.drop_succ_cons, List.drop_zero]
      rw [parseTrail_eq f1 f2 f3 f4 (by omega) (by omega), hlead, htrail, if_neg (by omega),
        if_pos (by omega), Option.map_some, surrogates_eq hlt htlt, ← hc, processedBytes_eq]
    simp only [List.cons_append, List.nil_append, processChar_unicode, hparse, Option.map_some,
      List.length_cons, List.length_nil]

theorem charText_of_parseUtf16 {input bytes : Str} {n : Nat}
    (h : parseUtf16 input = some (bytes, n)) :
    ∃ t rest, input = t ++ rest ∧ n = t.length ∧ CharText (92 :: 117 :: t) bytes := by
  rw [parseUtf16] at h
  cases hcp : parseUtf16Hex input with
  | none =>
    rw [hcp] at h
    cases h
  | some cp =>
    rw [hcp] at h
    obtain ⟨h1, h2, h3, h4, rest, x1, x2, x3, x4, rfl, e1, e2, e3, e4, rfl⟩ :=
      exists_of_parseUtf16Hex hcp
    have hlt := hex4Value_lt e1 e2 e3 e4
    simp only [List.drop_succ_cons, List.drop_zero] at h
    split at h
    next hscalar =>
      cases h
      obtain ⟨c, hc⟩ := exists_char (show hex4Value x1 x2 x3 x4 < 0xD800 ∨
        0xDFFF < hex4Value x1 x2 x3 x4 ∧ hex4Value x1 x2 x3 x4 < 0x110000 by omega)
      refine ⟨[h1, h2, h3, h4], rest, rfl, rfl, ?_⟩
      rw [← hc, processedBytes_eq]
      exact .word e1 e2 e3 e4 hc.symm
    next =>
      split at h
      next hle =>
        obtain ⟨trail, htrail, h⟩ := Option.map_eq_some_iff.mp h
        obtain ⟨l1, l2, l3, l4, rest, y1, y2, y3, y4, rfl, f1, f2, f3, f4, rfl, hge', hle'⟩ :=
          exists_of_parseTrail htrail
        obtain ⟨lead, hlead⟩ := Nat.exists_eq_add_of_le
          (show 0xD800 ≤ hex4Value x1 x2 x3 x4 by omega)
        obtain ⟨trail, htrail⟩ := Nat.exists_eq_add_of_le hge'
        obtain ⟨c, hc⟩ := exists_char (show 0x10000 + 0x400 * lead + trail < 0xD800 ∨
          0xDFFF < 0x10000 + 0x400 * lead + trail ∧
            0x10000 + 0x400 * lead + trail < 0x110000 by omega)
        rw [hlead, htrail, surrogates_eq (by omega) (by omega), ← hc, processedBytes_eq] at h
        cases h
        exact ⟨[h1, h2, h3, h4, 92, 117, l1, l2, l3, l4], rest, rfl, rfl,
          .pair e1 e2 e3 e4 f1 f2 f3 f4 hlead (by omega) htrail (by omega) hc⟩
      next => cases h

theorem charText_of_processChar {c : Byte} {input bytes : Str} {n : Nat} (hquote : c ≠ 34)
    (h : processChar (c :: input) = some (bytes, n)) :
    ∃ t rest, c :: input = t ++ rest ∧ n = t.length ∧ CharText t bytes := by
  rw [processChar.eq_def] at h
  simp only at h
  split at h
  next hc =>
    subst hc
    cases input with
    | nil => cases h
    | cons e input =>
      cases he : unescape e with
      | some b =>
        simp only [he, Option.some.injEq, Prod.mk.injEq] at h
        obtain ⟨rfl, rfl⟩ := h
        exact ⟨[92, e], input, rfl, rfl, .escaped he⟩
      | none =>
        simp only [he] at h
        split at h
        next hu =>
          subst hu
          obtain ⟨⟨bytes', k⟩, hparse, heq⟩ := Option.map_eq_some_iff.mp h
          cases heq
          obtain ⟨t, rest, rfl, rfl, htext⟩ := charText_of_parseUtf16 hparse
          exact ⟨92 :: 117 :: t, rest, rfl, rfl, htext⟩
        next => cases h
  next hc =>
    split at h
    next => cases h
    next hcontrol =>
      simp only [Option.some.injEq, Prod.mk.injEq] at h
      obtain ⟨rfl, rfl⟩ := h
      exact ⟨[c], input, rfl, rfl, .plain (Nat.not_lt.mp hcontrol) hquote hc⟩

/-! ## Quotes -/

/-- What `skip_quotes` goes over: no quote but behind a backslash. -/
inductive Skipped : Str → Prop
  | nil : Skipped []
  | plain {c : Byte} {t : Str} : c ≠ 34 → c ≠ 92 → Skipped t → Skipped (c :: t)
  | escaped {e : Byte} {t : Str} : Skipped t → Skipped (92 :: e :: t)

theorem skipToQuote_append {t : Str} (h : Skipped t) (rest : Str) :
    skipToQuote (t ++ 34 :: rest) = some rest := by
  induction h with
  | nil =>
    rw [List.nil_append, skipToQuote.eq_def]
    exact if_pos rfl
  | plain hquote hbackslash _ ih =>
    rw [List.cons_append, skipToQuote.eq_def]
    exact (if_neg hquote).trans ((if_neg hbackslash).trans ih)
  | escaped _ ih =>
    rw [List.cons_append, List.cons_append, skipToQuote.eq_def]
    exact ih

theorem exists_of_skipToQuote {s rest : Str} (h : skipToQuote s = some rest) :
    ∃ t, Skipped t ∧ s = t ++ 34 :: rest := by
  fun_induction skipToQuote s with
  | case1 => cases h
  | case2 => exact ⟨[], .nil, by rw [Option.some.inj h]; rfl⟩
  | case3 => cases h
  | case4 e string _ ih =>
    obtain ⟨t, ht, hs⟩ := ih h
    exact ⟨92 :: e :: t, .escaped ht, by rw [hs]; rfl⟩
  | case5 c string hquote hbackslash ih =>
    obtain ⟨t, ht, hs⟩ := ih h
    exact ⟨c :: t, .plain hquote hbackslash ht, by rw [hs]; rfl⟩

theorem hexValue_ne {c : Byte} {x : Nat} (h : hexValue c = some x) : c ≠ 34 ∧ c ≠ 92 := by
  constructor
  · rintro rfl
    have hnone : hexValue 34 = none := by decide
    rw [hnone] at h
    cases h
  · rintro rfl
    have hnone : hexValue 92 = none := by decide
    rw [hnone] at h
    cases h

theorem Skipped.hex {c : Byte} {x : Nat} {t : Str} (h : hexValue c = some x) (ht : Skipped t) :
    Skipped (c :: t) :=
  .plain (hexValue_ne h).1 (hexValue_ne h).2 ht

theorem Skipped.append_charText {t bytes ts : Str} (h : CharText t bytes) (hts : Skipped ts) :
    Skipped (t ++ ts) := by
  cases h with
  | plain _ hquote hbackslash => exact .plain hquote hbackslash hts
  | escaped => exact .escaped hts
  | word e1 e2 e3 e4 => exact .escaped (.hex e1 (.hex e2 (.hex e3 (.hex e4 hts))))
  | pair e1 e2 e3 e4 f1 f2 f3 f4 =>
    exact .escaped (.hex e1 (.hex e2 (.hex e3 (.hex e4
      (.escaped (.hex f1 (.hex f2 (.hex f3 (.hex f4 hts)))))))))

theorem StringText.skipped {t s : Str} (h : StringText t s) : Skipped t := by
  induction h with
  | nil => exact .nil
  | cons hchar _ ih => exact .append_charText hchar ih

section Split

variable {t rest r : Str}

theorem Skipped.split_plain {c : Byte} (h : Skipped t) (hquote : c ≠ 34) (hbackslash : c ≠ 92)
    (heq : t ++ 34 :: rest = c :: r) : ∃ t', t = c :: t' ∧ Skipped t' ∧ t' ++ 34 :: rest = r := by
  cases h with
  | nil => exact absurd (List.cons.inj heq).1.symm hquote
  | @plain c' t' _ _ ht =>
    obtain ⟨rfl, htail⟩ := List.cons.inj heq
    exact ⟨t', rfl, ht, htail⟩
  | escaped => exact absurd (List.cons.inj heq).1.symm hbackslash

theorem Skipped.split_hex {c : Byte} {x : Nat} (h : Skipped t) (hc : hexValue c = some x)
    (heq : t ++ 34 :: rest = c :: r) : ∃ t', t = c :: t' ∧ Skipped t' ∧ t' ++ 34 :: rest = r :=
  h.split_plain (hexValue_ne hc).1 (hexValue_ne hc).2 heq

theorem Skipped.split_escaped {e : Byte} (h : Skipped t) (heq : t ++ 34 :: rest = 92 :: e :: r) :
    ∃ t', t = 92 :: e :: t' ∧ Skipped t' ∧ t' ++ 34 :: rest = r := by
  cases h with
  | nil => exact absurd (List.cons.inj heq).1 (by decide)
  | plain _ hbackslash => exact absurd (List.cons.inj heq).1 hbackslash
  | @escaped e' t' ht =>
    obtain ⟨rfl, htail⟩ := List.cons.inj (List.cons.inj heq).2
    exact ⟨t', rfl, ht, htail⟩

theorem Skipped.split_digits {h1 h2 h3 h4 : Byte} {x1 x2 x3 x4 : Nat} (h : Skipped t)
    (e1 : hexValue h1 = some x1) (e2 : hexValue h2 = some x2) (e3 : hexValue h3 = some x3)
    (e4 : hexValue h4 = some x4) (heq : t ++ 34 :: rest = 92 :: 117 :: h1 :: h2 :: h3 :: h4 :: r) :
    ∃ t', t = 92 :: 117 :: h1 :: h2 :: h3 :: h4 :: t' ∧ Skipped t' ∧ t' ++ 34 :: rest = r := by
  obtain ⟨t, rfl, h, heq⟩ := h.split_escaped heq
  obtain ⟨t, rfl, h, heq⟩ := h.split_hex e1 heq
  obtain ⟨t, rfl, h, heq⟩ := h.split_hex e2 heq
  obtain ⟨t, rfl, h, heq⟩ := h.split_hex e3 heq
  obtain ⟨t, rfl, h, heq⟩ := h.split_hex e4 heq
  exact ⟨t, rfl, h, heq⟩

theorem Skipped.split {t1 bytes : Str} (h : Skipped t) (hchar : CharText t1 bytes)
    (heq : t ++ 34 :: rest = t1 ++ r) : ∃ t2, t = t1 ++ t2 ∧ Skipped t2 := by
  cases hchar with
  | plain _ hquote hbackslash =>
    obtain ⟨t2, ht, h2, -⟩ := h.split_plain hquote hbackslash heq
    exact ⟨t2, ht, h2⟩
  | escaped =>
    obtain ⟨t2, ht, h2, -⟩ := h.split_escaped heq
    exact ⟨t2, ht, h2⟩
  | word e1 e2 e3 e4 =>
    obtain ⟨t2, ht, h2, -⟩ := h.split_digits e1 e2 e3 e4 heq
    exact ⟨t2, ht, h2⟩
  | pair e1 e2 e3 e4 f1 f2 f3 f4 =>
    obtain ⟨t, rfl, h, heq⟩ := h.split_digits e1 e2 e3 e4 heq
    obtain ⟨t2, rfl, h2, -⟩ := h.split_digits f1 f2 f3 f4 heq
    exact ⟨t2, rfl, h2⟩

end Split

theorem charText_ne_nil {t bytes : Str} (h : CharText t bytes) : t ≠ [] := by
  cases h <;> exact List.cons_ne_nil _ _

theorem processLoop_append {t s : Str} (h : StringText t s) {passes : Nat} (hle : t.length ≤ passes)
    (rest : Str) : processLoop passes (t ++ rest) t.length = some s := by
  induction h generalizing passes with
  | nil => cases passes <;> simp [processLoop]
  | @cons t bytes ts s hchar _ ih =>
    have hpos := List.length_pos_iff.mpr (charText_ne_nil hchar)
    rw [List.length_append] at hle ⊢
    cases passes with
    | zero => omega
    | succ passes =>
      have hne : ¬ (t ++ ts ++ rest = [] ∨ t.length + ts.length = 0) := by
        simp only [List.append_eq_nil_iff, charText_ne_nil hchar, false_and, false_or]
        omega
      rw [processLoop, if_neg hne, List.append_assoc, processChar_append hchar]
      simp only [List.drop_left, Nat.add_sub_cancel_left]
      rw [ih (by omega), Option.map_some]

theorem stringText_of_processLoop {t rest s : Str} {passes : Nat} (ht : Skipped t)
    (hle : t.length ≤ passes) (h : processLoop passes (t ++ 34 :: rest) t.length = some s) :
    StringText t s := by
  induction passes generalizing t s with
  | zero =>
    obtain rfl := List.length_eq_zero_iff.mp (Nat.le_zero.mp hle)
    cases h
    exact .nil
  | succ passes ih =>
    cases t with
    | nil =>
      cases h
      exact .nil
    | cons c t =>
      have hquote : c ≠ 34 := by
        cases ht with
        | plain hquote => exact hquote
        | escaped => decide
      have hne : ¬ (c :: t ++ 34 :: rest = [] ∨ (c :: t).length = 0) := by simp
      rw [processLoop, if_neg hne] at h
      cases hchar : processChar (c :: t ++ 34 :: rest) with
      | none =>
        rw [hchar] at h
        cases h
      | some r =>
        obtain ⟨bytes, n⟩ := r
        rw [hchar] at h
        obtain ⟨t1, rest1, heq, rfl, htext⟩ := charText_of_processChar hquote hchar
        obtain ⟨t2, ht2, hskip⟩ := ht.split htext heq
        obtain ⟨s2, hs2, rfl⟩ := Option.map_eq_some_iff.mp h
        have hpos := List.length_pos_iff.mpr (charText_ne_nil htext)
        rw [ht2, List.length_append] at hle
        rw [ht2, List.append_assoc, List.drop_left, List.length_append, Nat.add_sub_cancel_left]
          at hs2
        rw [ht2]
        exact .cons htext (ih hskip (by omega) hs2)

theorem getQuotedString_eq_some_iff {string s rest : Str} :
    getQuotedString string = some (s, rest) ↔
      ∃ t, StringText t s ∧ string = 34 :: (t ++ 34 :: rest) := by
  constructor
  · intro h
    rw [getQuotedString] at h
    cases hskip : skipQuotes string with
    | none =>
      rw [hskip] at h
      cases h
    | some rest' =>
      rw [hskip] at h
      obtain ⟨s', hs, heq⟩ := Option.map_eq_some_iff.mp h
      cases heq
      cases string with
      | nil => cases hskip
      | cons c string =>
        rw [skipQuotes] at hskip
        obtain ⟨rfl, hskip⟩ := Option.ite_none_right_eq_some.mp hskip
        obtain ⟨t, ht, rfl⟩ := exists_of_skipToQuote hskip
        refine ⟨t, ?_, rfl⟩
        have hlen : (34 :: (t ++ 34 :: rest)).length - rest.length - 2 = t.length := by
          simp only [List.length_cons, List.length_append]
          omega
        rw [hlen, List.drop_one, List.tail_cons, processString] at hs
        exact stringText_of_processLoop ht (Nat.le_refl _) hs
  · rintro ⟨t, ht, rfl⟩
    have hskip : skipQuotes (34 :: (t ++ 34 :: rest)) = some rest := by
      rw [skipQuotes, if_pos rfl, skipToQuote_append ht.skipped]
    have hlen : (34 :: (t ++ 34 :: rest)).length - rest.length - 2 = t.length := by
      simp only [List.length_cons, List.length_append]
      omega
    have hprocess : processString (t ++ 34 :: rest) t.length = some s :=
      processLoop_append ht (Nat.le_refl _) _
    rw [getQuotedString, hskip]
    simp only [hlen, List.drop_one, List.tail_cons, hprocess, Option.map_some]

end PCom.Library.Json
