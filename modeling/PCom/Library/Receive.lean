import PCom.Lib.Http
import PCom.Library.Buffer

/-! `receive_from_server`, on the results of its reads. -/

namespace PCom.Library

open Lib

/-- What `read` gives: some bytes, none at the end of the stream, or an error. -/
inductive ReadResult
  | bytes (response : Str)
  | error

/-- Why no response is returned: a read for which nothing has arrived, a call of `error`, or an
access outside of the buffer. -/
inductive Stop
  | waiting | error | outside
  deriving DecidableEq

def headerTerminator : Str := crlf ++ crlf
def contentLength : Str := ascii "Content-Length: "

def isSpace (b : Byte) : Bool := b.toNat = 32 || (9 ≤ b.toNat && b.toNat ≤ 13)

def readSign : Str → Bool × Str
  | [] => (false, [])
  | c :: s => if c = 45 then (true, s) else if c = 43 then (false, s) else (false, c :: s)

/-- What a `long` keeps of a number that `strtol` reads. -/
def toLong (n : Int) : Int := max (-2 ^ 63) (min n (2 ^ 63 - 1))

/-- `strtol(.., NULL, 10)`, or `none` if it goes on to the end of the bytes. -/
def strtol (s : Str) : Option Int :=
  let (negative, s) := readSign (s.dropWhile isSpace)
  let digits := s.takeWhile isDecimal
  if digits.length = s.length then none
  else
    let n : Int := decimalValue digits
    some (toLong (if negative then -n else n))

def numberAt (buffer : Str) (start : Int) : Option Int :=
  if start < 0 then none else (strtol (buffer.drop start.toNat)).map asInt

def inside {α : Type} : Option α → Except Stop α
  | some a => .ok a
  | none => .error .outside

theorem inside_some_bind {α β : Type} (a : α) (f : α → Except Stop β) :
    (inside (some a) >>= f) = f a := rfl

theorem inside_none_bind {α β : Type} (f : α → Except Stop β) :
    (inside none >>= f) = .error .outside := rfl

/-- The buffer, `header_end` and `content_length`. -/
structure Head where
  buffer : Str
  headerEnd : Int
  contentLength : Int

/-- The first loop, and the reads that are left behind it. -/
def headLoop : List ReadResult → Head → Except Stop (Head × List ReadResult)
  | [], _ => .error .waiting
  | .error :: _, _ => .error .error
  | .bytes [] :: reads, l => .ok (l, reads)
  | .bytes (b :: bs) :: reads, l => do
    let buffer := bufferAdd l.buffer (b :: bs)
    let headerEnd ← inside (bufferFind buffer headerTerminator)
    if 0 ≤ headerEnd then
      let headerEnd := asInt (headerEnd + headerTerminator.length)
      let contentLengthStart ← inside (bufferFindInsensitive buffer contentLength)
      if contentLengthStart < 0 then headLoop reads { l with buffer, headerEnd }
      else
        let contentLengthStart := asInt (contentLengthStart + contentLength.length)
        let contentLength ← inside (numberAt buffer contentLengthStart)
        return (⟨buffer, headerEnd, contentLength⟩, reads)
    else headLoop reads { l with buffer, headerEnd }

def bodyLoop (total : Nat) (reads : List ReadResult) (buffer : Str) :
    Except Stop (Str × List ReadResult) :=
  if buffer.length < total then
    match reads with
    | [] => .error .waiting
    | .error :: _ => .error .error
    | .bytes [] :: reads => .ok (buffer, reads)
    | .bytes (b :: bs) :: reads => bodyLoop total reads (bufferAdd buffer (b :: bs))
  else .ok (buffer, reads)

/-- `total`, which is computed without a sign. -/
def totalSize (contentLength headerEnd : Int) : Nat := ((contentLength + headerEnd) % 2 ^ 64).toNat

/-- The returned string with its terminator, and the reads that have not been issued. -/
def receiveFromServer (reads : List ReadResult) : Except Stop (Str × List ReadResult) := do
  let (l, reads) ← headLoop reads ⟨[], 0, 0⟩
  let (buffer, reads) ← bodyLoop (totalSize l.contentLength l.headerEnd) reads l.buffer
  return (bufferAdd buffer [0], reads)

theorem readSign_append {s : Str} (hs : s ≠ []) (t : Str) :
    readSign (s ++ t) = ((readSign s).1, (readSign s).2 ++ t) := by
  cases s with
  | nil => exact absurd rfl hs
  | cons c s =>
    rw [List.cons_append, readSign, readSign]
    split
    · rfl
    · split <;> rfl

theorem eq_append_readSign (s : Str) :
    ∃ signs, s = signs ++ (readSign s).2 ∧ ∀ b ∈ signs, isDecimal b = false := by
  cases s with
  | nil => exact ⟨[], rfl, fun b hb => absurd hb List.not_mem_nil⟩
  | cons c s =>
    have hminus : isDecimal 45 = false := by decide
    have hplus : isDecimal 43 = false := by decide
    rw [readSign]
    split
    next hc => exact ⟨[c], rfl, fun b hb => by rw [List.mem_singleton.mp hb, hc, hminus]⟩
    next =>
      split
      next hc => exact ⟨[c], rfl, fun b hb => by rw [List.mem_singleton.mp hb, hc, hplus]⟩
      next => exact ⟨[], rfl, fun b hb => absurd hb List.not_mem_nil⟩

theorem strtol_eq_none {s : Str} : strtol s = none ↔
    ((readSign (s.dropWhile isSpace)).2.takeWhile isDecimal).length
      = (readSign (s.dropWhile isSpace)).2.length := by
  simp [strtol]

theorem strtol_append {s : Str} {n : Int} (h : strtol s = some n) (t : Str) :
    strtol (s ++ t) = some n := by
  have hsome : strtol s ≠ none := by simp [h]
  have hlength := mt strtol_eq_none.mpr hsome
  have hspace : s.dropWhile isSpace ≠ [] := fun hnil => hlength (by simp [hnil, readSign])
  have hle : ((readSign (s.dropWhile isSpace)).2.takeWhile isDecimal).length
      ≤ (readSign (s.dropWhile isSpace)).2.length := (List.takeWhile_prefix _).length_le
  have hlength' : ((readSign (s.dropWhile isSpace)).2.takeWhile isDecimal).length
      ≠ ((readSign (s.dropWhile isSpace)).2 ++ t).length := by
    rw [List.length_append]
    omega
  rw [← h, strtol, strtol, List.dropWhile_append, if_neg (by simpa using hspace),
    readSign_append hspace]
  simp only [List.takeWhile_append, if_neg hlength, if_neg hlength']

theorem strtol_isSome {s u v : Str} {c d : Byte} (hs : s = u ++ c :: d :: v)
    (hc : isDecimal c = true) (hd : isDecimal d = false) : (strtol s).isSome := by
  rw [Option.isSome_iff_ne_none]
  intro hnone
  obtain ⟨signs, hsigns, hsign⟩ := eq_append_readSign (s.dropWhile isSpace)
  have hall : ∀ b ∈ (readSign (s.dropWhile isSpace)).2, isDecimal b = true := by
    have htake := (List.takeWhile_prefix _).eq_of_length (strtol_eq_none.mp hnone)
    exact List.takeWhile_eq_self_iff.mp htake
  have hskipped : ∀ b ∈ s.takeWhile isSpace ++ signs, isDecimal b = false := by
    refine List.forall_mem_append.mpr ⟨fun b hb => ?_, hsign⟩
    have hspace := List.mem_takeWhile_imp hb
    simp only [isSpace, isDecimal, Bool.or_eq_true, Bool.and_eq_true, decide_eq_true_eq] at hspace ⊢
    simp only [Bool.and_eq_false_iff, decide_eq_false_iff_not]
    omega
  -- The digit and the byte behind it lie on both sides of the place where the digits begin.
  have hsplit : (u ++ [c]) ++ (d :: v)
      = (s.takeWhile isSpace ++ signs) ++ (readSign (s.dropWhile isSpace)).2 := by
    rw [List.append_assoc, List.append_assoc, ← hsigns, List.takeWhile_append_dropWhile, hs]
    rfl
  rcases List.append_eq_append_iff.mp hsplit with ⟨w, hw, -⟩ | ⟨w, -, hw⟩
  · have hmem : c ∈ s.takeWhile isSpace ++ signs := by simp [hw]
    rw [hskipped c hmem] at hc
    cases hc
  · have hmem : d ∈ (readSign (s.dropWhile isSpace)).2 := by simp [hw]
    rw [hall d hmem] at hd
    cases hd

theorem strtol_digits {digits s : Str} {c : Byte} (hne : digits ≠ [])
    (hdigits : ∀ d ∈ digits, isDecimal d = true) (hsmall : decimalValue digits < 2 ^ 31)
    (hc : isDecimal c = false) : strtol (digits ++ c :: s) = some (decimalValue digits : Int) := by
  have htake : (digits ++ c :: s).takeWhile isDecimal = digits := by
    rw [List.takeWhile_append_of_pos hdigits, List.takeWhile_cons_of_neg (by simp [hc]),
      List.append_nil]
  have hlength : digits.length ≠ (digits ++ c :: s).length := by
    rw [List.length_append, List.length_cons]
    omega
  have hlong : toLong (decimalValue digits) = decimalValue digits := by
    rw [toLong]
    omega
  obtain ⟨d, ds, rfl⟩ := List.exists_cons_of_ne_nil hne
  have hd := hdigits d List.mem_cons_self
  simp only [isDecimal, Bool.and_eq_true, decide_eq_true_eq] at hd
  have hspace : isSpace d = false := by
    simp only [isSpace, Bool.or_eq_false_iff, Bool.and_eq_false_iff, decide_eq_false_iff_not]
    omega
  have hminus : d ≠ 45 := fun h => absurd hd (by rw [h]; decide)
  have hplus : d ≠ 43 := fun h => absurd hd (by rw [h]; decide)
  have hskip : (d :: ds ++ c :: s).dropWhile isSpace = d :: ds ++ c :: s :=
    List.dropWhile_cons_of_neg (by simp [hspace])
  have hsign : readSign (d :: ds ++ c :: s) = (false, d :: ds ++ c :: s) := by
    rw [List.cons_append, readSign, if_neg hminus, if_neg hplus]
  rw [strtol, hskip, hsign]
  simp only [htake, if_neg hlength, Bool.false_eq_true, if_false, hlong]

end PCom.Library
