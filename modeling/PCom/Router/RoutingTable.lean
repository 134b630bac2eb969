import Mathlib.Data.List.Basic
import Mathlib.Logic.Function.Basic
import PCom.Lib.Bytes
import PCom.Lib.Qsort

/-! The routing table of `router.c`: masks, `parse_rtable` and `get_best_route`.  Addresses are
network-order words as a little-endian machine loads them. -/

namespace PCom.Router

open Lib

/-- The ways in which a C function here has no defined result. -/
inductive Fault
  | nullPointer | badIndex | assertion | endless
  deriving DecidableEq

structure RtableEntry where
  pfx : Word32
  nextHop : Word32
  mask : Word32
  interface : Int
  deriving DecidableEq

/-- `entry_compare`: the difference of two unsigned words, returned as an `int`. -/
def entryCompare (a b : RtableEntry) : Int := (a.pfx - b.pfx).toInt

/-- The `while` of `get_prefix_length`, for at most `fuel` tests of its condition. -/
def prefixLengthLoop : Nat → Word32 → Nat → Option Nat
  | 0, _, _ => none
  | fuel + 1, ip, len =>
    if ip > 0#32 then prefixLengthLoop fuel (ip <<< 1) (len + 1) else some len

def getPrefixLength (ipAddr : Word32) : Option Nat := prefixLengthLoop 33 (ntohl ipAddr) 0

/-- Shift counts are taken modulo 32, as the hardware does. -/
def getSubnetMask (len : Nat) : Word32 :=
  let bit := 1#32 <<< (len % 32)
  let ones := bit - (if len = 32 then 2#32 else 1#32)
  htonl (ones <<< ((32 - len) % 32))

section Text

def isSpace (c : Char) : Bool := c = ' ' || ('\t' ≤ c && c ≤ '\r')

def digitOf (base : Nat) (c : Char) : Option Nat :=
  let v :=
    if '0' ≤ c ∧ c ≤ '9' then c.toNat - '0'.toNat
    else if 'a' ≤ c ∧ c ≤ 'f' then c.toNat - 'a'.toNat + 10
    else if 'A' ≤ c ∧ c ≤ 'F' then c.toNat - 'A'.toNat + 10
    else base
  if v < base then some v else none

def readDigits (base : Nat) : List Char → Nat → Option Nat
  | [], acc => some acc
  | c :: cs, acc => (digitOf base c).bind fun v => readDigits base cs (acc * base + v)

/-- `strtoul(.., 0)` on a text that it must consume whole. -/
def readPart : List Char → Option Nat
  | [] => none
  | ['0'] => some 0
  | '0' :: c :: cs =>
    if c = 'x' ∨ c = 'X' then (if cs = [] then none else readDigits 16 cs 0)
    else readDigits 8 (c :: cs) 0
  | cs => readDigits 10 cs 0

/-- The value of dotted parts: all but the last are bytes, the last one fills what is left. -/
def joinParts : List Nat → Option Nat
  | [a] => if a < 2 ^ 32 then some a else none
  | [a, b] => if a < 256 ∧ b < 2 ^ 24 then some (a * 2 ^ 24 + b) else none
  | [a, b, c] =>
    if a < 256 ∧ b < 256 ∧ c < 2 ^ 16 then some (a * 2 ^ 24 + b * 2 ^ 16 + c) else none
  | [a, b, c, d] =>
    if a < 256 ∧ b < 256 ∧ c < 256 ∧ d < 256 then
      some (a * 2 ^ 24 + b * 2 ^ 16 + c * 2 ^ 8 + d)
    else none
  | _ => none

/-- `inet_addr`, which answers `INADDR_NONE` for a text that is no address. -/
def inetAddr (cp : List Char) : Word32 :=
  match (((cp.takeWhile (!isSpace ·)).splitOn '.').mapM readPart).bind joinParts with
  | some ip => htonl (BitVec.ofNat 32 ip)
  | none => 0xffffffff#32

/-- `%s`: the next word and what follows it, or nothing at the end of the file. -/
def scanWord (s : List Char) : Option (List Char × List Char) :=
  match s.dropWhile isSpace with
  | [] => none
  | s => some (s.takeWhile (!isSpace ·), s.dropWhile (!isSpace ·))

def isDigit (c : Char) : Bool := '0' ≤ c && c ≤ '9'

def digitsValue (ds : List Char) : Nat := ds.foldl (fun n c => 10 * n + (c.toNat - '0'.toNat)) 0

/-- An `int` assigned from a `long`, which `strtol` keeps within its bounds. -/
def toInt (n : Int) : Int := (max (-2 ^ 63) (min n (2 ^ 63 - 1))).bmod (2 ^ 32)

def readSign : List Char → Bool × List Char
  | '-' :: s => (true, s)
  | '+' :: s => (false, s)
  | s => (false, s)

def scanInt (s : List Char) : Option Int × List Char :=
  let (negative, s) := readSign (s.dropWhile isSpace)
  let ds := s.takeWhile isDigit
  if ds = [] then (none, s)
  else
    let n : Int := digitsValue ds
    (some (toInt (if negative then -n else n)), s.dropWhile isDigit)

end Text

/-- The four locals of `parse_rtable` that `fscanf` fills. -/
structure Fields where
  pfx : List Char
  nextHop : List Char
  mask : List Char
  interface : Int

/-- `fscanf(f, "%s %s %s %d\n", ..)`.  A conversion that fails leaves its own and all later
locals as they were; a word that does not fit its `char[16]` has no defined result. -/
def fscanfRoute (f : Fields) (s : List Char) : Option (Fields × List Char) :=
  match scanWord s with
  | none => some (f, [])
  | some (w, s) =>
    if 15 < w.length then none else
    let f := { f with pfx := w }
    match scanWord s with
    | none => some (f, [])
    | some (w, s) =>
      if 15 < w.length then none else
      let f := { f with nextHop := w }
      match scanWord s with
      | none => some (f, [])
      | some (w, s) =>
        if 15 < w.length then none else
        let f := { f with mask := w }
        match scanInt s with
        | (none, s) => some (f, s)
        | (some n, s) => some ({ f with interface := n }, s.dropWhile isSpace)

def Fields.entry (f : Fields) : RtableEntry where
  pfx := inetAddr f.pfx
  nextHop := inetAddr f.nextHop
  mask := inetAddr f.mask
  interface := f.interface

/-- A growing array.  `capacity` is an `int` that doubles, so it never passes `2 ^ 30`. -/
structure Bucket where
  entries : List RtableEntry
  capacity : Nat
  size_lt : entries.length < capacity
  capacity_le : capacity ≤ 2 ^ 30

namespace Bucket

def empty : Bucket := ⟨[], 1, by decide, by decide⟩

/-- Appends an entry.  Doubling a capacity of `2 ^ 30` overflows and leaves nothing to write to. -/
def add (b : Bucket) (e : RtableEntry) : Option Bucket :=
  if h : b.entries.length + 1 = b.capacity then
    if hcap : b.capacity * 2 ≤ 2 ^ 30 then
      some ⟨b.entries ++ [e], b.capacity * 2, by simp; have := b.size_lt; omega, hcap⟩
    else none
  else
    some ⟨b.entries ++ [e], b.capacity, by simp; have := b.size_lt; omega, b.capacity_le⟩

end Bucket

abbrev Rtable := Fin 33 → Bucket

def initRtable : Rtable := fun _ => .empty

def Rtable.add (rt : Rtable) (e : RtableEntry) : Option Rtable := do
  let idx ← getPrefixLength e.mask
  if h : idx < 33 then
    let b ← (rt ⟨idx, h⟩).add e
    return Function.update rt ⟨idx, h⟩ b
  else none

/-- The `while (!feof(f))` loop.  Every `fscanf` tries to read past the last character it
accepts, so the end of the file is noticed exactly when nothing is left. -/
def parseLoop : Nat → Rtable → Fields → List Char → Option Rtable
  | 0, _, _, _ => none
  | fuel + 1, rt, f, s => do
    let (f, s) ← fscanfRoute f s
    let rt ← rt.add f.entry
    if s = [] then some rt else parseLoop fuel rt f s

def Bucket.sort (qsort : Qsort RtableEntry) (b : Bucket) : Bucket :=
  if b.entries.length ≠ 0 then
    { b with
      entries := qsort.sort entryCompare b.entries
      size_lt := by rw [qsort.length_sort]; exact b.size_lt }
  else b

/-- `parse_rtable` on a file.  `f` is what the uninitialised locals hold at the start. -/
def parseRtable (qsort : Qsort RtableEntry) (f : Fields) (file : List Char) : Option Rtable :=
  (parseLoop (file.length + 1) initRtable f file).map fun rt i => (rt i).sort qsort

/-- The value of an `int` expression whose exact value is `n`. -/
def wrapInt (n : Int) : Int := n.bmod (2 ^ 32)

/-- The binary search of `get_best_route` in one bucket.  Comparing the `int` with the
`uint32_t` prefix converts it back to unsigned. -/
def searchLoop (es : List RtableEntry) (toMatch : Word32) :
    Nat → Int → Int → Except Fault (Option RtableEntry)
  | 0, _, _ => .error .endless
  | fuel + 1, left, right =>
    if left ≤ right then
      let mid := (wrapInt (left + right)).tdiv 2
      if mid < 0 then .error .badIndex else
      match es[mid.toNat]? with
      | none => .error .badIndex
      | some e =>
        if toMatch = e.pfx then .ok (some e) else
        let right' := if toMatch < e.pfx then wrapInt (mid - 1) else right
        let left' := if toMatch > e.pfx then wrapInt (mid + 1) else left
        searchLoop es toMatch fuel left' right'
    else .ok none

def searchBucket (es : List RtableEntry) (toMatch : Word32) : Except Fault (Option RtableEntry) :=
  if es.length ≠ 0 then searchLoop es toMatch (es.length + 1) 0 (wrapInt (es.length - 1))
  else .ok none

/-- The `for` of `get_best_route` over the bucket numbers it still has to try. -/
def searchBuckets (rt : Rtable) (destIp : Word32) :
    List (Fin 33) → Except Fault (Option RtableEntry)
  | [] => .ok none
  | i :: is => do
    match ← searchBucket (rt i).entries (destIp &&& getSubnetMask i) with
    | some e => .ok (some e)
    | none => searchBuckets rt destIp is

def getBestRoute (rt : Rtable) (destIp : Word32) : Except Fault (Option RtableEntry) :=
  searchBuckets rt destIp (List.finRange 33).reverse

end PCom.Router
