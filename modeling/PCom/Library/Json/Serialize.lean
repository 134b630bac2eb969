import PCom.Lib.Appending
import PCom.Library.Json.Grammar

/-! The serializer of `parson.c`: `json_serialize_to_buffer_r` and what calls it. -/

namespace PCom.Library.Json

open Lib

def numBufSize : Nat := 64

def appendString (string : Str) : Appending
  | memory, none => some (memory, string.length)
  | memory, some i => (store memory i (string ++ [0])).map fun memory => (memory, string.length)

def appendIndent (level : Nat) : Appending :=
  appendAll (List.replicate level (appendString (ascii "    ")))

/-- The default of the switch in `json_serialize_string`, where no zero is written. -/
def appendPlain (c : Byte) : Appending
  | memory, none => some (memory, 1)
  | memory, some i => (store memory i [c]).map fun memory => (memory, 1)

def serializeChar (c : Byte) : Appending :=
  match escape c with
  | some string => appendString string
  | none => appendPlain c

def jsonSerializeString (string : Str) : Appending :=
  appendAll (appendString [34] :: string.map serializeChar ++ [appendString [34]])

variable {ν : Type} (D : Doubles ν) (isPretty : Bool)

/-- `sprintf` to `buf`, or to `num_buf`. -/
def serializeNumber (num : ν) : Appending
  | memory, none =>
    if (D.sprintf num).length < numBufSize then some (memory, (D.sprintf num).length) else none
  | memory, some i =>
    (store memory i (D.sprintf num ++ [0])).map fun memory => (memory, (D.sprintf num).length)

def whenPretty (calls : List Appending) : List Appending := if isPretty then calls else []

mutual

def jsonSerializeToBufferR : Value ν → Nat → Appending
  | .array items, level =>
    appendAll ([appendString (ascii "[")]
      ++ whenPretty (isPretty && !items.isEmpty) [appendString (ascii "\n")]
      ++ serializeItems items level
      ++ whenPretty (isPretty && !items.isEmpty) [appendIndent level]
      ++ [appendString (ascii "]")])
  | .object members, level =>
    appendAll ([appendString (ascii "\x7b")]
      ++ whenPretty (isPretty && !members.isEmpty) [appendString (ascii "\n")]
      ++ serializeMembers members level
      ++ whenPretty (isPretty && !members.isEmpty) [appendIndent level]
      ++ [appendString (ascii "\x7d")])
  | .string chars, _ => jsonSerializeString chars
  | .boolean boolean, _ => appendString (if boolean then ascii "true" else ascii "false")
  | .number num, _ => serializeNumber D num
  | .null, _ => appendString (ascii "null")

def serializeItems : List (Value ν) → Nat → List Appending
  | [], _ => []
  | value :: items, level =>
    whenPretty isPretty [appendIndent (level + 1)]
      ++ [jsonSerializeToBufferR value (level + 1)]
      ++ (if items.isEmpty then [] else [appendString (ascii ",")])
      ++ whenPretty isPretty [appendString (ascii "\n")]
      ++ serializeItems items level

def serializeMembers : List (Str × Value ν) → Nat → List Appending
  | [], _ => []
  | (key, value) :: members, level =>
    whenPretty isPretty [appendIndent (level + 1)]
      ++ [jsonSerializeString key, appendString (ascii ":")]
      ++ whenPretty isPretty [appendString (ascii " ")]
      ++ [jsonSerializeToBufferR value (level + 1)]
      ++ (if members.isEmpty then [] else [appendString (ascii ",")])
      ++ whenPretty isPretty [appendString (ascii "\n")]
      ++ serializeMembers members level

end

/-- Whether a sum can be an `int`: with a limit, or as a number without one. -/
def within : Option Nat → Nat → Bool
  | none, _ => true
  | some limit, n => n ≤ limit

def intMax : Nat := 2 ^ 31 - 1

variable (limit : Option Nat)

/-- The call that `buf` is for.  `written` and `written_total` only grow, so there is an overflow
among them exactly if the last sum is above the limit, and no result then. -/
def serialized (value : Value ν) : Appending := fun memory buf =>
  (jsonSerializeToBufferR D isPretty value 0 memory buf).filter fun r => within limit r.2

/-- A size of 0 stands for an error, which there is for NULL only. -/
def serializationSize : Option (Value ν) → Option Nat
  | none => some 0
  | some value => (serialized D isPretty limit value [] none).map (·.2 + 1)

/-- The buffer, or `none` for `JSONFailure`. -/
def serializeToBuffer (value : Option (Value ν)) (buf : Str) : Option (Option Str) :=
  match value, serializationSize D isPretty limit value with
  | some value, some neededSizeInBytes =>
    if neededSizeInBytes = 0 ∨ buf.length < neededSizeInBytes then some none
    else (serialized D isPretty limit value buf (some 0)).map fun r => some r.1
  | none, some _ => some none
  | _, none => none

/-- A buffer from `malloc`, whose bytes are anything before they are written. -/
def malloc (garbage : Nat → Byte) (size : Nat) : Str := (List.range size).map garbage

def serializeToString (garbage : Nat → Byte) (value : Option (Value ν)) : Option (Option Str) :=
  match serializationSize D isPretty limit value with
  | none => none
  | some bufSizeBytes =>
    if bufSizeBytes = 0 then some none
    else serializeToBuffer D isPretty limit value (malloc garbage bufSizeBytes)

def jsonSerializationSize : Option (Value ν) → Option Nat := serializationSize D false (some intMax)

def jsonSerializeToBuffer : Option (Value ν) → Str → Option (Option Str) :=
  serializeToBuffer D false (some intMax)

def jsonSerializeToString : (Nat → Byte) → Option (Value ν) → Option (Option Str) :=
  serializeToString D false (some intMax)

def jsonSerializationSizePretty : Option (Value ν) → Option Nat :=
  serializationSize D true (some intMax)

def jsonSerializeToBufferPretty : Option (Value ν) → Str → Option (Option Str) :=
  serializeToBuffer D true (some intMax)

def jsonSerializeToStringPretty : (Nat → Byte) → Option (Value ν) → Option (Option Str) :=
  serializeToString D true (some intMax)

def gap (level : Nat) : Str :=
  if isPretty then 10 :: (List.replicate level (ascii "    ")).flatten else []

def quoted (string : Str) : Str := 34 :: (string.flatMap (fun c => (escape c).getD [c]) ++ [34])

def colon : Str := if isPretty then ascii ": " else ascii ":"

mutual

def text : Value ν → Nat → Str
  | .array [], _ => ascii "[]"
  | .array items, level =>
    91 :: (commas (textItems items (level + 1)) ++ (gap isPretty level ++ [93]))
  | .object [], _ => ascii "\x7b\x7d"
  | .object members, level =>
    123 :: (commas (textMembers members (level + 1)) ++ (gap isPretty level ++ [125]))
  | .string chars, _ => quoted chars
  | .boolean boolean, _ => if boolean then ascii "true" else ascii "false"
  | .number num, _ => D.sprintf num
  | .null, _ => ascii "null"

def textItems : List (Value ν) → Nat → List Str
  | [], _ => []
  | value :: items, level => (gap isPretty level ++ text value level) :: textItems items level

def textMembers : List (Str × Value ν) → Nat → List Str
  | [], _ => []
  | (key, value) :: members, level =>
    (gap isPretty level ++ (quoted key ++ (colon isPretty ++ text value level)))
      :: textMembers members level

end

/-! ## What is written -/

variable {D isPretty}

theorem prints_appendString (string : Str) : Prints (appendString string) string where
  counts := fun _ => rfl
  stores := fun front space last rest h => by
    have hstore : store (front ++ ((space ++ [last]) ++ rest)) front.length (string ++ [0]) = _ :=
      store_append (by rw [List.length_append, List.length_append, h]; rfl)
    rw [List.append_assoc, List.append_assoc] at hstore
    exact Option.map_eq_some_iff.mpr ⟨_, hstore, rfl⟩

theorem writes_appendPlain (c : Byte) : Writes (appendPlain c) [c] where
  counts := fun _ => rfl
  stores := fun _ _ last _ h =>
    ⟨last, Option.map_eq_some_iff.mpr ⟨_, store_append h, rfl⟩⟩

theorem prints_serializeNumber (num : ν) : Prints (serializeNumber D num) (D.sprintf num) where
  counts := fun _ => if_pos (D.length_sprintf num)
  stores := (prints_appendString (D.sprintf num)).stores

theorem writes_serializeChar (c : Byte) : Writes (serializeChar c) ((escape c).getD [c]) := by
  rw [serializeChar]
  cases escape c with
  | some string => exact (prints_appendString string).writes
  | none => exact writes_appendPlain c

theorem writes_map {α : Type} {call : α → Appending} {t : α → Str}
    (h : ∀ a, Writes (call a) (t a)) (as : List α) :
    Writes (appendAll (as.map call)) (as.flatMap t) := by
  induction as with
  | nil => exact writes_nil
  | cons a as ih => exact (writes_singleton.mpr (h a)).append ih

theorem writes_appendIndent (level : Nat) :
    Writes (appendIndent level) (List.replicate level (ascii "    ")).flatten := by
  have h := writes_map (fun _ : Unit => (prints_appendString (ascii "    ")).writes)
    (List.replicate level ())
  rwa [List.map_replicate, List.flatMap, List.map_replicate] at h

theorem prints_jsonSerializeString (string : Str) :
    Prints (jsonSerializeString string) (quoted string) :=
  ((writes_singleton.mpr (prints_appendString [34]).writes).append
    (writes_map writes_serializeChar string)).append_prints
      (prints_singleton.mpr (prints_appendString [34]))

theorem writes_whenPretty (isPretty : Bool) {calls : List Appending} {t : Str}
    (h : Writes (appendAll calls) t) :
    Writes (appendAll (whenPretty isPretty calls)) (if isPretty then t else []) := by
  cases isPretty with
  | true => exact h
  | false => exact writes_nil

def newline (isPretty : Bool) : Str := if isPretty then [10] else []

def indentation (isPretty : Bool) (level : Nat) : Str :=
  if isPretty then (List.replicate level (ascii "    ")).flatten else []

theorem gap_eq (level : Nat) : gap isPretty level = newline isPretty ++ indentation isPretty level := by
  cases isPretty <;> rfl

theorem writes_newline (isPretty : Bool) :
    Writes (appendAll (whenPretty isPretty [appendString (ascii "\n")])) (newline isPretty) :=
  writes_whenPretty isPretty (writes_singleton.mpr (prints_appendString (ascii "\n")).writes)

theorem writes_indentation (isPretty : Bool) (level : Nat) :
    Writes (appendAll (whenPretty isPretty [appendIndent level])) (indentation isPretty level) :=
  writes_whenPretty isPretty (writes_singleton.mpr (writes_appendIndent level))

theorem writes_colon (isPretty : Bool) : Writes (appendAll (appendString (ascii ":") ::
    whenPretty isPretty [appendString (ascii " ")])) (colon isPretty) := by
  have h := (writes_singleton.mpr (prints_appendString (ascii ":")).writes).append
    (writes_whenPretty isPretty
      (writes_singleton.mpr (prints_appendString (ascii " ")).writes))
  cases isPretty <;> exact h

/-! ## Items and members -/

def serializeEntries (isPretty : Bool) : List (List Appending) → Nat → List Appending
  | [], _ => []
  | entry :: entries, level =>
    whenPretty isPretty [appendIndent (level + 1)] ++ entry
      ++ (if entries.isEmpty then [] else [appendString (ascii ",")])
      ++ whenPretty isPretty [appendString (ascii "\n")]
      ++ serializeEntries isPretty entries level

theorem serializeItems_eq (items : List (Value ν)) (level : Nat) :
    serializeItems D isPretty items level = serializeEntries isPretty
      (items.map fun value => [jsonSerializeToBufferR D isPretty value (level + 1)]) level := by
  induction items with
  | nil => rfl
  | cons value items ih =>
    rw [serializeItems, ih, List.map_cons, serializeEntries, List.isEmpty_map]

theorem serializeMembers_eq (members : List (Str × Value ν)) (level : Nat) :
    serializeMembers D isPretty members level = serializeEntries isPretty
      (members.map fun m => [jsonSerializeString m.1] ++ (appendString (ascii ":") ::
        whenPretty isPretty [appendString (ascii " ")]) ++
          [jsonSerializeToBufferR D isPretty m.2 (level + 1)]) level := by
  induction members with
  | nil => rfl
  | cons m members ih =>
    rw [serializeMembers, ih, List.map_cons, serializeEntries, List.isEmpty_map]
    simp only [List.append_assoc, List.cons_append, List.nil_append]

theorem textItems_eq (items : List (Value ν)) (level : Nat) :
    textItems D isPretty items level =
      items.map fun value => gap isPretty level ++ text D isPretty value level := by
  induction items with
  | nil => rfl
  | cons value items ih => rw [textItems, ih, List.map_cons]

theorem textMembers_eq (members : List (Str × Value ν)) (level : Nat) :
    textMembers D isPretty members level = members.map fun m =>
      gap isPretty level ++ (quoted m.1 ++ (colon isPretty ++ text D isPretty m.2 level)) := by
  induction members with
  | nil => rfl
  | cons m members ih => rw [textMembers, ih, List.map_cons]

section Entries

variable {α : Type} {calls : α → List Appending} {t : α → Str}

theorem writes_entry (isPretty : Bool) {a : α} (h : Writes (appendAll (calls a)) (t a))
    (level : Nat) : Writes (appendAll (whenPretty isPretty [appendString (ascii "\n")]
      ++ (whenPretty isPretty [appendIndent level] ++ calls a))) (gap isPretty level ++ t a) := by
  rw [gap_eq, List.append_assoc]
  exact (writes_newline isPretty).append ((writes_indentation isPretty level).append h)

theorem writes_entries (isPretty : Bool) {as : List α} (hne : as ≠ [])
    (h : ∀ a ∈ as, Writes (appendAll (calls a)) (t a)) (level : Nat) :
    Writes (appendAll (whenPretty isPretty [appendString (ascii "\n")]
        ++ serializeEntries isPretty (as.map calls) level))
      (commas (as.map fun a => gap isPretty (level + 1) ++ t a) ++ newline isPretty) := by
  induction as with
  | nil => exact absurd rfl hne
  | cons a as ih =>
    obtain ⟨ha, has⟩ := List.forall_mem_cons.mp h
    have hentry := writes_entry isPretty ha (level + 1)
    rw [List.map_cons, List.map_cons, serializeEntries]
    cases as with
    | nil =>
      have hlast := hentry.append (writes_newline isPretty)
      simpa only [List.append_assoc, List.map_nil, serializeEntries, List.isEmpty_nil, if_true,
        List.append_nil, List.nil_append, commas] using hlast
    | cons a' as =>
      have hcomma : Writes (appendAll [appendString (ascii ",")]) [44] :=
        writes_singleton.mpr (prints_appendString (ascii ",")).writes
      have hall := (hentry.append hcomma).append (ih (List.cons_ne_nil _ _) has)
      rw [commas]
      · simpa only [List.append_assoc, List.map_cons, List.isEmpty_cons, Bool.false_eq_true,
          if_false, List.cons_append, List.nil_append] using hall
      · exact List.cons_ne_nil _ _

theorem prints_entries (isPretty : Bool) (first last : Byte) {as : List α}
    (h : ∀ a ∈ as, Writes (appendAll (calls a)) (t a)) (level : Nat) :
    Prints (appendAll ([appendString [first]]
        ++ whenPretty (isPretty && !as.isEmpty) [appendString (ascii "\n")]
        ++ serializeEntries isPretty (as.map calls) level
        ++ whenPretty (isPretty && !as.isEmpty) [appendIndent level] ++ [appendString [last]]))
      (if as = [] then [first, last]
        else first :: (commas (as.map fun a => gap isPretty (level + 1) ++ t a)
          ++ (gap isPretty level ++ [last]))) := by
  have hfirst := writes_singleton.mpr (prints_appendString [first]).writes
  have hlast := prints_singleton.mpr (prints_appendString [last])
  by_cases has : as = []
  · subst has
    rw [if_pos rfl, List.isEmpty_nil, Bool.not_true, Bool.and_false]
    exact hfirst.append_prints hlast
  · have hempty : (isPretty && !as.isEmpty) = isPretty := by simp [has]
    have hall := (hfirst.append ((writes_entries isPretty has h level).append
      (writes_indentation isPretty level))).append_prints hlast
    rw [if_neg has, hempty, gap_eq level]
    simpa only [List.append_assoc, List.cons_append, List.nil_append] using hall

end Entries

theorem prints_jsonSerializeToBufferR (D : Doubles ν) (isPretty : Bool) (value : Value ν)
    (level : Nat) :
    Prints (jsonSerializeToBufferR D isPretty value level) (text D isPretty value level) := by
  induction value generalizing level with
  | null => exact prints_appendString _
  | boolean b => cases b <;> exact prints_appendString _
  | number num => exact prints_serializeNumber num
  | string chars => exact prints_jsonSerializeString chars
  | array items ih =>
    have h := prints_entries isPretty 91 93
      (fun value hvalue => writes_singleton.mpr (ih value hvalue (level + 1)).writes) level
    rw [← serializeItems_eq, ← textItems_eq] at h
    cases items <;> exact h
  | object members ih =>
    have h := prints_entries isPretty 123 125
      (fun m hm => ((writes_singleton.mpr (prints_jsonSerializeString m.1).writes).append
        (writes_colon isPretty)).append (writes_singleton.mpr (ih m hm (level + 1)).writes)) level
    rw [← serializeMembers_eq] at h
    simp only [List.append_assoc] at h
    rw [← textMembers_eq] at h
    simp only [jsonSerializeToBufferR, List.append_assoc]
    cases members <;> exact h

section Written

variable {limit : Option Nat}

theorem serializationSize_eq (value : Value ν) :
    serializationSize D isPretty limit (some value) =
      if within limit (text D isPretty value 0).length then
        some ((text D isPretty value 0).length + 1)
      else none := by
  rw [serializationSize, serialized, (prints_jsonSerializeToBufferR D isPretty value 0).counts]
  cases h : within limit (text D isPretty value 0).length <;> simp [h]

/-- The size that is counted is the size that is needed: a buffer of it takes the text and a zero, and
what is behind is left alone. -/
theorem serializeToBuffer_eq (value : Value ν) (buf : Str) :
    serializeToBuffer D isPretty limit (some value) buf =
      if within limit (text D isPretty value 0).length then
        some (if buf.length < (text D isPretty value 0).length + 1 then none
          else some (text D isPretty value 0 ++
            0 :: buf.drop ((text D isPretty value 0).length + 1)))
      else none := by
  simp only [serializeToBuffer, serializationSize_eq]
  cases hwithin : within limit (text D isPretty value 0).length with
  | false => rfl
  | true =>
    simp only [if_true]
    by_cases hshort : buf.length < (text D isPretty value 0).length + 1
    · rw [if_pos (.inr hshort), if_pos hshort]
    · rw [if_neg (by omega), if_neg hshort]
      have hlt : (text D isPretty value 0).length < buf.length := by omega
      have hstores := (prints_jsonSerializeToBufferR D isPretty value 0).stores []
        (buf.take (text D isPretty value 0).length) buf[(text D isPretty value 0).length]
        (buf.drop ((text D isPretty value 0).length + 1)) (List.length_take_of_le (by omega))
      rw [List.getElem_cons_drop, List.nil_append, List.take_append_drop] at hstores
      rw [serialized, show some 0 = some ([] : Str).length from rfl, hstores, List.nil_append]
      simp [hwithin]

theorem serializeToString_eq (garbage : Nat → Byte) (value : Value ν) :
    serializeToString D isPretty limit garbage (some value) =
      if within limit (text D isPretty value 0).length then
        some (some (text D isPretty value 0 ++ [0]))
      else none := by
  have hmalloc (size : Nat) : (malloc garbage size).length = size := by simp [malloc]
  simp only [serializeToString, serializationSize_eq]
  cases hwithin : within limit (text D isPretty value 0).length with
  | false => rfl
  | true =>
    simp only [if_true]
    rw [if_neg (Nat.succ_ne_zero _), serializeToBuffer_eq, hwithin, if_pos rfl, hmalloc,
      if_neg (Nat.lt_irrefl _), List.drop_of_length_le (by rw [hmalloc])]

end Written

end PCom.Library.Json
