import PCom.Lib.Strtod
import PCom.Library.Json.Strings
import PCom.Library.Json.Value
import PCom.Library.Receive

/-! The parser of `parson.c`: `parse_value` and what it calls. -/

namespace PCom.Library.Json

open Lib

/-- The numerals of RFC 8259: a minus, digits without leading zeros, a fraction and an exponent. -/
inductive Numeral : Str → Prop
  | mk {sign int frac exp : Str} : sign = [] ∨ sign = [45] →
    int = [48] ∨ int ≠ [] ∧ int.head? ≠ some 48 ∧ (∀ c ∈ int, Lib.isDecimal c = true) →
    frac = [] ∨ (∃ digits, frac = 46 :: digits ∧ digits ≠ [] ∧ ∀ c ∈ digits, Lib.isDecimal c = true) →
    exp = [] ∨ (∃ e sign digits, exp = e :: (sign ++ digits) ∧ (e = 101 ∨ e = 69) ∧
      (sign = [] ∨ sign = [43] ∨ sign = [45]) ∧ digits ≠ [] ∧
        ∀ c ∈ digits, Lib.isDecimal c = true) →
    Numeral (sign ++ int ++ frac ++ exp)

/-- `is_decimal`, on the characters that it looks at. -/
def isDecimal (string : Str) : Bool :=
  if 1 < string.length ∧ string.getD 0 0 = 48 ∧ string.getD 1 0 ≠ 46 then false
  else if 2 < string.length ∧ string.take 2 = [45, 48] ∧ string.getD 2 0 ≠ 46 then false
  else !string.any fun c => c = 120 || c = 88

/-- What the C library does with doubles: `sprintf` with `FLOAT_FORMAT`, and `strtod`, which converts
the longest numeral that a string begins with and looks at nothing else. -/
structure Doubles (ν : Type) where
  sprintf : ν → Str
  strtod : Str → Conversion ν
  numeral_sprintf : ∀ x, Numeral (sprintf x)
  isDecimal_sprintf : ∀ x, isDecimal (sprintf x) = true
  length_sprintf : ∀ x, (sprintf x).length < 64
  length_strtod : ∀ s, (strtod s).length ≤ s.length
  strtod_take : ∀ s, strtod (s.take (strtod s).length) = strtod s
  strtod_numeral : ∀ t, Numeral t → (strtod t).length = t.length
  strtod_append : ∀ t rest, Numeral t → EndsNumeral rest → strtod (t ++ rest) = strtod t

variable {ν : Type} (D : Doubles ν)

/-- The number that a numeral is converted to, if it is one and in range. -/
def Doubles.read (t : Str) : Option ν :=
  if (D.strtod t).errno then none else (D.strtod t).number

def maxNesting : Nat := 2048

/-- `SKIP_WHITESPACES`. -/
def skipWhitespaces (string : Str) : Str := string.dropWhile isSpace

def parseNullValue (string : Str) : Option (Value ν × Str) :=
  if (ascii "null").isPrefixOf string then some (.null, string.drop 4) else none

def parseBooleanValue (string : Str) : Option (Value ν × Str) :=
  if (ascii "true").isPrefixOf string then some (.boolean true, string.drop 4)
  else if (ascii "false").isPrefixOf string then some (.boolean false, string.drop 5)
  else none

def parseNumberValue (string : Str) : Option (Value ν × Str) :=
  let number := D.strtod string
  if number.errno ∨ isDecimal (string.take number.length) = false then none
  else number.number.map fun x => (.number x, string.drop number.length)

def parseStringValue (string : Str) : Option (Value ν × Str) :=
  (getQuotedString string).map fun r => (.string r.1, r.2)

/-- The loop of `parse_array_value`, with at most one pass for each character. -/
def parseItems (parseValue : Str → Option (Value ν × Str)) :
    Nat → List (Value ν) → Str → Option (List (Value ν) × Str)
  | 0, _, _ => none
  | passes + 1, items, string =>
    if string = [] then some (items, string)
    else
      match parseValue string with
      | none => none
      | some (value, string) =>
        let string := skipWhitespaces string
        if string.head? = some 44 then
          parseItems parseValue passes (items ++ [value]) (skipWhitespaces string.tail)
        else some (items ++ [value], string)

def parseArrayValue (parseValue : Str → Option (Value ν × Str)) (string : Str) :
    Option (Value ν × Str) :=
  if string.head? ≠ some 91 then none
  else
    let inside := skipWhitespaces string.tail
    if inside.head? = some 93 then some (.array [], inside.tail)
    else
      match parseItems parseValue string.length [] inside with
      | none => none
      | some (items, string) =>
        let string := skipWhitespaces string
        if string.head? ≠ some 93 ∨ items = [] then none else some (.array items, string.tail)

def getnValue (members : List (Str × Value ν)) (name : Str) : Option (Value ν) :=
  (members.find? fun m => m.1 = name).map Prod.snd

def objectAdd (members : List (Str × Value ν)) (name : Str) (value : Value ν) :
    Option (List (Str × Value ν)) :=
  match getnValue members name with
  | some _ => none
  | none => some (members ++ [(name, value)])

def parseMembers (parseValue : Str → Option (Value ν × Str)) :
    Nat → List (Str × Value ν) → Str → Option (List (Str × Value ν) × Str)
  | 0, _, _ => none
  | passes + 1, members, string =>
    if string = [] then some (members, string)
    else
      match getQuotedString string with
      | none => none
      | some (newKey, string) =>
        let string := skipWhitespaces string
        if 0#8 ∈ newKey ∨ string.head? ≠ some 58 then none
        else
          match parseValue string.tail with
          | none => none
          | some (newValue, string) =>
            match objectAdd members newKey newValue with
            | none => none
            | some members =>
              let string := skipWhitespaces string
              if string.head? = some 44 then
                parseMembers parseValue passes members (skipWhitespaces string.tail)
              else some (members, string)

def parseObjectValue (parseValue : Str → Option (Value ν × Str)) (string : Str) :
    Option (Value ν × Str) :=
  if string.head? ≠ some 123 then none
  else
    let inside := skipWhitespaces string.tail
    if inside.head? = some 125 then some (.object [], inside.tail)
    else
      match parseMembers parseValue string.length [] inside with
      | none => none
      | some (members, string) =>
        let string := skipWhitespaces string
        if string.head? ≠ some 125 ∨ members = [] then none else some (.object members, string.tail)

/-- `parse_value`.  The number is how often it may still be nested, `MAX_NESTING + 1` less `nesting`. -/
def parseValue : Nat → Str → Option (Value ν × Str)
  | 0, _ => none
  | room + 1, string =>
    let string := skipWhitespaces string
    match string.head? with
    | none => none
    | some c =>
      if c = 123 then parseObjectValue (parseValue room) string
      else if c = 91 then parseArrayValue (parseValue room) string
      else if c = 34 then parseStringValue string
      else if c = 102 ∨ c = 116 then parseBooleanValue string
      else if c = 45 ∨ Lib.isDecimal c then parseNumberValue D string
      else if c = 110 then parseNullValue string
      else none

/-- The value, without a look at what is behind it. -/
def jsonParseString (string : Str) : Option (Value ν) :=
  let string := if [0xEF, 0xBB, 0xBF].isPrefixOf string then string.drop 3 else string
  (parseValue D (maxNesting + 1) string).map Prod.fst

end PCom.Library.Json
