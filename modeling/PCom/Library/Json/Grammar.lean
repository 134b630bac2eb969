import Mathlib.Data.List.DropRight
import PCom.Library.Json.Doubles

/-! JSON texts, and that the parser takes them. -/

namespace PCom.Library.Json

open Lib

/-- A value and the white space around it. -/
structure Entry where
  before : Str
  text : Str
  after : Str
  value : Value Str

def Entry.padded (e : Entry) : Str := e.before ++ (e.text ++ e.after)

structure NamedEntry where
  before : Str
  key : Str
  name : Str
  between : Str
  entry : Entry

def NamedEntry.padded (e : NamedEntry) : Str :=
  e.before ++ 34 :: (e.key ++ 34 :: (e.between ++ 58 :: e.entry.padded))

def NamedEntry.member (e : NamedEntry) : Str × Value Str := (e.name, e.entry.value)

def commas : List Str → Str
  | [] => []
  | [t] => t
  | t :: ts => t ++ 44 :: commas ts

section Grammar

variable (space : Byte → Bool) (numeral : Str → Prop)

structure Entry.Spaced (e : Entry) : Prop where
  before : ∀ c ∈ e.before, space c = true
  after : ∀ c ∈ e.after, space c = true

structure NamedEntry.Spaced (e : NamedEntry) : Prop where
  before : ∀ c ∈ e.before, space c = true
  between : ∀ c ∈ e.between, space c = true
  entry : e.entry.Spaced space

/-- The texts of values, with the numerals left as they are. -/
inductive Denotes : Str → Value Str → Prop
  | null : Denotes (ascii "null") .null
  | true : Denotes (ascii "true") (.boolean true)
  | false : Denotes (ascii "false") (.boolean false)
  | number {t : Str} : numeral t → Denotes t (.number t)
  | string {t s : Str} : StringText t s → Denotes (34 :: (t ++ [34])) (.string s)
  | emptyArray {w : Str} : (∀ c ∈ w, space c = true) → Denotes (91 :: (w ++ [93])) (.array [])
  | array {entries : List Entry} : entries ≠ [] → (∀ e ∈ entries, e.Spaced space) →
    (∀ e ∈ entries, Denotes e.text e.value) →
    Denotes (91 :: (commas (entries.map Entry.padded) ++ [93])) (.array (entries.map Entry.value))
  | emptyObject {w : Str} : (∀ c ∈ w, space c = true) → Denotes (123 :: (w ++ [125])) (.object [])
  | object {entries : List NamedEntry} : entries ≠ [] → (∀ e ∈ entries, e.Spaced space) →
    (∀ e ∈ entries, StringText e.key e.name) → (∀ e ∈ entries, Denotes e.entry.text e.entry.value) →
    Denotes (123 :: (commas (entries.map NamedEntry.padded) ++ [125]))
      (.object (entries.map NamedEntry.member))

end Grammar

/-- The white space of RFC 8259. -/
def jsonSpace (c : Byte) : Bool := c = 32 || c = 9 || c = 10 || c = 13

/-- What `parse_value` asks of a tree where it may still be nested that often: objects that can be
built, and no numeral with a zero that anything but a fraction follows. -/
structure Supported (room : Nat) (v : Value Str) : Prop where
  depth : v.depth < room
  wellFormed : v.WellFormed
  numbers : v.AllNumbers fun t => isDecimal t = true

variable {ν : Type} {D : Doubles ν}

theorem isSpace_of_jsonSpace {c : Byte} (h : jsonSpace c = true) : isSpace c = true := by
  revert c
  set_option maxRecDepth 10000 in
  decide

theorem skipWhitespaces_append {w s : Str} (hw : ∀ c ∈ w, isSpace c = true) :
    skipWhitespaces (w ++ s) = skipWhitespaces s :=
  List.dropWhile_append_of_pos hw

theorem skipWhitespaces_cons {c : Byte} {s : Str} (hc : isSpace c = false) :
    skipWhitespaces (c :: s) = c :: s :=
  List.dropWhile_cons_of_neg (by simp [hc])

theorem skipWhitespaces_skipWhitespaces (s : Str) :
    skipWhitespaces (skipWhitespaces s) = skipWhitespaces s :=
  List.dropWhile_idempotent isSpace s

theorem parseValue_skipWhitespaces (room : Nat) (s : Str) :
    parseValue D room (skipWhitespaces s) = parseValue D room s := by
  cases room with
  | zero => rfl
  | succ room => rw [parseValue, parseValue, skipWhitespaces_skipWhitespaces]

section FirstCharacter

variable {w s : Str} {room : Nat}

theorem parseValue_cons {c : Byte} (hw : ∀ c ∈ w, isSpace c = true) (hc : isSpace c = false) :
    parseValue D (room + 1) (w ++ c :: s) =
      if c = 123 then parseObjectValue (parseValue D room) (c :: s)
      else if c = 91 then parseArrayValue (parseValue D room) (c :: s)
      else if c = 34 then parseStringValue (c :: s)
      else if c = 102 ∨ c = 116 then parseBooleanValue (c :: s)
      else if c = 45 ∨ Lib.isDecimal c then parseNumberValue D (c :: s)
      else if c = 110 then parseNullValue (c :: s)
      else none := by
  rw [parseValue, skipWhitespaces_append hw, skipWhitespaces_cons hc]
  rfl

theorem numeral_cons {t : Str} (h : Numeral t) :
    ∃ c t', t = c :: t' ∧ (c = 45 ∨ Lib.isDecimal c = true) := by
  cases h with
  | @mk sign int frac exp hsign hint _ _ =>
    rcases hsign with rfl | rfl
    · rcases hint with rfl | ⟨hne, -, hdigits⟩
      · exact ⟨48, frac ++ exp, rfl, .inr (by decide)⟩
      · obtain ⟨c, int, rfl⟩ := List.exists_cons_of_ne_nil hne
        exact ⟨c, int ++ frac ++ exp, rfl, .inr (hdigits c List.mem_cons_self)⟩
    · exact ⟨45, int ++ frac ++ exp, rfl, .inl rfl⟩

end FirstCharacter

theorem isSpace_of_isDecimal {c : Byte} (h : Lib.isDecimal c = true) : isSpace c = false := by
  revert c
  set_option maxRecDepth 10000 in
  decide

theorem firstCharacter_number {c : Byte} (h : c = 45 ∨ Lib.isDecimal c = true) :
    c ≠ 123 ∧ c ≠ 91 ∧ c ≠ 34 ∧ ¬ (c = 102 ∨ c = 116) := by
  revert c
  set_option maxRecDepth 10000 in
  decide

/-! ## One value -/

def Ends (v : Value Str) (rest : Str) : Prop := ∀ n, v = .number n → EndsNumeral rest

/-- The text is read as the tree if that is supported and its numbers are in range, and is not read
otherwise. -/
def Reads (D : Doubles ν) (room : Nat) (t : Str) (v : Value Str) : Prop :=
  ∀ (w rest : Str) (u : Value ν) (r : Str), (∀ c ∈ w, isSpace c = true) → Ends v rest →
    (parseValue D room (w ++ (t ++ rest)) = some (u, r) ↔
      r = rest ∧ Supported room v ∧ v.convert D.read = some u)

theorem supported_of_leaf {room : Nat} {v : Value Str} (hdepth : v.depth = 0)
    (hparts : ∀ u, Value.Within u v → u = v) (hobject : ∀ members, v ≠ .object members)
    (hnumber : ∀ n, v ≠ .number n) : Supported (room + 1) v := by
  refine ⟨by omega, fun members h => ?_, fun n h => ?_⟩
  · exact absurd (hparts _ h).symm (hobject members)
  · exact absurd (hparts _ h).symm (hnumber n)

theorem reads_zero (t : Str) (v : Value Str) : Reads D 0 t v := by
  intro w rest u r _ _
  refine iff_of_false (fun h => by cases h) fun h => ?_
  exact absurd h.2.1.depth (Nat.not_lt_zero _)

theorem reads_null (room : Nat) : Reads D room (ascii "null") .null := by
  cases room with
  | zero => exact reads_zero _ _
  | succ room =>
    intro w rest u r hw _
    have hparse : parseValue D (room + 1) (w ++ (ascii "null" ++ rest)) = some (.null, rest) :=
      parseValue_cons (s := ascii "ull" ++ rest) hw (by decide)
    have hsupported : Supported (room + 1) Value.null :=
      supported_of_leaf rfl (fun u h => by cases h; rfl) nofun nofun
    rw [hparse]
    simp only [Value.convert, hsupported, true_and, Option.some.injEq, Prod.mk.injEq, eq_comm,
      and_comm]

theorem reads_boolean (room : Nat) (b : Bool) :
    Reads D room (if b then ascii "true" else ascii "false") (.boolean b) := by
  cases room with
  | zero => exact reads_zero _ _
  | succ room =>
    intro w rest u r hw _
    have hparse : parseValue D (room + 1) (w ++ ((if b then ascii "true" else ascii "false") ++ rest))
        = some (.boolean b, rest) := by
      cases b with
      | true => exact parseValue_cons (s := ascii "rue" ++ rest) hw (by decide)
      | false => exact parseValue_cons (s := ascii "alse" ++ rest) hw (by decide)
    have hsupported : Supported (room + 1) (Value.boolean b) :=
      supported_of_leaf rfl (fun u h => by cases h; rfl) nofun nofun
    rw [hparse]
    simp only [Value.convert, hsupported, true_and, Option.some.injEq, Prod.mk.injEq, eq_comm,
      and_comm]

theorem reads_string (room : Nat) {t s : Str} (h : StringText t s) :
    Reads D room (34 :: (t ++ [34])) (.string s) := by
  cases room with
  | zero => exact reads_zero _ _
  | succ room =>
    intro w rest u r hw _
    have hquoted : getQuotedString (34 :: (t ++ 34 :: rest)) = some (s, rest) :=
      getQuotedString_eq_some_iff.mpr ⟨t, h, rfl⟩
    have hshape : 34 :: (t ++ [34]) ++ rest = 34 :: (t ++ 34 :: rest) := by simp
    have hparse : parseValue D (room + 1) (w ++ (34 :: (t ++ [34]) ++ rest))
        = some (.string s, rest) := by
      rw [hshape, parseValue_cons hw (by decide)]
      simp only [parseStringValue, hquoted, Option.map_some]
      rfl
    have hsupported : Supported (room + 1) (Value.string s : Value Str) :=
      supported_of_leaf rfl (fun u h => by cases h; rfl) nofun nofun
    rw [hparse]
    simp only [Value.convert, hsupported, true_and, Option.some.injEq, Prod.mk.injEq, eq_comm,
      and_comm]

theorem supported_number {room : Nat} {t : Str} :
    Supported (room + 1) (.number t) ↔ isDecimal t = true := by
  constructor
  · intro h
    have hnumbers := h.numbers
    rwa [Value.allNumbers_number] at hnumbers
  · intro h
    refine ⟨Nat.succ_pos _, fun members hm => ?_, Value.allNumbers_number.mpr h⟩
    cases hm

theorem reads_number (room : Nat) {t : Str} (h : Numeral t) : Reads D room t (.number t) := by
  cases room with
  | zero => exact reads_zero _ _
  | succ room =>
    intro w rest u r hw hends
    obtain ⟨c, t', rfl, hc⟩ := numeral_cons h
    have hspace : isSpace c = false := by
      rcases hc with rfl | hc
      · decide
      · exact isSpace_of_isDecimal hc
    have hother := firstCharacter_number hc
    have hstrtod : D.strtod (c :: (t' ++ rest)) = D.strtod (c :: t') :=
      D.strtod_append (c :: t') rest h (hends _ rfl)
    have hlength := D.strtod_numeral _ h
    have hdrop : (c :: (t' ++ rest)).drop (c :: t').length = rest :=
      @List.drop_left _ (c :: t') rest
    have htake : (c :: (t' ++ rest)).take (c :: t').length = c :: t' :=
      @List.take_left _ (c :: t') rest
    rw [List.cons_append, parseValue_cons hw hspace, if_neg hother.1, if_neg hother.2.1,
      if_neg hother.2.2.1, if_neg hother.2.2.2, if_pos hc, supported_number]
    simp only [parseNumberValue, hstrtod, hlength, hdrop, htake, Value.convert, Doubles.read]
    cases hdecimal : isDecimal (c :: t') with
    | false => simp
    | true =>
      cases herrno : (D.strtod (c :: t')).errno with
      | true => simp
      | false =>
        cases (D.strtod (c :: t')).number with
        | none => simp
        | some x => simp [eq_comm, and_comm]

/-! ## Items -/

theorem skipWhitespaces_ne_nil {s : Str} {c : Byte} (hc : c ∈ s) (h : isSpace c = false) :
    skipWhitespaces s ≠ [] := by
  intro hnil
  rw [skipWhitespaces, List.dropWhile_eq_nil_iff] at hnil
  rw [hnil c hc] at h
  cases h

theorem endsNumeral_append {w s : Str} {c : Byte} (hw : ∀ b ∈ w, isSpace b = true)
    (hc : c = 44 ∨ c = 93 ∨ c = 125) : EndsNumeral (w ++ c :: s) := by
  have hspace {b : Byte} (h : isSpace b = true) :
      Lib.isDecimal b = false ∧ b ∉ [46, 69, 88, 101, 120] := by
    revert b
    set_option maxRecDepth 10000 in
    decide
  intro b hb
  cases w with
  | nil =>
    cases hb
    rcases hc with rfl | rfl | rfl <;> decide
  | cons b' w =>
    cases hb
    exact hspace (hw _ List.mem_cons_self)

theorem skip_after {w s : Str} {c : Byte} (hw : ∀ b ∈ w, isSpace b = true)
    (hc : isSpace c = false) : skipWhitespaces (w ++ c :: s) = c :: s := by
  rw [skipWhitespaces_append hw, skipWhitespaces_cons hc]

theorem Entry.Spaced.reads {room : Nat} {e : Entry} (hspaced : e.Spaced isSpace)
    (hreads : Reads D room e.text e.value) {c : Byte} (hc : c = 44 ∨ c = 93 ∨ c = 125) {s : Str}
    {u : Value ν} {r : Str} :
    parseValue D room (e.padded ++ c :: s) = some (u, r) ↔
      r = e.after ++ c :: s ∧ Supported room e.value ∧ e.value.convert D.read = some u := by
  have hshape : e.padded ++ c :: s = e.before ++ (e.text ++ (e.after ++ c :: s)) := by
    simp [Entry.padded]
  rw [hshape]
  exact hreads _ _ _ _ hspaced.before fun _ _ => endsNumeral_append hspaced.after hc

theorem parseItems_step {room : Nat} {e : Entry} (hspaced : e.Spaced isSpace)
    (hreads : Reads D room e.text e.value) {c : Byte} (hc : c = 44 ∨ c = 93) {passes : Nat}
    {acc : List (Value ν)} {s : Str} {res : List (Value ν) × Str} :
    parseItems (parseValue D room) (passes + 1) acc (skipWhitespaces (e.padded ++ c :: s)) = some res ↔
      Supported room e.value ∧ ∃ u, e.value.convert D.read = some u ∧
        if c = 44 then parseItems (parseValue D room) passes (acc ++ [u]) (skipWhitespaces s) = some res
        else res = (acc ++ [u], c :: s) := by
  have hspace : isSpace c = false := by rcases hc with rfl | rfl <;> decide
  have hends : c = 44 ∨ c = 93 ∨ c = 125 := hc.imp_right .inl
  rw [parseItems, if_neg (skipWhitespaces_ne_nil (List.mem_append_right _ List.mem_cons_self) hspace),
    parseValue_skipWhitespaces]
  cases hparse : parseValue D room (e.padded ++ c :: s) with
  | none =>
    refine iff_of_false nofun ?_
    rintro ⟨hsupported, u, hu, -⟩
    have hsome := (hspaced.reads (s := s) hreads hends).mpr ⟨rfl, hsupported, hu⟩
    rw [hparse] at hsome
    cases hsome
  | some r =>
    obtain ⟨u, r⟩ := r
    obtain ⟨rfl, hsupported, hu⟩ := (hspaced.reads hreads hends).mp hparse
    simp only [skip_after hspaced.after hspace, List.head?_cons, Option.some.injEq, List.tail_cons, hu,
      exists_eq_left', hsupported, true_and]
    split
    next => exact Iff.rfl
    next => rw [Option.some.injEq, eq_comm]

theorem parseItems_iff {room : Nat} {entries : List Entry} (hne : entries ≠ [])
    (hspaced : ∀ e ∈ entries, e.Spaced isSpace) (hreads : ∀ e ∈ entries, Reads D room e.text e.value)
    {passes : Nat} (hpasses : entries.length ≤ passes) {acc items : List (Value ν)} {rest r : Str} :
    parseItems (parseValue D room) passes acc
        (skipWhitespaces (commas (entries.map Entry.padded) ++ 93 :: rest)) = some (items, r) ↔
      r = 93 :: rest ∧ (∀ e ∈ entries, Supported room e.value) ∧
        ∃ us, Value.convertItems D.read (entries.map Entry.value) = some us ∧ items = acc ++ us := by
  induction entries generalizing passes acc with
  | nil => exact absurd rfl hne
  | cons e entries ih =>
    obtain ⟨hspaced₁, hspaced⟩ := List.forall_mem_cons.mp hspaced
    obtain ⟨hreads₁, hreads⟩ := List.forall_mem_cons.mp hreads
    cases passes with
    | zero => cases hpasses
    | succ passes =>
      rw [List.map_cons, List.map_cons, List.forall_mem_cons]
      simp only [Value.convertItems_cons]
      cases entries with
      | nil =>
        rw [List.map_nil, commas, parseItems_step hspaced₁ hreads₁ (.inr rfl)]
        rw [List.map_nil]
        simp only [Value.convertItems, Option.some.injEq, Prod.mk.injEq]
        constructor
        · rintro ⟨hsupported, u, hu, rfl, rfl⟩
          exact ⟨rfl, ⟨hsupported, List.forall_mem_nil _⟩, [u], ⟨u, [], hu, rfl, rfl⟩, rfl⟩
        · rintro ⟨rfl, ⟨hsupported, -⟩, us, ⟨u, us', hu, rfl, rfl⟩, rfl⟩
          exact ⟨hsupported, u, hu, rfl, rfl⟩
      | cons e' entries =>
        have hshape : commas (e.padded :: (e' :: entries).map Entry.padded) ++ 93 :: rest =
            e.padded ++ 44 :: (commas ((e' :: entries).map Entry.padded) ++ 93 :: rest) := by
          simp [commas]
        rw [hshape, parseItems_step hspaced₁ hreads₁ (.inl rfl)]
        simp only [if_true, ih (List.cons_ne_nil _ _) hspaced hreads (Nat.le_of_succ_le_succ hpasses)]
        constructor
        · rintro ⟨hsupported, u, hu, rfl, hall, us, hus, rfl⟩
          exact ⟨rfl, ⟨hsupported, hall⟩, u :: us, ⟨u, us, hu, hus, rfl⟩, by simp⟩
        · rintro ⟨rfl, ⟨hsupported, hall⟩, us, ⟨u, us', hu, hus, rfl⟩, rfl⟩
          exact ⟨hsupported, u, hu, rfl, hall, us', hus, by simp⟩

/-! ## Members -/

theorem getnValue_eq_none_iff {members : List (Str × Value ν)} {name : Str} :
    getnValue members name = none ↔ name ∉ members.map Prod.fst := by
  rw [getnValue, Option.map_eq_none_iff, List.find?_eq_none, List.mem_map]
  simp only [decide_eq_true_eq]
  constructor
  · rintro h ⟨m, hm, hname⟩
    exact h m hm hname
  · exact fun h m hm hname => h ⟨m, hm, hname⟩

theorem objectAdd_eq_some_iff {members members' : List (Str × Value ν)} {name : Str} {v : Value ν} :
    objectAdd members name v = some members' ↔
      name ∉ members.map Prod.fst ∧ members' = members ++ [(name, v)] := by
  rw [objectAdd, ← getnValue_eq_none_iff]
  cases getnValue members name with
  | none => simp [eq_comm]
  | some v => simp

theorem parseMembers_step {room : Nat} {e : NamedEntry} (hspaced : e.Spaced isSpace)
    (hkey : StringText e.key e.name) (hreads : Reads D room e.entry.text e.entry.value) {c : Byte}
    (hc : c = 44 ∨ c = 125) {passes : Nat} {acc : List (Str × Value ν)} {s : Str}
    {res : List (Str × Value ν) × Str} :
    parseMembers (parseValue D room) (passes + 1) acc (skipWhitespaces (e.padded ++ c :: s))
        = some res ↔
      0#8 ∉ e.name ∧ e.name ∉ acc.map Prod.fst ∧ Supported room e.entry.value ∧
        ∃ u, e.entry.value.convert D.read = some u ∧
          if c = 44 then
            parseMembers (parseValue D room) passes (acc ++ [(e.name, u)]) (skipWhitespaces s)
              = some res
          else res = (acc ++ [(e.name, u)], c :: s) := by
  have hspace : isSpace c = false := by rcases hc with rfl | rfl <;> decide
  have hends : c = 44 ∨ c = 93 ∨ c = 125 := hc.imp_right .inr
  have hshape : e.padded ++ c :: s = e.before ++ 34 ::
      (e.key ++ 34 :: (e.between ++ 58 :: (e.entry.padded ++ c :: s))) := by
    simp [NamedEntry.padded]
  have hquoted : getQuotedString (34 ::
      (e.key ++ 34 :: (e.between ++ 58 :: (e.entry.padded ++ c :: s)))) =
        some (e.name, e.between ++ 58 :: (e.entry.padded ++ c :: s)) :=
    getQuotedString_eq_some_iff.mpr ⟨e.key, hkey, rfl⟩
  rw [hshape, skip_after hspaced.before (by decide), parseMembers, if_neg (List.cons_ne_nil _ _),
    hquoted]
  simp only [skip_after hspaced.between (show isSpace 58 = false by decide), List.head?_cons,
    ne_eq, not_true_eq_false, or_false, List.tail_cons]
  by_cases hzero : 0#8 ∈ e.name
  · rw [if_pos hzero]
    exact iff_of_false nofun fun h => h.1 hzero
  rw [if_neg hzero]
  cases hparse : parseValue D room (e.entry.padded ++ c :: s) with
  | none =>
    refine iff_of_false nofun ?_
    rintro ⟨-, -, hsupported, u, hu, -⟩
    have hsome := (hspaced.entry.reads (s := s) hreads hends).mpr ⟨rfl, hsupported, hu⟩
    rw [hparse] at hsome
    cases hsome
  | some r =>
    obtain ⟨u, r⟩ := r
    obtain ⟨rfl, hsupported, hu⟩ := (hspaced.entry.reads hreads hends).mp hparse
    dsimp only
    cases hadd : objectAdd acc e.name u with
    | none =>
      refine iff_of_false nofun ?_
      rintro ⟨-, hfresh, -⟩
      rw [objectAdd_eq_some_iff.mpr ⟨hfresh, rfl⟩] at hadd
      cases hadd
    | some members =>
      obtain ⟨hfresh, rfl⟩ := objectAdd_eq_some_iff.mp hadd
      simp only [skip_after hspaced.entry.after hspace, List.head?_cons, Option.some.injEq,
        List.tail_cons, hu, exists_eq_left', hsupported, hzero, hfresh, not_false_eq_true, true_and]
      split
      next => exact Iff.rfl
      next => rw [Option.some.injEq, eq_comm]

structure MembersSupported (room : Nat) (names : List Str) (entries : List NamedEntry) : Prop where
  zero : ∀ e ∈ entries, 0#8 ∉ e.name
  fresh : ∀ e ∈ entries, e.name ∉ names
  nodup : (entries.map NamedEntry.name).Nodup
  values : ∀ e ∈ entries, Supported room e.entry.value

theorem membersSupported_cons {room : Nat} {names : List Str} {e : NamedEntry}
    {entries : List NamedEntry} : MembersSupported room names (e :: entries) ↔
      0#8 ∉ e.name ∧ e.name ∉ names ∧ Supported room e.entry.value ∧
        MembersSupported room (names ++ [e.name]) entries := by
  constructor
  · rintro ⟨hzero, hfresh, hnodup, hvalues⟩
    rw [List.forall_mem_cons] at hzero hfresh hvalues
    obtain ⟨hnot, hnodup⟩ := List.nodup_cons.mp hnodup
    refine ⟨hzero.1, hfresh.1, hvalues.1, hzero.2, fun e' he' hmem => ?_, hnodup, hvalues.2⟩
    rcases List.mem_append.mp hmem with hmem | hmem
    · exact hfresh.2 e' he' hmem
    · exact hnot (List.mem_singleton.mp hmem ▸ List.mem_map_of_mem he')
  · rintro ⟨hzero₁, hfresh₁, hvalue, hzero, hfresh, hnodup, hvalues⟩
    refine ⟨List.forall_mem_cons.mpr ⟨hzero₁, hzero⟩, List.forall_mem_cons.mpr ⟨hfresh₁, ?_⟩,
      List.nodup_cons.mpr ⟨?_, hnodup⟩, List.forall_mem_cons.mpr ⟨hvalue, hvalues⟩⟩
    · exact fun e' he' hmem => hfresh e' he' (List.mem_append_left _ hmem)
    · intro hmem
      obtain ⟨e', he', hname⟩ := List.mem_map.mp hmem
      exact hfresh e' he' (List.mem_append_right _ (List.mem_singleton.mpr hname))

theorem membersSupported_nil {room : Nat} {names : List Str} : MembersSupported room names [] :=
  ⟨List.forall_mem_nil _, List.forall_mem_nil _, List.nodup_nil, List.forall_mem_nil _⟩

theorem parseMembers_iff {room : Nat} {entries : List NamedEntry} (hne : entries ≠ [])
    (hspaced : ∀ e ∈ entries, e.Spaced isSpace) (hkeys : ∀ e ∈ entries, StringText e.key e.name)
    (hreads : ∀ e ∈ entries, Reads D room e.entry.text e.entry.value) {passes : Nat}
    (hpasses : entries.length ≤ passes) {acc members : List (Str × Value ν)} {rest r : Str} :
    parseMembers (parseValue D room) passes acc
        (skipWhitespaces (commas (entries.map NamedEntry.padded) ++ 125 :: rest)) = some (members, r) ↔
      r = 125 :: rest ∧ MembersSupported room (acc.map Prod.fst) entries ∧
        ∃ us, Value.convertMembers D.read (entries.map NamedEntry.member) = some us ∧
          members = acc ++ us := by
  induction entries generalizing passes acc with
  | nil => exact absurd rfl hne
  | cons e entries ih =>
    obtain ⟨hspaced₁, hspaced⟩ := List.forall_mem_cons.mp hspaced
    obtain ⟨hkey, hkeys⟩ := List.forall_mem_cons.mp hkeys
    obtain ⟨hreads₁, hreads⟩ := List.forall_mem_cons.mp hreads
    cases passes with
    | zero => cases hpasses
    | succ passes =>
      rw [List.map_cons, List.map_cons, membersSupported_cons]
      simp only [Value.convertMembers_cons]
      cases entries with
      | nil =>
        rw [List.map_nil, commas, parseMembers_step hspaced₁ hkey hreads₁ (.inr rfl)]
        rw [List.map_nil]
        simp only [Value.convertMembers, Option.some.injEq, Prod.mk.injEq]
        constructor
        · rintro ⟨hzero, hfresh, hsupported, u, hu, rfl, rfl⟩
          exact ⟨rfl, ⟨hzero, hfresh, hsupported, membersSupported_nil⟩, [(e.name, u)],
            ⟨u, [], hu, rfl, rfl⟩, rfl⟩
        · rintro ⟨rfl, ⟨hzero, hfresh, hsupported, -⟩, us, ⟨u, us', hu, rfl, rfl⟩, rfl⟩
          exact ⟨hzero, hfresh, hsupported, u, hu, rfl, rfl⟩
      | cons e' entries =>
        have hshape : commas (e.padded :: (e' :: entries).map NamedEntry.padded) ++ 125 :: rest =
            e.padded ++ 44 :: (commas ((e' :: entries).map NamedEntry.padded) ++ 125 :: rest) := by
          simp [commas]
        rw [hshape, parseMembers_step hspaced₁ hkey hreads₁ (.inl rfl)]
        have hnames (u : Value ν) :
            (acc ++ [(e.name, u)]).map Prod.fst = acc.map Prod.fst ++ [e.name] := List.map_append
        simp only [if_true, hnames,
          ih (List.cons_ne_nil _ _) hspaced hkeys hreads (Nat.le_of_succ_le_succ hpasses)]
        constructor
        · rintro ⟨hzero, hfresh, hsupported, u, hu, rfl, hall, us, hus, rfl⟩
          exact ⟨rfl, ⟨hzero, hfresh, hsupported, hall⟩, (e.name, u) :: us, ⟨u, us, hu, hus, rfl⟩,
            by simp⟩
        · rintro ⟨rfl, ⟨hzero, hfresh, hsupported, hall⟩, us, ⟨u, us', hu, hus, rfl⟩, rfl⟩
          exact ⟨hzero, hfresh, hsupported, u, hu, rfl, hall, us', hus, List.append_cons _ _ _⟩

/-! ## Arrays and objects -/

theorem length_le_commas (ts : List Str) (h : ∀ t ∈ ts, t ≠ []) : ts.length ≤ (commas ts).length := by
  induction ts with
  | nil => exact Nat.zero_le _
  | cons t ts ih =>
    obtain ⟨ht, hts⟩ := List.forall_mem_cons.mp h
    have hpos := List.length_pos_iff.mpr ht
    have hle := ih hts
    cases ts with
    | nil => exact hpos
    | cons t' ts =>
      rw [commas, List.length_append, List.length_cons, @List.length_cons _ 44 (commas (t' :: ts))]
      · omega
      · exact List.cons_ne_nil _ _

theorem supported_array {room : Nat} {items : List (Value Str)} :
    Supported (room + 1) (.array items) ↔ ∀ v ∈ items, Supported room v := by
  constructor
  · rintro ⟨hdepth, hwell, hnumbers⟩ v hv
    exact ⟨Value.depthItems_le_iff.mp (Nat.le_of_lt_succ hdepth) v hv,
      Value.wellFormed_array.mp hwell v hv, Value.allNumbers_array.mp hnumbers v hv⟩
  · exact fun h => ⟨Nat.lt_succ_of_le (Value.depthItems_le_iff.mpr fun v hv => (h v hv).depth),
      Value.wellFormed_array.mpr fun v hv => (h v hv).wellFormed,
      Value.allNumbers_array.mpr fun v hv => (h v hv).numbers⟩

theorem supported_object {room : Nat} {members : List (Str × Value Str)} :
    Supported (room + 1) (.object members) ↔ (members.map Prod.fst).Nodup ∧
      (∀ m ∈ members, 0#8 ∉ m.1) ∧ ∀ m ∈ members, Supported room m.2 := by
  constructor
  · rintro ⟨hdepth, hwell, hnumbers⟩
    obtain ⟨hnames, hzero, hwell⟩ := Value.wellFormed_object.mp hwell
    exact ⟨hnames, hzero, fun m hm =>
      ⟨Value.depthMembers_le_iff.mp (Nat.le_of_lt_succ hdepth) m hm, hwell m hm,
        Value.allNumbers_object.mp hnumbers m hm⟩⟩
  · rintro ⟨hnames, hzero, h⟩
    exact ⟨Nat.lt_succ_of_le (Value.depthMembers_le_iff.mpr fun m hm => (h m hm).depth),
      Value.wellFormed_object.mpr ⟨hnames, hzero, fun m hm => (h m hm).wellFormed⟩,
      Value.allNumbers_object.mpr fun m hm => (h m hm).numbers⟩

/-- A text of a value does not begin with white space, with a byte order mark or with what closes an
array or an object. -/
def Opens (t : Str) : Prop := ∃ c t', t = c :: t' ∧ isSpace c = false ∧ c ∉ [93, 125, 0xEF]

theorem opens_of_denotes {space : Byte → Bool} {numeral : Str → Prop}
    (hnumeral : ∀ t, numeral t → Numeral t) {t : Str} {v : Value Str}
    (h : Denotes space numeral t v) : Opens t := by
  have hfirst {c : Byte} (hc : c = 45 ∨ Lib.isDecimal c = true) :
      isSpace c = false ∧ c ∉ [93, 125, 0xEF] := by
    revert c
    set_option maxRecDepth 10000 in
    decide
  cases h with
  | null => exact ⟨110, ascii "ull", rfl, by decide⟩
  | true => exact ⟨116, ascii "rue", rfl, by decide⟩
  | false => exact ⟨102, ascii "alse", rfl, by decide⟩
  | number ht =>
    obtain ⟨c, t', rfl, hc⟩ := numeral_cons (hnumeral _ ht)
    exact ⟨c, t', rfl, hfirst hc⟩
  | string => exact ⟨34, _, rfl, by decide⟩
  | emptyArray | array => exact ⟨91, _, rfl, by decide⟩
  | emptyObject | object => exact ⟨123, _, rfl, by decide⟩

theorem parseArrayValue_iff {f : Str → Option (Value ν × Str)} {s r : Str} {u : Value ν}
    (hhead : (skipWhitespaces s).head? ≠ some 93) :
    parseArrayValue f (91 :: s) = some (u, r) ↔
      ∃ items r', parseItems f (s.length + 1) [] (skipWhitespaces s) = some (items, r') ∧
        (skipWhitespaces r').head? = some 93 ∧ items ≠ [] ∧ u = .array items ∧
          r = (skipWhitespaces r').tail := by
  simp only [parseArrayValue, List.head?_cons, ne_eq, not_true_eq_false, if_false, List.tail_cons,
    hhead, List.length_cons]
  cases parseItems f (s.length + 1) [] (skipWhitespaces s) with
  | none => simp
  | some res =>
    obtain ⟨found, r'⟩ := res
    simp [eq_comm, and_assoc]

theorem parseObjectValue_iff {f : Str → Option (Value ν × Str)} {s r : Str} {u : Value ν}
    (hhead : (skipWhitespaces s).head? ≠ some 125) :
    parseObjectValue f (123 :: s) = some (u, r) ↔
      ∃ members r', parseMembers f (s.length + 1) [] (skipWhitespaces s) = some (members, r') ∧
        (skipWhitespaces r').head? = some 125 ∧ members ≠ [] ∧ u = .object members ∧
          r = (skipWhitespaces r').tail := by
  simp only [parseObjectValue, List.head?_cons, ne_eq, not_true_eq_false, if_false, List.tail_cons,
    hhead, List.length_cons]
  cases parseMembers f (s.length + 1) [] (skipWhitespaces s) with
  | none => simp
  | some res =>
    obtain ⟨found, r'⟩ := res
    simp [eq_comm, and_assoc]

theorem convertItems_ne_nil {f : Str → Option ν} {items : List (Value Str)} {us : List (Value ν)}
    (hne : items ≠ []) (h : Value.convertItems f items = some us) : us ≠ [] := by
  obtain ⟨v, items, rfl⟩ := List.exists_cons_of_ne_nil hne
  obtain ⟨u, us, -, -, rfl⟩ := Value.convertItems_cons.mp h
  exact List.cons_ne_nil _ _

theorem convertMembers_ne_nil {f : Str → Option ν} {members : List (Str × Value Str)}
    {us : List (Str × Value ν)} (hne : members ≠ []) (h : Value.convertMembers f members = some us) :
    us ≠ [] := by
  obtain ⟨m, members, rfl⟩ := List.exists_cons_of_ne_nil hne
  obtain ⟨u, us, -, -, rfl⟩ := Value.convertMembers_cons.mp h
  exact List.cons_ne_nil _ _

theorem reads_emptyArray (room : Nat) {b : Str} (hb : ∀ c ∈ b, isSpace c = true) :
    Reads D room (91 :: (b ++ [93])) (.array []) := by
  cases room with
  | zero => exact reads_zero _ _
  | succ room =>
    intro w rest u r hw _
    have hshape : 91 :: (b ++ [93]) ++ rest = 91 :: (b ++ 93 :: rest) := by simp
    have hparse : parseValue D (room + 1) (w ++ (91 :: (b ++ [93]) ++ rest))
        = some (.array [], rest) := by
      rw [hshape, parseValue_cons hw (by decide)]
      simp only [parseArrayValue, List.tail_cons, skip_after hb (show isSpace 93 = false by decide)]
      rfl
    have hsupported : Supported (room + 1) (Value.array []) :=
      supported_array.mpr (List.forall_mem_nil _)
    rw [hparse]
    simp only [Value.convert, Value.convertItems, Option.map_some, hsupported, true_and,
      Option.some.injEq, Prod.mk.injEq, eq_comm, and_comm]

theorem reads_emptyObject (room : Nat) {b : Str} (hb : ∀ c ∈ b, isSpace c = true) :
    Reads D room (123 :: (b ++ [125])) (.object []) := by
  cases room with
  | zero => exact reads_zero _ _
  | succ room =>
    intro w rest u r hw _
    have hshape : 123 :: (b ++ [125]) ++ rest = 123 :: (b ++ 125 :: rest) := by simp
    have hparse : parseValue D (room + 1) (w ++ (123 :: (b ++ [125]) ++ rest))
        = some (.object [], rest) := by
      rw [hshape, parseValue_cons hw (by decide)]
      simp only [parseObjectValue, List.tail_cons,
        skip_after hb (show isSpace 125 = false by decide)]
      rfl
    have hsupported : Supported (room + 1) (Value.object []) :=
      supported_object.mpr ⟨List.nodup_nil, List.forall_mem_nil _, List.forall_mem_nil _⟩
    rw [hparse]
    simp only [Value.convert, Value.convertMembers, Option.map_some, hsupported, true_and,
      Option.some.injEq, Prod.mk.injEq, eq_comm, and_comm]

theorem head_skip_commas {e : Entry} (hspaced : e.Spaced isSpace) (hopens : Opens e.text)
    (s : Str) : (skipWhitespaces (e.padded ++ s)).head? ≠ some 93 := by
  obtain ⟨c, t', ht, hspace, hne⟩ := hopens
  have hshape : e.padded ++ s = e.before ++ c :: (t' ++ e.after ++ s) := by
    simp [Entry.padded, ht]
  rw [hshape, skip_after hspaced.before hspace, List.head?_cons]
  intro h
  cases h
  exact hne List.mem_cons_self

theorem commas_cons (t : Str) (ts : List Str) : ∃ s, commas (t :: ts) = t ++ s := by
  cases ts with
  | nil => exact ⟨[], (List.append_nil t).symm⟩
  | cons t' ts => exact ⟨44 :: commas (t' :: ts), rfl⟩

theorem reads_array (room : Nat) {entries : List Entry} (hne : entries ≠ [])
    (hspaced : ∀ e ∈ entries, e.Spaced isSpace) (hopens : ∀ e ∈ entries, Opens e.text)
    (hreads : ∀ room, ∀ e ∈ entries, Reads D room e.text e.value) :
    Reads D room (91 :: (commas (entries.map Entry.padded) ++ [93]))
      (.array (entries.map Entry.value)) := by
  cases room with
  | zero => exact reads_zero _ _
  | succ room =>
    intro w rest u r hw _
    have hshape : 91 :: (commas (entries.map Entry.padded) ++ [93]) ++ rest =
        91 :: (commas (entries.map Entry.padded) ++ 93 :: rest) := by simp
    have hhead : (skipWhitespaces (commas (entries.map Entry.padded) ++ 93 :: rest)).head?
        ≠ some 93 := by
      obtain ⟨e, es, rfl⟩ := List.exists_cons_of_ne_nil hne
      obtain ⟨s, hs⟩ := commas_cons e.padded (es.map Entry.padded)
      rw [List.map_cons, hs, List.append_assoc]
      exact head_skip_commas (hspaced e List.mem_cons_self) (hopens e List.mem_cons_self) _
    have hpasses : entries.length ≤
        (commas (entries.map Entry.padded) ++ 93 :: rest).length + 1 := by
      have hle := length_le_commas (entries.map Entry.padded) fun t ht => by
        obtain ⟨e, he, rfl⟩ := List.mem_map.mp ht
        obtain ⟨c, t', ht, -⟩ := hopens e he
        simp [Entry.padded, ht]
      rw [List.length_map] at hle
      simp only [List.length_cons, List.length_append]
      omega
    rw [hshape, parseValue_cons hw (by decide), if_neg (by decide), if_pos rfl, supported_array,
      List.forall_mem_map, parseArrayValue_iff hhead, Value.convert]
    simp only [parseItems_iff hne hspaced (hreads room) hpasses, Option.map_eq_some_iff,
      List.nil_append]
    constructor
    · rintro ⟨items, r', ⟨rfl, hsupported, us, hus, rfl⟩, -, -, rfl, hr⟩
      rw [skipWhitespaces_cons (by decide), List.tail_cons] at hr
      exact ⟨hr, hsupported, _, hus, rfl⟩
    · rintro ⟨rfl, hsupported, us, hus, rfl⟩
      have hus_ne := convertItems_ne_nil (by simpa using hne) hus
      have hskip : skipWhitespaces (93 :: r) = 93 :: r := skipWhitespaces_cons (by decide)
      exact ⟨us, 93 :: r, ⟨rfl, hsupported, us, hus, rfl⟩, by rw [hskip]; rfl, hus_ne, rfl,
        by rw [hskip]; rfl⟩

theorem head_skip_named {e : NamedEntry} (hspaced : e.Spaced isSpace) (s : Str) :
    (skipWhitespaces (e.padded ++ s)).head? ≠ some 125 := by
  have hshape : e.padded ++ s =
      e.before ++ 34 :: (e.key ++ 34 :: (e.between ++ 58 :: e.entry.padded) ++ s) := by
    simp [NamedEntry.padded]
  rw [hshape, skip_after hspaced.before (by decide), List.head?_cons]
  decide

theorem reads_object (room : Nat) {entries : List NamedEntry} (hne : entries ≠ [])
    (hspaced : ∀ e ∈ entries, e.Spaced isSpace) (hkeys : ∀ e ∈ entries, StringText e.key e.name)
    (hreads : ∀ room, ∀ e ∈ entries, Reads D room e.entry.text e.entry.value) :
    Reads D room (123 :: (commas (entries.map NamedEntry.padded) ++ [125]))
      (.object (entries.map NamedEntry.member)) := by
  cases room with
  | zero => exact reads_zero _ _
  | succ room =>
    intro w rest u r hw _
    have hshape : 123 :: (commas (entries.map NamedEntry.padded) ++ [125]) ++ rest =
        123 :: (commas (entries.map NamedEntry.padded) ++ 125 :: rest) := by simp
    have hhead : (skipWhitespaces (commas (entries.map NamedEntry.padded) ++ 125 :: rest)).head?
        ≠ some 125 := by
      obtain ⟨e, es, rfl⟩ := List.exists_cons_of_ne_nil hne
      obtain ⟨s, hs⟩ := commas_cons e.padded (es.map NamedEntry.padded)
      rw [List.map_cons, hs, List.append_assoc]
      exact head_skip_named (hspaced e List.mem_cons_self) _
    have hpasses : entries.length ≤
        (commas (entries.map NamedEntry.padded) ++ 125 :: rest).length + 1 := by
      have hle := length_le_commas (entries.map NamedEntry.padded) fun t ht => by
        obtain ⟨e, he, rfl⟩ := List.mem_map.mp ht
        simp [NamedEntry.padded]
      rw [List.length_map] at hle
      simp only [List.length_cons, List.length_append]
      omega
    have hmembers : Supported (room + 1) (.object (entries.map NamedEntry.member)) ↔
        MembersSupported room [] entries := by
      rw [supported_object, List.map_map, List.forall_mem_map, List.forall_mem_map]
      constructor
      · rintro ⟨hnodup, hzero, hvalues⟩
        exact ⟨hzero, fun _ _ => List.not_mem_nil, hnodup, hvalues⟩
      · rintro ⟨hzero, -, hnodup, hvalues⟩
        exact ⟨hnodup, hzero, hvalues⟩
    rw [hshape, parseValue_cons hw (by decide), if_pos rfl, hmembers, parseObjectValue_iff hhead,
      Value.convert]
    simp only [parseMembers_iff hne hspaced hkeys (hreads room) hpasses, Option.map_eq_some_iff,
      List.nil_append, List.map_nil]
    constructor
    · rintro ⟨members, r', ⟨rfl, hsupported, us, hus, rfl⟩, -, -, rfl, hr⟩
      rw [skipWhitespaces_cons (by decide), List.tail_cons] at hr
      exact ⟨hr, hsupported, _, hus, rfl⟩
    · rintro ⟨rfl, hsupported, us, hus, rfl⟩
      have hus_ne := convertMembers_ne_nil (by simpa using hne) hus
      have hskip : skipWhitespaces (125 :: r) = 125 :: r := skipWhitespaces_cons (by decide)
      exact ⟨us, 125 :: r, ⟨rfl, hsupported, us, hus, rfl⟩, by rw [hskip]; rfl, hus_ne, rfl,
        by rw [hskip]; rfl⟩

/-- A JSON text is taken, up to its end and as the tree it denotes, exactly if the tree is supported
and its numbers are in range. -/
theorem reads_of_denotes {space : Byte → Bool} {numeral : Str → Prop}
    (hspace : ∀ c, space c = true → isSpace c = true) (hnumeral : ∀ t, numeral t → Numeral t)
    {t : Str} {v : Value Str} (h : Denotes space numeral t v) (room : Nat) : Reads D room t v := by
  have hspaced {e : Entry} (he : e.Spaced space) : e.Spaced isSpace :=
    ⟨fun c hc => hspace c (he.before c hc), fun c hc => hspace c (he.after c hc)⟩
  induction h generalizing room with
  | null => exact reads_null room
  | true => exact reads_boolean room true
  | false => exact reads_boolean room false
  | number ht => exact reads_number room (hnumeral _ ht)
  | string ht => exact reads_string room ht
  | emptyArray hw => exact reads_emptyArray room fun c hc => hspace c (hw c hc)
  | emptyObject hw => exact reads_emptyObject room fun c hc => hspace c (hw c hc)
  | array hne hs hitems ih =>
    apply reads_array room hne
    · exact fun e he => hspaced (hs e he)
    · exact fun e he => opens_of_denotes hnumeral (hitems e he)
    · exact fun room e he => ih e he room
  | object hne hs hkeys _ ih =>
    apply reads_object room hne _ hkeys
    · exact fun room e he => ih e he room
    · exact fun e he => ⟨fun c hc => hspace c ((hs e he).before c hc),
        fun c hc => hspace c ((hs e he).between c hc), hspaced (hs e he).entry⟩

theorem jsonParseString_eq {s : Str} (h : s.head? ≠ some 0xEF) :
    jsonParseString D s = (parseValue D (maxNesting + 1) s).map Prod.fst := by
  have hbom : ¬ [0xEF, 0xBB, 0xBF].isPrefixOf s = true := by
    intro hbom
    obtain ⟨t, rfl⟩ := List.isPrefixOf_iff_prefix.mp hbom
    exact h rfl
  rw [jsonParseString, if_neg hbom]

theorem head_text {w t rest : Str} (hw : ∀ c ∈ w, isSpace c = true) (ht : Opens t) :
    (w ++ (t ++ rest)).head? ≠ some 0xEF := by
  intro h
  cases w with
  | nil =>
    obtain ⟨c, t', rfl, -, hne⟩ := ht
    cases h
    exact absurd hne (by decide)
  | cons c w =>
    cases h
    exact absurd (hw 0xEF List.mem_cons_self) (by decide)

theorem jsonParseString_bom (s : Str) :
    jsonParseString D ([0xEF, 0xBB, 0xBF] ++ s) = (parseValue D (maxNesting + 1) s).map Prod.fst := by
  rw [jsonParseString, if_pos]
  · rfl
  · exact List.isPrefixOf_iff_prefix.mpr (List.prefix_append _ _)

theorem jsonParseString_padded {bom w t rest : Str} {v : Value Str} {u : Value ν}
    (hbom : bom = [] ∨ bom = [0xEF, 0xBB, 0xBF]) (hw : ∀ c ∈ w, isSpace c = true) (hopens : Opens t)
    (hreads : Reads D (maxNesting + 1) t v) (hrest : Ends v rest) :
    jsonParseString D (bom ++ (w ++ (t ++ rest))) = some u ↔
      Supported (maxNesting + 1) v ∧ v.convert D.read = some u := by
  have hparse : jsonParseString D (bom ++ (w ++ (t ++ rest))) =
      (parseValue D (maxNesting + 1) (w ++ (t ++ rest))).map Prod.fst := by
    rcases hbom with rfl | rfl
    · rw [List.nil_append, jsonParseString_eq (head_text hw hopens)]
    · exact jsonParseString_bom _
  rw [hparse, Option.map_eq_some_iff]
  constructor
  · rintro ⟨⟨u', r⟩, hparse, rfl⟩
    exact ((hreads _ _ _ _ hw hrest).mp hparse).2
  · intro hu
    exact ⟨(u, rest), (hreads _ _ _ _ hw hrest).mpr ⟨rfl, hu⟩, rfl⟩

def arrayObject {ν : Type} (x : ν) : Value ν := .object [(ascii "a", .array [.boolean true, .number x])]

theorem denotes_arrayObject :
    Denotes jsonSpace Numeral (ascii "\x7b\"a\": [true, 1.5]\x7d") (arrayObject (ascii "1.5")) := by
  have harray : Denotes jsonSpace Numeral (ascii "[true, 1.5]")
      (.array [.boolean true, .number (ascii "1.5")]) := by
    refine @Denotes.array _ _ [⟨[], ascii "true", [], .boolean true⟩,
      ⟨[32], ascii "1.5", [], .number (ascii "1.5")⟩] (List.cons_ne_nil _ _) ?_ ?_
    · exact List.forall_mem_cons.mpr ⟨⟨by decide, by decide⟩,
        List.forall_mem_singleton.mpr ⟨by decide, by decide⟩⟩
    · exact List.forall_mem_cons.mpr ⟨.true,
        List.forall_mem_singleton.mpr (.number numeral_threeHalves)⟩
  have hkey : StringText (ascii "a") (ascii "a") :=
    .cons (.plain (by decide) (by decide) (by decide)) .nil
  refine @Denotes.object _ _ [⟨[], ascii "a", ascii "a", [],
    ⟨[32], ascii "[true, 1.5]", [], .array [.boolean true, .number (ascii "1.5")]⟩⟩]
    (List.cons_ne_nil _ _) ?_ ?_ ?_
  · exact List.forall_mem_singleton.mpr ⟨by decide, by decide, by decide, by decide⟩
  · exact List.forall_mem_singleton.mpr hkey
  · exact List.forall_mem_singleton.mpr harray

theorem supported_arrayObject : Supported (maxNesting + 1) (arrayObject (ascii "1.5")) := by
  refine supported_object.mpr ⟨by decide, by decide, List.forall_mem_singleton.mpr ?_⟩
  refine supported_array.mpr (List.forall_mem_cons.mpr ⟨?_, List.forall_mem_singleton.mpr ?_⟩)
  · exact supported_of_leaf rfl (fun u h => by cases h; rfl) nofun nofun
  · exact supported_number.mpr (by decide)

theorem convert_arrayObject : (arrayObject (ascii "1.5")).convert binary64.read =
    some (arrayObject threeHalves) := by
  simp only [arrayObject, Value.convert, Value.convertItems, Value.convertMembers, read_threeHalves,
    Option.map_some, Option.bind_some]

theorem jsonParseString_arrayObject : jsonParseString binary64
    (ascii " \x7b\"a\": [true, 1.5]\x7d]") = some (arrayObject threeHalves) := by
  have hspaces : ∀ c ∈ ([32] : Str), isSpace c = true := by decide
  have hends : Ends (arrayObject (ascii "1.5")) (ascii "]") := nofun
  have hreads := reads_of_denotes (D := binary64) (fun _ => isSpace_of_jsonSpace) (fun _ ht => ht)
    denotes_arrayObject (maxNesting + 1)
  exact (jsonParseString_padded (.inl rfl) hspaces
    (opens_of_denotes (fun _ ht => ht) denotes_arrayObject) hreads hends).mpr
      ⟨supported_arrayObject, convert_arrayObject⟩

/-- `json_parse_string` on a JSON text, with a byte order mark or white space in front of it and
anything behind it that does not go on with a numeral. -/
theorem jsonParseString_iff {bom w t rest : Str} {v : Value Str} {u : Value ν}
    (hbom : bom = [] ∨ bom = [0xEF, 0xBB, 0xBF]) (hw : ∀ c ∈ w, jsonSpace c = true)
    (h : Denotes jsonSpace Numeral t v) (hrest : Ends v rest) :
    jsonParseString D (bom ++ (w ++ (t ++ rest))) = some u ↔
      Supported (maxNesting + 1) v ∧ v.convert D.read = some u :=
  jsonParseString_padded hbom (fun c hc => isSpace_of_jsonSpace (hw c hc))
    (opens_of_denotes (fun _ ht => ht) h)
    (reads_of_denotes (fun _ => isSpace_of_jsonSpace) (fun _ ht => ht) h _) hrest

theorem jsonParseString_iff_arrayObject : jsonParseString binary64 ([0xEF, 0xBB, 0xBF] ++
    ([32] ++ (ascii "\x7b\"a\": [true, 1.5]\x7d" ++ ascii "]"))) = some (arrayObject threeHalves) := by
  have hspaces : ∀ c ∈ ([32] : Str), jsonSpace c = true := by decide
  exact (jsonParseString_iff (.inr rfl) hspaces denotes_arrayObject nofun).mpr
    ⟨supported_arrayObject, convert_arrayObject⟩

end PCom.Library.Json
