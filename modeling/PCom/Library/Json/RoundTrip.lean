import PCom.Library.Json.Soundness
import PCom.Library.Json.Serialize

/-! What is written is a JSON text of the value, and is read as that value again. -/

namespace PCom.Library.Json

open Lib

theorem escape_cases (c : Byte) :
    (escape c = none ∧ 0x20 ≤ c.toNat ∧ c ≠ 34 ∧ c ≠ 92) ∨
    (∃ e, escape c = some [92, e] ∧ unescape e = some c) ∨
    (c.toNat < 0x20 ∧
      escape c = some [92, 117, 48, 48, hexDigit (c.toNat / 16), hexDigit (c.toNat % 16)]) := by
  have hcases : (escape c = none ∧ 0x20 ≤ c.toNat ∧ c ≠ 34 ∧ c ≠ 92) ∨
      (escape c = some [92, ((escape c).getD []).getD 1 0] ∧
        unescape (((escape c).getD []).getD 1 0) = some c) ∨
      (c.toNat < 0x20 ∧
        escape c = some [92, 117, 48, 48, hexDigit (c.toNat / 16), hexDigit (c.toNat % 16)]) := by
    revert c
    set_option maxRecDepth 10000 in
    decide
  exact hcases.imp_right (Or.imp_left fun h => ⟨_, h⟩)

theorem charText_escape (c : Byte) : CharText ((escape c).getD [c]) [c] := by
  rcases escape_cases c with ⟨h, hcontrol, hquote, hbackslash⟩ | ⟨e, h, he⟩ | ⟨hlt, h⟩
  · rw [h]
    exact .plain hcontrol hquote hbackslash
  · rw [h]
    exact .escaped he
  · rw [h]
    obtain ⟨char, hchar⟩ := exists_char (.inl (show c.toNat < 0xD800 by omega))
    have hutf8 : utf8 char = [c] := by
      rw [utf8_one (by omega), hchar, BitVec.ofNat_toNat, BitVec.setWidth_eq]
    rw [← hutf8]
    refine .word (show hexValue 48 = some 0 by decide) (show hexValue 48 = some 0 by decide)
      (hexValue_hexDigit (by omega)) (hexValue_hexDigit (by omega)) ?_
    rw [hchar, hex4Value]
    omega

theorem stringText_escape (string : Str) :
    StringText (string.flatMap fun c => (escape c).getD [c]) string := by
  induction string with
  | nil => exact .nil
  | cons c string ih => exact .cons (charText_escape c) ih

section Closed

variable {α ε : Type} (entry : Str → α → ε) (after : Str)

def closed : List α → List ε
  | [] => []
  | [a] => [entry after a]
  | a :: as => entry [] a :: closed as

variable {entry after}

theorem mem_closed {as : List α} {e : ε} (h : e ∈ closed entry after as) :
    ∃ a ∈ as, e = entry [] a ∨ e = entry after a := by
  induction as with
  | nil => cases h
  | cons a as ih =>
    cases as with
    | nil => exact ⟨a, List.mem_cons_self, .inr (List.mem_singleton.mp h)⟩
    | cons a' as =>
      rcases List.mem_cons.mp h with rfl | h
      · exact ⟨a, List.mem_cons_self, .inl rfl⟩
      · obtain ⟨b, hb, he⟩ := ih h
        exact ⟨b, List.mem_cons_of_mem _ hb, he⟩

theorem closed_ne_nil {as : List α} (h : as ≠ []) : closed entry after as ≠ [] := by
  cases as with
  | nil => exact absurd rfl h
  | cons a as => cases as <;> exact List.cons_ne_nil _ _

theorem map_closed {β : Type} {g : ε → β} {k : α → β} (h : ∀ after a, g (entry after a) = k a)
    (as : List α) : (closed entry after as).map g = as.map k := by
  induction as with
  | nil => rfl
  | cons a as ih =>
    cases as with
    | nil => exact congrArg (fun b => [b]) (h after a)
    | cons a' as =>
      rw [closed, List.map_cons, List.map_cons, ih, h]
      exact List.cons_ne_nil _ _

theorem commas_closed {padded : ε → Str} {t : α → Str}
    (h : ∀ after a, padded (entry after a) = t a ++ after) {as : List α} (hne : as ≠ []) :
    commas ((closed entry after as).map padded) = commas (as.map t) ++ after := by
  induction as with
  | nil => exact absurd rfl hne
  | cons a as ih =>
    cases as with
    | nil => exact h after a
    | cons a' as =>
      have hclosed : closed entry after (a :: a' :: as) =
          entry [] a :: closed entry after (a' :: as) := by
        rw [closed]
        exact List.cons_ne_nil _ _
      have hmap : (closed entry after (a' :: as)).map padded ≠ [] := by
        simpa using closed_ne_nil (List.cons_ne_nil a' as)
      have htexts : commas ((a :: a' :: as).map t) = t a ++ 44 :: commas ((a' :: as).map t) := rfl
      rw [hclosed, List.map_cons, commas, ih (List.cons_ne_nil _ _), h, List.append_nil, htexts,
        List.append_assoc, List.cons_append]
      exact hmap

end Closed

/-! ## Values -/

variable {ν : Type} {D : Doubles ν} {isPretty : Bool}

theorem jsonSpace_gap {level : Nat} {c : Byte} (h : c ∈ gap isPretty level) : jsonSpace c = true := by
  cases isPretty with
  | false => cases h
  | true =>
    rcases List.mem_cons.mp h with rfl | h
    · decide
    · obtain ⟨indent, hindent, hc⟩ := List.mem_flatten.mp h
      rw [List.eq_of_mem_replicate hindent] at hc
      have hblank : c = 32 := List.eq_of_mem_replicate (n := 4) hc
      rw [hblank]
      decide

def afterColon (isPretty : Bool) : Str := if isPretty then [32] else []

theorem colon_eq : colon isPretty = 58 :: afterColon isPretty := by
  cases isPretty <;> decide

theorem jsonSpace_afterColon {c : Byte} (h : c ∈ afterColon isPretty) : jsonSpace c = true := by
  cases isPretty with
  | false => cases h
  | true =>
    rw [List.mem_singleton.mp h]
    decide

section Brackets

variable {f : ν → Str} {t : Value ν → Str} {before after : Str}

theorem denotes_array {items : List (Value ν)} (hne : items ≠ [])
    (hbefore : ∀ c ∈ before, jsonSpace c = true) (hafter : ∀ c ∈ after, jsonSpace c = true)
    (h : ∀ value ∈ items, Denotes jsonSpace Numeral (t value) (value.map f)) :
    Denotes jsonSpace Numeral
      (91 :: (commas (items.map fun value => before ++ t value) ++ (after ++ [93])))
      (.array (Value.mapItems f items)) := by
  let entry := fun after value => Entry.mk before (t value) after (Value.map f value)
  have hentries : ∀ e ∈ closed entry after items, e.Spaced jsonSpace ∧
      Denotes jsonSpace Numeral e.text e.value := by
    intro e he
    obtain ⟨value, hvalue, rfl | rfl⟩ := mem_closed he
    · exact ⟨⟨hbefore, List.forall_mem_nil _⟩, h value hvalue⟩
    · exact ⟨⟨hbefore, hafter⟩, h value hvalue⟩
  have htext : commas ((closed entry after items).map Entry.padded) =
      commas (items.map fun value => before ++ t value) ++ after := by
    refine commas_closed (fun after value => ?_) hne
    exact (List.append_assoc before (t value) after).symm
  have hvalues : (closed entry after items).map Entry.value = items.map (Value.map f) := by
    refine map_closed (fun _ _ => ?_) items
    rfl
  have harray := Denotes.array (closed_ne_nil hne) (fun e he => (hentries e he).1)
    fun e he => (hentries e he).2
  rwa [htext, hvalues, List.append_assoc, ← Value.mapItems_eq] at harray

theorem denotes_object {members : List (Str × Value ν)} (hne : members ≠ [])
    (hbefore : ∀ c ∈ before, jsonSpace c = true) (hafter : ∀ c ∈ after, jsonSpace c = true)
    (h : ∀ m ∈ members, Denotes jsonSpace Numeral (t m.2) (m.2.map f)) :
    Denotes jsonSpace Numeral
      (123 :: (commas (members.map fun m => before ++ (quoted m.1 ++ (colon isPretty ++ t m.2)))
        ++ (after ++ [125]))) (.object (Value.mapMembers f members)) := by
  let entry := fun after (m : Str × Value ν) => NamedEntry.mk before
    (m.1.flatMap fun c => (escape c).getD [c]) m.1 []
      (Entry.mk (afterColon isPretty) (t m.2) after (Value.map f m.2))
  have hentries : ∀ e ∈ closed entry after members, e.Spaced jsonSpace ∧
      StringText e.key e.name ∧ Denotes jsonSpace Numeral e.entry.text e.entry.value := by
    intro e he
    obtain ⟨m, hm, rfl | rfl⟩ := mem_closed he
    · exact ⟨⟨hbefore, List.forall_mem_nil _, fun _ hc => jsonSpace_afterColon hc,
        List.forall_mem_nil _⟩, stringText_escape m.1, h m hm⟩
    · exact ⟨⟨hbefore, List.forall_mem_nil _, fun _ hc => jsonSpace_afterColon hc, hafter⟩,
        stringText_escape m.1, h m hm⟩
  have htext : commas ((closed entry after members).map NamedEntry.padded) =
      commas (members.map fun m => before ++ (quoted m.1 ++ (colon isPretty ++ t m.2))) ++ after := by
    refine commas_closed (fun after m => ?_) hne
    simp [entry, NamedEntry.padded, Entry.padded, quoted, colon_eq]
  have hmembers : (closed entry after members).map NamedEntry.member =
      members.map fun m => (m.1, m.2.map f) := by
    refine map_closed (fun _ _ => ?_) members
    rfl
  have hobject := Denotes.object (closed_ne_nil hne) (fun e he => (hentries e he).1)
    (fun e he => (hentries e he).2.1) fun e he => (hentries e he).2.2
  rwa [htext, hmembers, List.append_assoc, ← Value.mapMembers_eq] at hobject

end Brackets

/-- What `json_serialize_to_string` and `json_serialize_to_string_pretty` write is JSON. -/
theorem denotes_text (D : Doubles ν) (isPretty : Bool) (value : Value ν) (level : Nat) :
    Denotes jsonSpace Numeral (text D isPretty value level) (value.map D.sprintf) := by
  induction value generalizing level with
  | null => exact .null
  | boolean b =>
    cases b with
    | true => exact .true
    | false => exact .false
  | number num => exact .number (D.numeral_sprintf num)
  | string chars => exact .string (stringText_escape chars)
  | array items ih =>
    cases items with
    | nil => exact .emptyArray (List.forall_mem_nil _)
    | cons value items =>
      rw [text, textItems_eq, Value.map]
      · exact denotes_array (List.cons_ne_nil _ _) (fun _ => jsonSpace_gap) (fun _ => jsonSpace_gap)
          fun value hvalue => ih value hvalue (level + 1)
      · exact List.cons_ne_nil _ _
  | object members ih =>
    cases members with
    | nil => exact .emptyObject (List.forall_mem_nil _)
    | cons m members =>
      rw [text, textMembers_eq, Value.map]
      · exact denotes_object (t := fun value => text D isPretty value (level + 1))
          (List.cons_ne_nil _ _) (fun _ => jsonSpace_gap) (fun _ => jsonSpace_gap)
          fun m hm => ih m hm (level + 1)
      · exact List.cons_ne_nil _ _

theorem within_intMax (n : Nat) : within (some intMax) n = decide (n < 2 ^ 31) := by
  rw [within, intMax]
  exact decide_eq_decide.mpr (by omega)

/-- Every value with finite numbers has a JSON text.  If its length is an `int`, it is counted and
written without a byte outside of the buffers, and a buffer is refused exactly if it does not hold the
text and a zero. -/
theorem serializeToBuffer_denotes (isPretty : Bool) (value : Value Binary64) (buf : Str) :
    ∃ t, Denotes jsonSpace Numeral t (value.map (Binary64.printG 17)) ∧
      serializationSize binary64 isPretty (some intMax) (some value) =
        (if t.length < 2 ^ 31 then some (t.length + 1) else none) ∧
      serializeToBuffer binary64 isPretty (some intMax) (some value) buf =
        if t.length < 2 ^ 31 then
          some (if buf.length < t.length + 1 then none else some (t ++ 0 :: buf.drop (t.length + 1)))
        else none := by
  refine ⟨_, denotes_text binary64 isPretty value 0, ?_, ?_⟩
  · rw [serializationSize_eq, within_intMax]
    simp only [decide_eq_true_eq]
  · rw [serializeToBuffer_eq, within_intMax]
    simp only [decide_eq_true_eq]

/-! ## Zeros -/

theorem mem_commas {ts : List Str} {c : Byte} (h : c ∈ commas ts) : c = 44 ∨ ∃ t ∈ ts, c ∈ t := by
  induction ts with
  | nil => cases h
  | cons t ts ih =>
    cases ts with
    | nil => exact .inr ⟨t, List.mem_cons_self, h⟩
    | cons t' ts =>
      rcases List.mem_append.mp h with h | h
      · exact .inr ⟨t, List.mem_cons_self, h⟩
      · rcases List.mem_cons.mp h with h | h
        · exact .inl h
        · exact (ih h).imp_right fun ⟨u, hu, hc⟩ => ⟨u, List.mem_cons_of_mem _ hu, hc⟩

theorem not_mem_commas {ts : List Str} (h : ∀ t ∈ ts, 0#8 ∉ t) : 0#8 ∉ commas ts := by
  intro hzero
  rcases mem_commas hzero with hcomma | ⟨t, ht, hzero⟩
  · exact absurd hcomma (by decide)
  · exact h t ht hzero

theorem not_mem_of_jsonSpace {w : Str} (h : ∀ c ∈ w, jsonSpace c = true) : 0#8 ∉ w :=
  fun hzero => absurd (h _ hzero) (by decide)

theorem not_mem_of_isDecimal {w : Str} (h : ∀ c ∈ w, Lib.isDecimal c = true) : 0#8 ∉ w :=
  fun hzero => absurd (h _ hzero) (by decide)

theorem Numeral.not_mem {t : Str} (h : Numeral t) : 0#8 ∉ t := by
  cases h with
  | mk hsign hint hfrac hexp =>
    simp only [List.mem_append, not_or]
    refine ⟨⟨⟨?_, ?_⟩, ?_⟩, ?_⟩
    · rcases hsign with rfl | rfl <;> decide
    · rcases hint with rfl | ⟨-, -, hdigits⟩
      · decide
      · exact not_mem_of_isDecimal hdigits
    · rcases hfrac with rfl | ⟨digits, rfl, -, hdigits⟩
      · decide
      · exact List.not_mem_cons_of_ne_of_not_mem (by decide) (not_mem_of_isDecimal hdigits)
    · rcases hexp with rfl | ⟨e, sign, digits, rfl, he, hsign, -, hdigits⟩
      · decide
      · refine List.not_mem_cons_of_ne_of_not_mem ?_ (List.not_mem_append ?_
          (not_mem_of_isDecimal hdigits))
        · rcases he with rfl | rfl <;> decide
        · rcases hsign with rfl | rfl | rfl <;> decide

theorem CharText.not_mem {t bytes : Str} (h : CharText t bytes) : 0#8 ∉ t := by
  have hhex {c : Byte} {x : Nat} (h : hexValue c = some x) : 0#8 ≠ c := by
    rintro rfl
    cases h
  cases h with
  | plain hcontrol =>
    rw [List.mem_singleton]
    rintro rfl
    cases hcontrol
  | escaped he =>
    simp only [List.mem_cons, List.not_mem_nil, or_false, not_or]
    refine ⟨by decide, ?_⟩
    rintro rfl
    cases he
  | word e1 e2 e3 e4 =>
    simp only [List.mem_cons, List.not_mem_nil, or_false, not_or]
    exact ⟨by decide, by decide, hhex e1, hhex e2, hhex e3, hhex e4⟩
  | pair e1 e2 e3 e4 f1 f2 f3 f4 =>
    simp only [List.mem_cons, List.not_mem_nil, or_false, not_or]
    exact ⟨by decide, by decide, hhex e1, hhex e2, hhex e3, hhex e4, by decide, by decide, hhex f1,
      hhex f2, hhex f3, hhex f4⟩

theorem StringText.not_mem {t s : Str} (h : StringText t s) : 0#8 ∉ t := by
  induction h with
  | nil => exact List.not_mem_nil
  | cons hchar _ ih => exact List.not_mem_append hchar.not_mem ih

theorem not_mem_brackets {first last : Byte} {t : Str} (hfirst : 0 ≠ first) (hlast : 0 ≠ last)
    (ht : 0#8 ∉ t) : 0#8 ∉ first :: (t ++ [last]) := by
  refine List.not_mem_cons_of_ne_of_not_mem hfirst (List.not_mem_append ht ?_)
  exact fun h => hlast (List.mem_singleton.mp h)

theorem Denotes.not_mem {t : Str} {v : Value Str} (h : Denotes jsonSpace Numeral t v) : 0#8 ∉ t := by
  have hentry {e : Entry} (hspaced : e.Spaced jsonSpace) (h : 0#8 ∉ e.text) : 0#8 ∉ e.padded :=
    List.not_mem_append (not_mem_of_jsonSpace hspaced.before)
      (List.not_mem_append h (not_mem_of_jsonSpace hspaced.after))
  induction h with
  | null | true | false => decide
  | number ht => exact ht.not_mem
  | string ht => exact not_mem_brackets (by decide) (by decide) ht.not_mem
  | emptyArray hw | emptyObject hw =>
    exact not_mem_brackets (by decide) (by decide) (not_mem_of_jsonSpace hw)
  | array _ hspaced _ ih =>
    refine not_mem_brackets (by decide) (by decide) (not_mem_commas ?_)
    exact List.forall_mem_map.mpr fun e he => hentry (hspaced e he) (ih e he)
  | object _ hspaced hkeys _ ih =>
    refine not_mem_brackets (by decide) (by decide) (not_mem_commas ?_)
    refine List.forall_mem_map.mpr fun e he => ?_
    have hspaces := hspaced e he
    refine List.not_mem_append (not_mem_of_jsonSpace hspaces.before) ?_
    refine List.not_mem_cons_of_ne_of_not_mem (by decide) (List.not_mem_append (hkeys e he).not_mem ?_)
    refine List.not_mem_cons_of_ne_of_not_mem (by decide)
      (List.not_mem_append (not_mem_of_jsonSpace hspaces.between) ?_)
    exact List.not_mem_cons_of_ne_of_not_mem (by decide) (hentry hspaces.entry (ih e he))

theorem supported_map_sprintf {room : Nat} {value : Value ν} :
    Supported room (value.map D.sprintf) ↔ value.depth < room ∧ value.WellFormed := by
  constructor
  · rintro ⟨hdepth, hwell, -⟩
    rw [Value.depth_map] at hdepth
    exact ⟨hdepth, Value.wellFormed_map.mp hwell⟩
  · rintro ⟨hdepth, hwell⟩
    refine ⟨by rwa [Value.depth_map], Value.wellFormed_map.mpr hwell, ?_⟩
    exact Value.allNumbers_map.mpr fun n _ => D.isDecimal_sprintf n

/-- A number that is written and read. -/
def Doubles.reread (D : Doubles ν) (num : ν) : Option ν := D.read (D.sprintf num)

@[simp] theorem cstr_text (value : Value ν) :
    cstr (text D isPretty value 0 ++ [0]) = text D isPretty value 0 := by
  rw [cstr_append_of_not_mem (denotes_text D isPretty value 0).not_mem]
  exact List.append_nil _

/-- A value that is written is read if its names and its depth allow it, with each number as its
numeral is read. -/
theorem jsonParseString_text {value u : Value ν} :
    jsonParseString D (text D isPretty value 0) = some u ↔
      (value.depth ≤ maxNesting ∧ value.WellFormed) ∧ value.convert D.reread = some u := by
  have hends : Ends (value.map D.sprintf) [] := by
    intro n _ c hc
    cases hc
  have htext := denotes_text D isPretty value 0
  have hiff := jsonParseString_padded (D := D) (w := []) (u := u) (.inl rfl) (List.forall_mem_nil _)
    (opens_of_denotes (fun _ ht => ht) htext)
    (reads_of_denotes (fun _ => isSpace_of_jsonSpace) (fun _ ht => ht) htext _) hends
  rw [List.append_nil, List.nil_append, List.nil_append, supported_map_sprintf, Value.convert_map,
    Nat.lt_succ_iff] at hiff
  exact hiff

theorem jsonParseString_text_self {value : Value ν} :
    jsonParseString D (text D isPretty value 0) = some value ↔
      (value.depth ≤ maxNesting ∧ value.WellFormed) ∧
        value.AllNumbers fun num => D.reread num = some num := by
  rw [jsonParseString_text, Value.convert_eq_some_self]

/-! ## Doubles -/

/-- A double is read as it was written, but for those that are not zero and below the least with 53
digits, for which `strtod` reports a range error. -/
theorem reread_binary64 (x : Binary64) : binary64.reread x =
    if x.significand ≠ 0 ∧ x.significand < 2 ^ 52 then none else some x := by
  have hstrtod := Binary64.strtod_printG (q := 17) (Nat.le_refl _) (by decide) x
  have hread : binary64.reread x = if (strtod (x.printG 17)).errno then none
      else (strtod (x.printG 17)).number := rfl
  rw [hread, hstrtod]
  simp only [decide_eq_true_eq]

/-- Zero, or a double with 53 digits. -/
def IsNormal (x : Binary64) : Prop := x.significand = 0 ∨ 2 ^ 52 ≤ x.significand

theorem reread_eq_some_self {x : Binary64} : binary64.reread x = some x ↔ IsNormal x := by
  rw [reread_binary64, IsNormal]
  split
  next h =>
    refine iff_of_false nofun ?_
    omega
  next h =>
    refine iff_of_true rfl ?_
    omega

theorem serializeToString_iff (holds : Str → Prop) {garbage : Nat → Byte} {value : Value ν} :
    (∃ buf, serializeToString D isPretty (some intMax) garbage (some value) = some (some buf) ∧
      holds (cstr buf)) ↔
      (text D isPretty value 0).length < 2 ^ 31 ∧ holds (text D isPretty value 0) := by
  rw [serializeToString_eq, within_intMax]
  simp only [decide_eq_true_eq]
  split
  next h => simp only [h, Option.some.injEq, exists_eq_left', cstr_text, true_and]
  next h => simp only [h, reduceCtorEq, false_and, exists_const]

/-- A value is serialized to a C string from which it is read again exactly if the length of its text
is an `int`, `parson.c` can build it, it is not nested too deep and none of its numbers is
subnormal. -/
theorem jsonParseString_serializeToString (garbage : Nat → Byte) (value : Value Binary64) :
    (∃ buf, serializeToString binary64 isPretty (some intMax) garbage (some value) =
      some (some buf) ∧ jsonParseString binary64 (cstr buf) = some value) ↔
      (text binary64 isPretty value 0).length < 2 ^ 31 ∧
        (value.depth ≤ maxNesting ∧ value.WellFormed) ∧ value.AllNumbers IsNormal := by
  rw [serializeToString_iff fun s => jsonParseString binary64 s = some value,
    jsonParseString_text_self]
  refine and_congr_right fun _ => and_congr_right fun _ => forall₂_congr fun x _ => ?_
  exact reread_eq_some_self

/-- What was read is read again after it was written, with line breaks or without, exactly if none of
its numbers is subnormal and the length of the text that is written is an `int`. -/
theorem jsonParseString_reparse {s : Str} {value : Value Binary64} (garbage : Nat → Byte)
    (h : jsonParseString binary64 s = some value) :
    (∃ buf, serializeToString binary64 isPretty (some intMax) garbage (some value) =
      some (some buf) ∧ jsonParseString binary64 (cstr buf) = some value) ↔
      (text binary64 isPretty value 0).length < 2 ^ 31 ∧ value.AllNumbers IsNormal := by
  rw [serializeToString_iff fun s => jsonParseString binary64 s = some value,
    jsonParseString_text_self, and_iff_right (built_of_jsonParseString h)]
  refine and_congr_right fun _ => forall₂_congr fun x _ => ?_
  exact reread_eq_some_self

theorem jsonParseString_reparse_arrayObject : ∃ buf,
    serializeToString binary64 true (some intMax) (fun _ => 0) (some (arrayObject threeHalves)) =
      some (some buf) ∧
      jsonParseString binary64 (cstr buf) = some (arrayObject threeHalves) := by
  refine (jsonParseString_reparse (fun _ => 0) jsonParseString_arrayObject).mpr ⟨?_, ?_⟩
  · decide +kernel
  · refine Value.allNumbers_object.mpr (List.forall_mem_singleton.mpr ?_)
    refine Value.allNumbers_array.mpr (List.forall_mem_cons.mpr ⟨?_, List.forall_mem_singleton.mpr ?_⟩)
    · intro n h
      cases h
    · exact Value.allNumbers_number.mpr (.inr (by decide))

end PCom.Library.Json
