import PCom.Library.Json.Grammar

/-! What the parser takes is a text of the grammar, but for white space and numerals those of the C
library. -/

namespace PCom.Library.Json

open Lib

variable {ν : Type}

/-- What `parse_number_value` takes for a numeral.  It is empty where `strtod` finds no numeral
behind a minus. -/
structure Token (D : Doubles ν) (t : Str) : Prop where
  whole : (D.strtod t).length = t.length
  decimal : isDecimal t = true
  first : ∀ c ∈ t.head?, c = 45 ∨ Lib.isDecimal c = true

variable {D : Doubles ν}

/-- A text of the grammar at the front of a string, with the value it stands for. -/
def Begins (D : Doubles ν) (room : Nat) (s : Str) (u : Value ν) (r : Str) : Prop :=
  ∃ t v, s = t ++ r ∧ Denotes isSpace (Token D) t v ∧ Supported room v ∧ v.convert D.read = some u

/-- A parser that takes a text of the grammar, with white space in front of it. -/
def Sound (D : Doubles ν) (room : Nat) (f : Str → Option (Value ν × Str)) : Prop :=
  ∀ s u r, f s = some (u, r) →
    ∃ w s', s = w ++ s' ∧ (∀ c ∈ w, isSpace c = true) ∧ Begins D room s' u r

theorem exists_skipped (s : Str) : ∃ w, (∀ c ∈ w, isSpace c = true) ∧ s = w ++ skipWhitespaces s :=
  ⟨s.takeWhile isSpace, fun _ hc => List.mem_takeWhile_imp hc,
    List.takeWhile_append_dropWhile.symm⟩

theorem exists_cons_of_head {s : Str} {c : Byte} (h : s.head? = some c) : s = c :: s.tail :=
  List.eq_cons_of_mem_head? h

def Entry.indent (w : Str) (e : Entry) : Entry := { e with before := w ++ e.before }

def NamedEntry.indent (w : Str) (e : NamedEntry) : NamedEntry := { e with before := w ++ e.before }

theorem Entry.padded_indent (w : Str) (e : Entry) : (e.indent w).padded = w ++ e.padded :=
  List.append_assoc _ _ _

theorem NamedEntry.padded_indent (w : Str) (e : NamedEntry) : (e.indent w).padded = w ++ e.padded :=
  List.append_assoc _ _ _

theorem spaces_append {w w' : Str} (hw : ∀ c ∈ w, isSpace c = true)
    (hw' : ∀ c ∈ w', isSpace c = true) : ∀ c ∈ w ++ w', isSpace c = true :=
  List.forall_mem_append.mpr ⟨hw, hw'⟩

theorem commas_append_cons (w t : Str) (ts : List Str) :
    commas ((w ++ t) :: ts) = w ++ commas (t :: ts) := by
  cases ts with
  | nil => rfl
  | cons t' ts => exact List.append_assoc _ _ _

theorem isPrefixOf_split {p s : Str} (h : p.isPrefixOf s = true) : s = p ++ s.drop p.length :=
  List.prefix_iff_eq_append.mp (List.isPrefixOf_iff_prefix.mp h) |>.symm

section Leaves

variable {room : Nat} {s r : Str} {u : Value ν}

theorem begins_null (h : parseNullValue s = some (u, r)) : Begins D (room + 1) s u r := by
  obtain ⟨hfront, h⟩ := Option.ite_none_right_eq_some.mp h
  cases h
  exact ⟨ascii "null", .null, isPrefixOf_split hfront, .null,
    supported_of_leaf rfl (fun u h => by cases h; rfl) nofun nofun, rfl⟩

theorem begins_boolean (h : parseBooleanValue s = some (u, r)) : Begins D (room + 1) s u r := by
  rw [parseBooleanValue] at h
  split at h
  next hfront =>
    cases h
    exact ⟨ascii "true", .boolean true, isPrefixOf_split hfront, .true,
      supported_of_leaf rfl (fun u h => by cases h; rfl) nofun nofun, rfl⟩
  next =>
    obtain ⟨hfront, h⟩ := Option.ite_none_right_eq_some.mp h
    cases h
    exact ⟨ascii "false", .boolean false, isPrefixOf_split hfront, .false,
      supported_of_leaf rfl (fun u h => by cases h; rfl) nofun nofun, rfl⟩

theorem begins_string (h : parseStringValue s = some (u, r)) : Begins D (room + 1) s u r := by
  obtain ⟨⟨chars, r'⟩, hquoted, h⟩ := Option.map_eq_some_iff.mp h
  cases h
  obtain ⟨t, ht, rfl⟩ := getQuotedString_eq_some_iff.mp hquoted
  exact ⟨34 :: (t ++ [34]), .string chars, by simp, .string ht,
    supported_of_leaf rfl (fun u h => by cases h; rfl) nofun nofun, rfl⟩

theorem begins_number {c : Byte} (hc : c = 45 ∨ Lib.isDecimal c = true)
    (h : parseNumberValue D (c :: s) = some (u, r)) : Begins D (room + 1) (c :: s) u r := by
  rw [parseNumberValue] at h
  obtain ⟨hcheck, h⟩ := Option.ite_none_left_eq_some.mp h
  rw [not_or, Bool.not_eq_false] at hcheck
  obtain ⟨x, hx, heq⟩ := Option.map_eq_some_iff.mp h
  cases heq
  have hlen := D.length_strtod (c :: s)
  have htake := D.strtod_take (c :: s)
  have hread : D.read ((c :: s).take (D.strtod (c :: s)).length) = some x := by
    rw [Doubles.read, htake, if_neg hcheck.1, hx]
  have htoken : Token D ((c :: s).take (D.strtod (c :: s)).length) := by
    refine ⟨by rw [htake, List.length_take_of_le hlen], hcheck.2, fun d hd => ?_⟩
    cases hn : (D.strtod (c :: s)).length with
    | zero =>
      rw [hn] at hd
      cases hd
    | succ n =>
      rw [hn] at hd
      cases hd
      exact hc
  refine ⟨_, _, (List.take_append_drop _ _).symm, .number htoken, supported_number.mpr hcheck.2, ?_⟩
  rw [Value.convert, hread, Option.map_some]

end Leaves

/-! ## Items -/

structure Entry.Taken (D : Doubles ν) (room : Nat) (e : Entry) : Prop where
  spaced : e.Spaced isSpace
  denotes : Denotes isSpace (Token D) e.text e.value
  supported : Supported room e.value

theorem Entry.Taken.indent {room : Nat} {e : Entry} {w : Str} (h : e.Taken D room)
    (hw : ∀ c ∈ w, isSpace c = true) : (e.indent w).Taken D room :=
  ⟨⟨spaces_append hw h.spaced.before, h.spaced.after⟩, h.denotes, h.supported⟩

theorem Sound.entry {room : Nat} {f : Str → Option (Value ν × Str)} (hf : Sound D room f) {s r : Str}
    {u : Value ν} (h : f s = some (u, r)) : ∃ e : Entry, s = e.padded ++ skipWhitespaces r ∧
      e.Taken D room ∧ e.value.convert D.read = some u := by
  obtain ⟨w, s', rfl, hw, t, v, rfl, ht, hsupported, hu⟩ := hf _ _ _ h
  obtain ⟨after, hafter, hr⟩ := exists_skipped r
  refine ⟨⟨w, t, after, v⟩, ?_, ⟨⟨hw, hafter⟩, ht, hsupported⟩, hu⟩
  simp only [Entry.padded, List.append_assoc]
  rw [← hr]

theorem parseItems_pass {room : Nat} {f : Str → Option (Value ν × Str)} (hf : Sound D room f)
    {passes : Nat} {acc : List (Value ν)} {s : Str} {res : List (Value ν) × Str}
    (h : parseItems f (passes + 1) acc s = some res) (hs : s ≠ []) :
    ∃ (e : Entry) (u : Value ν) (r : Str), s = e.padded ++ r ∧ skipWhitespaces r = r ∧
      e.Taken D room ∧ e.value.convert D.read = some u ∧
      (r.head? = some 44 ∧ parseItems f passes (acc ++ [u]) (skipWhitespaces r.tail) = some res ∨
        res = (acc ++ [u], r)) := by
  rw [parseItems, if_neg hs] at h
  cases hparse : f s with
  | none =>
    rw [hparse] at h
    cases h
  | some parsed =>
    obtain ⟨u, r⟩ := parsed
    rw [hparse] at h
    obtain ⟨e, hshape, he, hu⟩ := hf.entry hparse
    refine ⟨e, u, skipWhitespaces r, hshape, skipWhitespaces_skipWhitespaces r, he, hu, ?_⟩
    simp only at h
    split at h
    next hcomma => exact .inl ⟨hcomma, h⟩
    next => exact .inr (Option.some.inj h).symm

theorem commas_indent {s r w : Str} {e : Entry} {entries : List Entry} {first : Entry}
    (h : skipWhitespaces s = commas ((e :: entries).map Entry.padded) ++ r)
    (hs : s = w ++ skipWhitespaces s) :
    first.padded ++ 44 :: s =
      commas ((first :: e.indent w :: entries).map Entry.padded) ++ r := by
  rw [List.map_cons, List.map_cons, commas, Entry.padded_indent, commas_append_cons]
  · rw [List.append_assoc, List.cons_append, List.append_assoc, ← List.map_cons, ← h, ← hs]
  · exact List.cons_ne_nil _ _

theorem parseItems_sound {room : Nat} {f : Str → Option (Value ν × Str)} (hf : Sound D room f)
    {passes : Nat} {acc items : List (Value ν)} {s r : Str}
    (h : parseItems f passes acc s = some (items, r)) (hr : r ≠ []) :
    ∃ e entries us, s = commas ((e :: entries).map Entry.padded) ++ r ∧ skipWhitespaces r = r ∧
      (∀ e' ∈ e :: entries, e'.Taken D room) ∧
      Value.convertItems D.read ((e :: entries).map Entry.value) = some us ∧ items = acc ++ us := by
  induction passes generalizing acc s with
  | zero => cases h
  | succ passes ih =>
    have hs : s ≠ [] := by
      rintro rfl
      cases h
      exact hr rfl
    obtain ⟨e, u, tail, rfl, htail, he, hu, ⟨hcomma, h⟩ | h⟩ := parseItems_pass hf h hs
    · obtain ⟨e', entries, us, hshape, hskip, hentries, hus, rfl⟩ := ih h
      obtain ⟨w, hw, hw_tail⟩ := exists_skipped tail.tail
      obtain ⟨he', hentries⟩ := List.forall_mem_cons.mp hentries
      refine ⟨e, e'.indent w :: entries, u :: us, ?_, hskip, ?_, ?_, by simp⟩
      · rw [exists_cons_of_head hcomma]
        exact commas_indent hshape hw_tail
      · exact List.forall_mem_cons.mpr ⟨he, List.forall_mem_cons.mpr ⟨he'.indent hw, hentries⟩⟩
      · exact Value.convertItems_cons.mpr ⟨u, us, hu, hus, rfl⟩
    · cases h
      refine ⟨e, [], [u], rfl, htail, ?_, ?_, rfl⟩
      · exact List.forall_mem_cons.mpr ⟨he, List.forall_mem_nil _⟩
      · exact Value.convertItems_cons.mpr ⟨u, [], hu, rfl, rfl⟩

/-! ## Members -/

structure NamedEntry.Taken (D : Doubles ν) (room : Nat) (e : NamedEntry) : Prop where
  spaced : e.Spaced isSpace
  key : StringText e.key e.name
  entry : e.entry.Taken D room

theorem NamedEntry.Taken.indent {room : Nat} {e : NamedEntry} {w : Str} (h : e.Taken D room)
    (hw : ∀ c ∈ w, isSpace c = true) : (e.indent w).Taken D room :=
  ⟨⟨spaces_append hw h.spaced.before, h.spaced.between, h.spaced.entry⟩, h.key, h.entry⟩

theorem parseMembers_pass {room : Nat} {f : Str → Option (Value ν × Str)} (hf : Sound D room f)
    {passes : Nat} {acc : List (Str × Value ν)} {s : Str} {res : List (Str × Value ν) × Str}
    (h : parseMembers f (passes + 1) acc s = some res) (hs : s ≠ []) :
    ∃ (e : NamedEntry) (u : Value ν) (r : Str), s = e.padded ++ r ∧ skipWhitespaces r = r ∧
      e.Taken D room ∧ e.entry.value.convert D.read = some u ∧ 0#8 ∉ e.name ∧
      e.name ∉ acc.map Prod.fst ∧
      (r.head? = some 44 ∧
        parseMembers f passes (acc ++ [(e.name, u)]) (skipWhitespaces r.tail) = some res ∨
        res = (acc ++ [(e.name, u)], r)) := by
  rw [parseMembers, if_neg hs] at h
  cases hquoted : getQuotedString s with
  | none =>
    rw [hquoted] at h
    cases h
  | some quoted =>
    obtain ⟨name, s₁⟩ := quoted
    obtain ⟨key, hkey, rfl⟩ := getQuotedString_eq_some_iff.mp hquoted
    rw [hquoted] at h
    obtain ⟨hcheck, h⟩ := Option.ite_none_left_eq_some.mp h
    rw [not_or, not_not] at hcheck
    obtain ⟨hzero, hcolon⟩ := hcheck
    obtain ⟨between, hbetween, hs₁⟩ := exists_skipped s₁
    cases hparse : f (skipWhitespaces s₁).tail with
    | none =>
      rw [hparse] at h
      cases h
    | some parsed =>
      obtain ⟨u, r⟩ := parsed
      rw [hparse] at h
      obtain ⟨e, hshape, he, hu⟩ := hf.entry hparse
      simp only at h
      cases hadd : objectAdd acc name u with
      | none =>
        rw [hadd] at h
        cases h
      | some members =>
        obtain ⟨hfresh, rfl⟩ := objectAdd_eq_some_iff.mp hadd
        rw [hadd] at h
        refine ⟨⟨[], key, name, between, e⟩, u, skipWhitespaces r, ?_,
          skipWhitespaces_skipWhitespaces r,
          ⟨⟨List.forall_mem_nil _, hbetween, he.spaced⟩, hkey, he⟩, hu, hzero, hfresh, ?_⟩
        · simp only [NamedEntry.padded, List.nil_append, List.append_assoc, List.cons_append]
          rw [← hshape, ← exists_cons_of_head hcolon, ← hs₁]
        · simp only at h
          split at h
          next hcomma => exact .inl ⟨hcomma, h⟩
          next => exact .inr (Option.some.inj h).symm

theorem commas_indent_named {s r w : Str} {e first : NamedEntry} {entries : List NamedEntry}
    (h : skipWhitespaces s = commas ((e :: entries).map NamedEntry.padded) ++ r)
    (hs : s = w ++ skipWhitespaces s) :
    first.padded ++ 44 :: s =
      commas ((first :: e.indent w :: entries).map NamedEntry.padded) ++ r := by
  rw [List.map_cons, List.map_cons, commas, NamedEntry.padded_indent, commas_append_cons]
  · rw [List.append_assoc, List.cons_append, List.append_assoc, ← List.map_cons, ← h, ← hs]
  · exact List.cons_ne_nil _ _

theorem parseMembers_sound {room : Nat} {f : Str → Option (Value ν × Str)} (hf : Sound D room f)
    {passes : Nat} {acc members : List (Str × Value ν)} {s r : Str}
    (h : parseMembers f passes acc s = some (members, r)) (hr : r ≠ []) :
    ∃ e entries us, s = commas ((e :: entries).map NamedEntry.padded) ++ r ∧
      skipWhitespaces r = r ∧ (∀ e' ∈ e :: entries, e'.Taken D room) ∧
      MembersSupported room (acc.map Prod.fst) (e :: entries) ∧
      Value.convertMembers D.read ((e :: entries).map NamedEntry.member) = some us ∧
        members = acc ++ us := by
  induction passes generalizing acc s with
  | zero => cases h
  | succ passes ih =>
    have hs : s ≠ [] := by
      rintro rfl
      cases h
      exact hr rfl
    obtain ⟨e, u, tail, rfl, htail, he, hu, hzero, hfresh, ⟨hcomma, h⟩ | h⟩ :=
      parseMembers_pass hf h hs
    · obtain ⟨e', entries, us, hshape, hskip, hentries, hmembers, hus, rfl⟩ := ih h
      obtain ⟨w, hw, hw_tail⟩ := exists_skipped tail.tail
      obtain ⟨he', hentries⟩ := List.forall_mem_cons.mp hentries
      refine ⟨e, e'.indent w :: entries, (e.name, u) :: us, ?_, hskip, ?_, ?_, ?_, by simp⟩
      · rw [exists_cons_of_head hcomma]
        exact commas_indent_named hshape hw_tail
      · exact List.forall_mem_cons.mpr ⟨he, List.forall_mem_cons.mpr ⟨he'.indent hw, hentries⟩⟩
      · rw [List.map_append] at hmembers
        refine membersSupported_cons.mpr ⟨hzero, hfresh, he.entry.supported, ?_⟩
        have hcons := membersSupported_cons.mp hmembers
        exact membersSupported_cons.mpr hcons
      · exact Value.convertMembers_cons.mpr ⟨u, us, hu, hus, rfl⟩
    · cases h
      refine ⟨e, [], [(e.name, u)], rfl, htail, ?_, ?_, ?_, rfl⟩
      · exact List.forall_mem_cons.mpr ⟨he, List.forall_mem_nil _⟩
      · exact membersSupported_cons.mpr ⟨hzero, hfresh, he.entry.supported, membersSupported_nil⟩
      · exact Value.convertMembers_cons.mpr ⟨u, [], hu, rfl, rfl⟩

/-! ## Values -/

theorem begins_array {room : Nat} {f : Str → Option (Value ν × Str)} (hf : Sound D room f)
    {s r : Str} {u : Value ν} (h : parseArrayValue f (91 :: s) = some (u, r)) :
    Begins D (room + 1) (91 :: s) u r := by
  by_cases hhead : (skipWhitespaces s).head? = some 93
  · obtain ⟨w, hw, hs⟩ := exists_skipped s
    have hempty : parseArrayValue f (91 :: s) = some (.array [], (skipWhitespaces s).tail) := by
      simp only [parseArrayValue, List.head?_cons, ne_eq, not_true_eq_false, if_false,
        List.tail_cons, hhead, if_true]
    rw [hempty] at h
    cases h
    refine ⟨91 :: (w ++ [93]), .array [], ?_, .emptyArray hw, ?_, rfl⟩
    · rw [List.cons_append, List.append_assoc, List.singleton_append, ← exists_cons_of_head hhead,
        ← hs]
    · exact supported_array.mpr (List.forall_mem_nil _)
  · obtain ⟨items, r', hitems, hclose, -, rfl, rfl⟩ := (parseArrayValue_iff hhead).mp h
    have hr' : r' ≠ [] := by
      rintro rfl
      cases hclose
    obtain ⟨e, entries, us, hshape, hskip, hentries, hus, rfl⟩ := parseItems_sound hf hitems hr'
    rw [hskip] at hclose ⊢
    obtain ⟨w, hw, hs⟩ := exists_skipped s
    obtain ⟨he, hentries⟩ := List.forall_mem_cons.mp hentries
    have hall : ∀ e' ∈ e.indent w :: entries, e'.Taken D room :=
      List.forall_mem_cons.mpr ⟨he.indent hw, hentries⟩
    refine ⟨_, _, ?_, .array (List.cons_ne_nil (e.indent w) entries) (fun e' he' => (hall e' he').spaced)
      fun e' he' => (hall e' he').denotes, ?_, ?_⟩
    · rw [List.map_cons, Entry.padded_indent, commas_append_cons, List.cons_append, List.append_assoc,
        List.singleton_append, ← exists_cons_of_head hclose, List.append_assoc, ← List.map_cons,
        ← hshape, ← hs]
    · rw [supported_array, List.forall_mem_map]
      exact fun e' he' => (hall e' he').supported
    · rw [Value.convert]
      exact Option.map_eq_some_iff.mpr ⟨_, hus, rfl⟩

theorem begins_object {room : Nat} {f : Str → Option (Value ν × Str)} (hf : Sound D room f)
    {s r : Str} {u : Value ν} (h : parseObjectValue f (123 :: s) = some (u, r)) :
    Begins D (room + 1) (123 :: s) u r := by
  by_cases hhead : (skipWhitespaces s).head? = some 125
  · obtain ⟨w, hw, hs⟩ := exists_skipped s
    have hempty : parseObjectValue f (123 :: s) = some (.object [], (skipWhitespaces s).tail) := by
      simp only [parseObjectValue, List.head?_cons, ne_eq, not_true_eq_false, if_false,
        List.tail_cons, hhead, if_true]
    rw [hempty] at h
    cases h
    refine ⟨123 :: (w ++ [125]), .object [], ?_, .emptyObject hw, ?_, rfl⟩
    · rw [List.cons_append, List.append_assoc, List.singleton_append, ← exists_cons_of_head hhead,
        ← hs]
    · exact supported_object.mpr ⟨List.nodup_nil, List.forall_mem_nil _, List.forall_mem_nil _⟩
  · obtain ⟨members, r', hmembers, hclose, -, rfl, rfl⟩ := (parseObjectValue_iff hhead).mp h
    have hr' : r' ≠ [] := by
      rintro rfl
      cases hclose
    obtain ⟨e, entries, us, hshape, hskip, hentries, hsupported, hus, rfl⟩ :=
      parseMembers_sound hf hmembers hr'
    rw [hskip] at hclose ⊢
    obtain ⟨w, hw, hs⟩ := exists_skipped s
    obtain ⟨he, hentries⟩ := List.forall_mem_cons.mp hentries
    have hall : ∀ e' ∈ e.indent w :: entries, e'.Taken D room :=
      List.forall_mem_cons.mpr ⟨he.indent hw, hentries⟩
    refine ⟨_, _, ?_, .object (List.cons_ne_nil (e.indent w) entries)
      (fun e' he' => (hall e' he').spaced) (fun e' he' => (hall e' he').key)
      fun e' he' => (hall e' he').entry.denotes, ?_, ?_⟩
    · rw [List.map_cons, NamedEntry.padded_indent, commas_append_cons, List.cons_append,
        List.append_assoc, List.singleton_append, ← exists_cons_of_head hclose, List.append_assoc,
        ← List.map_cons, ← hshape, ← hs]
    · rw [supported_object, List.map_map, List.forall_mem_map, List.forall_mem_map]
      have hmembers : MembersSupported room [] (e.indent w :: entries) :=
        membersSupported_cons.mpr (membersSupported_cons (e := e).mp hsupported)
      exact ⟨hmembers.nodup, hmembers.zero, hmembers.values⟩
    · rw [Value.convert]
      exact Option.map_eq_some_iff.mpr ⟨_, hus, rfl⟩

theorem parseValue_sound (room : Nat) : Sound D room (parseValue D room) := by
  induction room with
  | zero =>
    intro s u r h
    cases h
  | succ room ih =>
    intro s u r h
    obtain ⟨w, hw, hs⟩ := exists_skipped s
    refine ⟨w, skipWhitespaces s, hs, hw, ?_⟩
    cases hhead : (skipWhitespaces s).head? with
    | none =>
      rw [parseValue, hhead] at h
      cases h
    | some c =>
      have hshape := exists_cons_of_head hhead
      rw [parseValue, hhead] at h
      simp only at h
      rw [hshape] at h ⊢
      split at h
      next hc =>
        subst hc
        exact begins_object ih h
      split at h
      next hc =>
        subst hc
        exact begins_array ih h
      split at h
      next => exact begins_string h
      split at h
      next => exact begins_boolean h
      split at h
      next hc => exact begins_number hc h
      exact begins_null (Option.ite_none_right_eq_some.mp h).2

theorem built_of_jsonParseString {s : Str} {u : Value ν} (h : jsonParseString D s = some u) :
    u.depth ≤ maxNesting ∧ u.WellFormed := by
  obtain ⟨⟨u', rest⟩, hparse, rfl⟩ := Option.map_eq_some_iff.mp h
  obtain ⟨-, -, -, -, -, v, -, -, hsupported, hv⟩ := parseValue_sound _ _ _ _ hparse
  obtain ⟨hdepth, hwell⟩ := Value.convert_keeps hv
  exact ⟨hdepth ▸ Nat.le_of_lt_succ hsupported.depth, hwell hsupported.wellFormed⟩

/-- What `json_parse_string` takes is a text of the grammar, with nothing but a byte order mark and
white space in front of it. -/
theorem jsonParseString_sound {s : Str} {u : Value ν} (h : jsonParseString D s = some u) :
    ∃ bom w t rest v, s = bom ++ (w ++ (t ++ rest)) ∧ (bom = [] ∨ bom = [0xEF, 0xBB, 0xBF]) ∧
      (∀ c ∈ w, isSpace c = true) ∧ Denotes isSpace (Token D) t v ∧
      Supported (maxNesting + 1) v ∧ v.convert D.read = some u := by
  obtain ⟨⟨u', rest⟩, hparse, rfl⟩ := Option.map_eq_some_iff.mp h
  obtain ⟨w, s', hs, hw, t, v, rfl, ht⟩ := parseValue_sound _ _ _ _ hparse
  split at hs
  next hbom => exact ⟨_, w, t, rest, v, by rw [← hs]; exact isPrefixOf_split hbom, .inr rfl, hw, ht⟩
  next => exact ⟨[], w, t, rest, v, hs, .inl rfl, hw, ht⟩

theorem jsonParseString_sound_arrayObject : ∃ bom w t rest v,
    ascii " \x7b\"a\": [true, 1.5]\x7d]" = bom ++ (w ++ (t ++ rest)) ∧
      (bom = [] ∨ bom = [0xEF, 0xBB, 0xBF]) ∧ (∀ c ∈ w, isSpace c = true) ∧
      Denotes isSpace (Token binary64) t v ∧ Supported (maxNesting + 1) v ∧
      v.convert binary64.read = some (arrayObject threeHalves) :=
  jsonParseString_sound jsonParseString_arrayObject

end PCom.Library.Json
