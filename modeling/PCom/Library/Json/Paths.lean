import PCom.Library.Json.Objects

/-! The functions of `parson.c` on names with dots, which lead through objects in objects. -/

namespace PCom.Library.Json

open Lib

variable {ν : Type}

/-- What is cut off a name at its dots, one call after the other. -/
def dots (name : Str) : List Str := name.splitOn 46

def dotgetValue : Members ν → List Str → Option (Value ν)
  | _, [] => none
  | members, [name] => getnValue members name
  | members, name :: names =>
    match getnValue members name with
    | some (.object inner) => dotgetValue inner names
    | _ => none

/-- `json_object_dotset_value`, with new objects where there is nothing yet. -/
def dotsetValue : Members ν → List Str → Value ν → Option (Members ν)
  | _, [], _ => none
  | members, [name], value => jsonObjectSetValue members name (some value)
  | members, name :: names, value =>
    match getnValue members name with
    | some (.object inner) =>
      (dotsetValue inner names value).map fun inner => overwrite name (.object inner) members
    | some _ => none
    | none => (dotsetValue [] names value).bind fun inner => objectAdd members name (.object inner)

def dotremove : Members ν → List Str → Option (Members ν)
  | _, [] => none
  | members, [name] => jsonObjectRemove members name
  | members, name :: names =>
    match getnValue members name with
    | some (.object inner) =>
      (dotremove inner names).map fun inner => overwrite name (.object inner) members
    | _ => none

def jsonObjectDotgetValue (members : Members ν) (name : Str) : Option (Value ν) :=
  dotgetValue members (dots name)

def jsonObjectDotsetValue (members : Members ν) (name : Str) (value : Option (Value ν)) :
    Option (Members ν) := value.bind (dotsetValue members (dots name))

def jsonObjectDotremove (members : Members ν) (name : Str) : Option (Members ν) :=
  dotremove members (dots name)

/-! ## Trees -/

def Value.at : Value ν → List Str → Option (Value ν)
  | value, [] => some value
  | .object members, name :: names => (getnValue members name).bind fun value => value.at names
  | _, _ :: _ => none

/-- A tree that differs from another in what is at a path, with objects on the way to it. -/
structure Placed (path : List Str) (value : Option (Value ν)) (before after : Value ν) : Prop where
  below : ∀ names, after.at (path ++ names) = value.bind fun value => value.at names
  above : ∀ names, names <+: path → names ≠ path → ∃ members, after.at names = some (.object members)
  beside : ∀ names, ¬ path <+: names → ¬ names <+: path → after.at names = before.at names

/-- Something on the way to a path is no object. -/
def Blocked (path : List Str) (value : Value ν) : Prop :=
  ∃ names u, names <+: path ∧ names ≠ path ∧ value.at names = some u ∧
    ∀ members, u ≠ .object members

@[simp] theorem at_object_cons (members : Members ν) (name : Str) (names : List Str) :
    (Value.object members).at (name :: names) =
      (getnValue members name).bind fun value => value.at names := by
  rw [Value.at]

@[simp] theorem at_nil (value : Value ν) : value.at [] = some value := by
  rw [Value.at]

theorem at_empty {names : List Str} (h : names ≠ []) :
    (Value.object ([] : Members ν)).at names = none := by
  obtain ⟨name, names, rfl⟩ := List.exists_cons_of_ne_nil h
  rw [at_object_cons]
  rfl

/-- An object that is looked into, or that is made for it. -/
inductive Enters (members : Members ν) (name : Str) : Members ν → Prop
  | found {inner : Members ν} : getnValue members name = some (.object inner) →
    Enters members name inner
  | made : getnValue members name = none → Enters members name []

theorem Enters.at {members inner : Members ν} {name : Str} (h : Enters members name inner)
    {names : List Str} (hne : names ≠ []) :
    (Value.object members).at (name :: names) = (Value.object inner).at names := by
  rw [at_object_cons]
  cases h with
  | found h => rw [h, Option.bind_some]
  | made h => rw [h, Option.bind_none, at_empty hne]

section Placed

variable {members members' inner inner' : Members ν} {name : Str} {names : List Str}
  {value : Option (Value ν)}

theorem placed_singleton
    (h : ∀ n, getnValue members' n = if n = name then value else getnValue members n) :
    Placed [name] value (.object members) (.object members') where
  below := fun names => by rw [List.singleton_append, at_object_cons, h, if_pos rfl]
  above := fun names hfront hne => by
    rcases List.prefix_cons_iff.mp hfront with rfl | ⟨t, rfl, ht⟩
    · exact ⟨members', at_nil _⟩
    · rw [List.prefix_nil] at ht
      exact absurd (by rw [ht]) hne
  beside := fun names hpath hnames => by
    cases names with
    | nil => exact absurd List.nil_prefix hnames
    | cons n names =>
      have hn : n ≠ name := by
        rintro rfl
        exact hpath (List.prefix_append [n] names)
      rw [at_object_cons, at_object_cons, h, if_neg hn]

theorem placed_cons (henters : Enters members name inner)
    (hplaced : Placed names value (.object inner) (.object inner'))
    (h : ∀ n, getnValue members' n = if n = name then some (.object inner') else getnValue members n) :
    Placed (name :: names) value (.object members) (.object members') where
  below := fun more => by
    rw [List.cons_append, at_object_cons, h, if_pos rfl, Option.bind_some, hplaced.below]
  above := fun more hfront hne => by
    cases more with
    | nil => exact ⟨members', at_nil _⟩
    | cons n more =>
      obtain ⟨rfl, hmore⟩ := List.cons_prefix_cons.mp hfront
      rw [at_object_cons, h, if_pos rfl, Option.bind_some]
      exact hplaced.above more hmore fun heq => hne (heq ▸ rfl)
  beside := fun more hpath hmore => by
    cases more with
    | nil => exact absurd List.nil_prefix hmore
    | cons n more =>
      by_cases hn : n = name
      · subst hn
        rw [List.cons_prefix_cons, and_iff_right rfl] at hpath hmore
        have hne : more ≠ [] := fun heq => hmore (heq ▸ List.nil_prefix)
        rw [at_object_cons, h, if_pos rfl, Option.bind_some, hplaced.beside more hpath hmore,
          henters.at hne]
      · rw [at_object_cons, at_object_cons, h, if_neg hn]

end Placed

theorem dotgetValue_eq (members : Members ν) {names : List Str} (h : names ≠ []) :
    dotgetValue members names = (Value.object members).at names := by
  induction names generalizing members with
  | nil => exact absurd rfl h
  | cons name names ih =>
    rw [at_object_cons]
    cases names with
    | nil =>
      rw [dotgetValue]
      simp only [at_nil]
      exact (Option.bind_fun_some _).symm
    | cons name' names =>
      rw [dotgetValue]
      · cases getnValue members name with
        | none => rfl
        | some value =>
          rw [Option.bind_some]
          cases value with
          | object inner => exact ih inner (List.cons_ne_nil _ _)
          | _ => rfl
      · exact List.cons_ne_nil _ _

theorem dots_ne_nil (name : Str) : dots name ≠ [] := List.splitOn_ne_nil _ _

theorem jsonObjectDotgetValue_eq (members : Members ν) (name : Str) :
    jsonObjectDotgetValue members name = (Value.object members).at (dots name) :=
  dotgetValue_eq members (dots_ne_nil name)

/-! ## Setting -/

theorem dotsetValue_cons {members members' : Members ν} {name : Str} {names : List Str}
    {value : Value ν} (hne : names ≠ []) : dotsetValue members (name :: names) value = some members' ↔
      ∃ inner inner', Enters members name inner ∧ dotsetValue inner names value = some inner' ∧
        jsonObjectSetValue members name (some (.object inner')) = some members' := by
  rw [dotsetValue]
  · cases hget : getnValue members name with
    | none =>
      constructor
      · intro h
        obtain ⟨inner', hinner, hadd⟩ := Option.bind_eq_some_iff.mp h
        refine ⟨[], inner', .made hget, hinner, ?_⟩
        simpa only [jsonObjectSetValue, hget] using hadd
      · rintro ⟨inner, inner', henters, hinner, hset⟩
        cases henters with
        | found h => cases hget.symm.trans h
        | made =>
          simp only [hinner, Option.bind_some]
          simpa only [jsonObjectSetValue, hget] using hset
    | some u =>
      cases u with
      | object inner =>
        constructor
        · intro h
          obtain ⟨inner', hinner, hmembers⟩ := Option.map_eq_some_iff.mp h
          refine ⟨inner, inner', .found hget, hinner, ?_⟩
          simpa only [jsonObjectSetValue, hget, Option.some.injEq] using hmembers
        · rintro ⟨inner₀, inner', henters, hinner, hset⟩
          cases henters with
          | found h =>
            cases hget.symm.trans h
            simp only [hinner, Option.map_some]
            simpa only [jsonObjectSetValue, hget, Option.some.injEq] using hset
          | made h => cases hget.symm.trans h
      | _ =>
        refine iff_of_false (fun h => ?_) ?_
        · cases h
        rintro ⟨inner, inner', henters, -, -⟩
        cases henters with
        | found h => cases hget.symm.trans h
        | made h => cases hget.symm.trans h
  · exact hne

theorem placed_dotsetValue {members members' : Members ν} {names : List Str} {value : Value ν}
    (h : dotsetValue members names value = some members') :
    Placed names (some value) (.object members) (.object members') := by
  induction names generalizing members members' with
  | nil => cases h
  | cons name names ih =>
    cases names with
    | nil => exact placed_singleton fun n => getnValue_set h
    | cons name' names =>
      obtain ⟨inner, inner', henters, hinner, hset⟩ :=
        (dotsetValue_cons (List.cons_ne_nil _ _)).mp h
      exact placed_cons henters (ih hinner) fun n => getnValue_set hset

theorem blocked_cons {members : Members ν} {name : Str} {names : List Str} :
    Blocked (name :: names) (.object members) ↔
      ∃ value, getnValue members name = some value ∧ Blocked names value := by
  constructor
  · rintro ⟨more, u, hfront, hne, hu, hobject⟩
    cases more with
    | nil =>
      cases hu
      exact absurd rfl (hobject members)
    | cons n more =>
      obtain ⟨rfl, hmore⟩ := List.cons_prefix_cons.mp hfront
      rw [at_object_cons] at hu
      obtain ⟨value, hvalue, hu⟩ := Option.bind_eq_some_iff.mp hu
      exact ⟨value, hvalue, more, u, hmore, fun heq => hne (heq ▸ rfl), hu, hobject⟩
  · rintro ⟨value, hvalue, more, u, hfront, hne, hu, hobject⟩
    refine ⟨name :: more, u, List.cons_prefix_cons.mpr ⟨rfl, hfront⟩,
      fun heq => hne (List.cons.inj heq).2, ?_, hobject⟩
    rw [at_object_cons, hvalue, Option.bind_some, hu]

theorem not_blocked_nil (value : Value ν) : ¬ Blocked [] value := by
  rintro ⟨names, u, hfront, hne, -, -⟩
  exact hne (List.prefix_nil.mp hfront)

theorem not_blocked_empty (names : List Str) : ¬ Blocked names (.object ([] : Members ν)) := by
  rintro ⟨more, u, -, -, hu, hobject⟩
  cases more with
  | nil =>
    cases hu
    exact hobject [] rfl
  | cons name more =>
    rw [at_empty (List.cons_ne_nil _ _)] at hu
    cases hu

theorem blocked_of_not_object {value : Value ν} (h : ∀ members, value ≠ .object members)
    {names : List Str} (hne : names ≠ []) : Blocked names value :=
  ⟨[], value, List.nil_prefix, hne.symm, at_nil value, h⟩

theorem dotsetValue_eq_none_iff {members : Members ν} {names : List Str} {value : Value ν}
    (hne : names ≠ []) :
    dotsetValue members names value = none ↔ Blocked names (.object members) := by
  induction names generalizing members with
  | nil => exact absurd rfl hne
  | cons name names ih =>
    rw [blocked_cons]
    cases names with
    | nil =>
      rw [dotsetValue, jsonObjectSetValue_eq]
      refine iff_of_false (Option.some_ne_none _) ?_
      rintro ⟨u, -, hblocked⟩
      exact not_blocked_nil u hblocked
    | cons name' names =>
      have hset (inner' : Members ν) := jsonObjectSetValue_eq members name (.object inner')
      rw [Option.eq_none_iff_forall_ne_some]
      simp only [ne_eq, dotsetValue_cons (List.cons_ne_nil name' names), not_exists, not_and]
      cases hget : getnValue members name with
      | none =>
        constructor
        · intro h
          cases hinner : dotsetValue [] (name' :: names) value with
          | none => exact absurd ((ih (List.cons_ne_nil _ _)).mp hinner) (not_blocked_empty _)
          | some inner' => exact absurd (hset inner') (h _ [] inner' (.made hget) hinner)
        · rintro ⟨u, hu, -⟩
          cases hu
      | some u =>
        constructor
        · intro h
          refine ⟨u, rfl, ?_⟩
          by_cases hu : ∃ inner, u = .object inner
          · obtain ⟨inner, rfl⟩ := hu
            cases hinner : dotsetValue inner (name' :: names) value with
            | none => exact (ih (List.cons_ne_nil _ _)).mp hinner
            | some inner' => exact absurd (hset inner') (h _ inner inner' (.found hget) hinner)
          · exact blocked_of_not_object (fun inner heq => hu ⟨inner, heq⟩) (List.cons_ne_nil _ _)
        · rintro ⟨u', hu', hblocked⟩ members' inner inner' henters hinner -
          cases hu'
          cases henters with
          | found h =>
            cases hget.symm.trans h
            rw [(ih (List.cons_ne_nil _ _)).mpr hblocked] at hinner
            cases hinner
          | made h => cases hget.symm.trans h

/-- A value is put at its path, with objects made on the way, and nothing beside the path changes; or
something on the way is no object, and nothing changes at all. -/
theorem jsonObjectDotsetValue_places (members : Members ν) (name : Str) (value : Value ν) :
    Blocked (dots name) (.object members) ∧ jsonObjectDotsetValue members name (some value) = none ∨
      ¬ Blocked (dots name) (.object members) ∧ ∃ members',
        jsonObjectDotsetValue members name (some value) = some members' ∧
          jsonObjectDotgetValue members' name = some value ∧
          Placed (dots name) (some value) (.object members) (.object members') := by
  have hiff : jsonObjectDotsetValue members name (some value) = none ↔ Blocked (dots name) _ :=
    dotsetValue_eq_none_iff (dots_ne_nil name)
  cases h : jsonObjectDotsetValue members name (some value) with
  | none => exact .inl ⟨hiff.mp h, rfl⟩
  | some members' =>
    have hplaced : Placed (dots name) (some value) (.object members) (.object members') :=
      placed_dotsetValue h
    refine .inr ⟨fun hblocked => ?_, members', rfl, ?_, hplaced⟩
    · cases h.symm.trans (hiff.mpr hblocked)
    · have hbelow := hplaced.below []
      rwa [List.append_nil, Option.bind_some, at_nil, ← jsonObjectDotgetValue_eq] at hbelow

/-! ## Removing -/

theorem dotremove_cons {members members' : Members ν} {name : Str} {names : List Str}
    (hne : names ≠ []) : dotremove members (name :: names) = some members' ↔
      ∃ inner inner', getnValue members name = some (.object inner) ∧
        dotremove inner names = some inner' ∧ overwrite name (.object inner') members = members' := by
  rw [dotremove]
  · cases hget : getnValue members name with
    | none => exact iff_of_false nofun fun ⟨_, _, h, _⟩ => nomatch h
    | some u =>
      cases u with
      | object inner =>
        simp only [Option.map_eq_some_iff]
        constructor
        · rintro ⟨inner', hinner, rfl⟩
          exact ⟨inner, inner', rfl, hinner, rfl⟩
        · rintro ⟨inner₀, inner', heq, hinner, rfl⟩
          cases heq
          exact ⟨inner', hinner, rfl⟩
      | _ => exact iff_of_false nofun fun ⟨_, _, h, _⟩ => nomatch h
  · exact hne

theorem mem_names_of_getnValue {members : Members ν} {name : Str} {value : Value ν}
    (h : getnValue members name = some value) : name ∈ members.map Prod.fst :=
  List.mem_map.mpr ⟨_, mem_of_lookup_eq_some h, rfl⟩

theorem placed_dotremove {members members' : Members ν} {names : List Str}
    (hwell : (Value.object members).WellFormed) (h : dotremove members names = some members') :
    Placed names none (.object members) (.object members') := by
  induction names generalizing members members' with
  | nil => cases h
  | cons name names ih =>
    obtain ⟨hnodup, -, hvalues⟩ := Value.wellFormed_object.mp hwell
    cases names with
    | nil => exact placed_singleton fun n => getnValue_remove hnodup h
    | cons name' names =>
      obtain ⟨inner, inner', hget, hinner, rfl⟩ := (dotremove_cons (List.cons_ne_nil _ _)).mp h
      have hwell' : (Value.object inner).WellFormed := hvalues _ (mem_of_lookup_eq_some hget)
      exact placed_cons (.found hget) (ih hwell' hinner) fun n =>
        lookup_overwrite (mem_names_of_getnValue hget)

theorem dotremove_eq_none_iff {members : Members ν} {names : List Str} (hne : names ≠ []) :
    dotremove members names = none ↔ (Value.object members).at names = none := by
  induction names generalizing members with
  | nil => exact absurd rfl hne
  | cons name names ih =>
    rw [at_object_cons]
    cases names with
    | nil =>
      simp only [at_nil]
      rw [dotremove, jsonObjectRemove_eq_none_iff, Option.bind_fun_some]
    | cons name' names =>
      rw [dotremove]
      · cases getnValue members name with
        | none => exact iff_of_true rfl rfl
        | some u =>
          rw [Option.bind_some]
          cases u with
          | object inner =>
            rw [Option.map_eq_none_iff]
            exact ih (List.cons_ne_nil _ _)
          | _ => exact iff_of_true rfl rfl
      · exact List.cons_ne_nil _ _

/-- What is found at a path is taken away, and nothing beside the path changes; what is not found is
not taken away.  The order of the members may change, and no name is there twice. -/
theorem jsonObjectDotremove_places {members : Members ν} (h : (Value.object members).WellFormed)
    (name : Str) :
    jsonObjectDotgetValue members name = none ∧ jsonObjectDotremove members name = none ∨
      ∃ value members', jsonObjectDotgetValue members name = some value ∧
        jsonObjectDotremove members name = some members' ∧
        Placed (dots name) none (.object members) (.object members') := by
  have hiff : jsonObjectDotremove members name = none ↔ _ :=
    dotremove_eq_none_iff (dots_ne_nil name)
  rw [← jsonObjectDotgetValue_eq] at hiff
  cases hremove : jsonObjectDotremove members name with
  | none => exact .inl ⟨hiff.mp hremove, rfl⟩
  | some members' =>
    obtain ⟨value, hvalue⟩ := Option.ne_none_iff_exists'.mp
      (mt hiff.mpr (hremove ▸ Option.some_ne_none members'))
    exact .inr ⟨value, members', hvalue, rfl, placed_dotremove h hremove⟩

def nested : Members Empty := [([97], .object [([98], .null), ([99], .null)])]

theorem jsonObjectDotremove_places_nested :
    jsonObjectDotgetValue nested (ascii "a.b") = none ∧
      jsonObjectDotremove nested (ascii "a.b") = none ∨
      ∃ value members', jsonObjectDotgetValue nested (ascii "a.b") = some value ∧
        jsonObjectDotremove nested (ascii "a.b") = some members' ∧
        Placed (dots (ascii "a.b")) none (.object nested) (.object members') := by
  have hinner : (Value.object [([98], .null), ([99], (.null : Value Empty))]).WellFormed := by
    refine Value.wellFormed_object.mpr ⟨by decide, by decide, List.forall_mem_cons.mpr ⟨nofun, ?_⟩⟩
    exact List.forall_mem_singleton.mpr nofun
  exact jsonObjectDotremove_places (Value.wellFormed_object.mpr ⟨by decide, by decide,
    List.forall_mem_singleton.mpr hinner⟩) _

end PCom.Library.Json
