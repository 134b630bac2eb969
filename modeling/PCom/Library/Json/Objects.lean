import Mathlib.Data.Set.Card
import PCom.Lib.Association
import PCom.Lib.Refinement
import PCom.Library.Json.Parser
import PCom.Library.Json.Utf8

/-! The objects of `parson.c`: two arrays that are searched from the front, and a finite map for
whoever calls. -/

namespace PCom.Library.Json

open Lib

variable {ν : Type}

abbrev Members (ν : Type) := List (Str × Value ν)

/-- `string` is the memory from a pointer on. -/
def jsonValueInitStringWithLen (string : Nat → Byte) (length : Nat) : Option (Value ν) :=
  if isValidUtf8 string length then some (.string (bytes string length)) else none

def jsonValueInitString (string : Str) : Option (Value ν) :=
  jsonValueInitStringWithLen (terminated string) string.length

def jsonValueInitNumber (number : Option ν) : Option (Value ν) := number.map .number

/-- `none` for `JSONFailure`.  Values that have a parent already are not given to it. -/
def jsonObjectSetValue (members : Members ν) (name : Str) :
    Option (Value ν) → Option (Members ν)
  | none => none
  | some value =>
    match getnValue members name with
    | some _ => some (overwrite name value members)
    | none => objectAdd members name value

def jsonObjectSetString (members : Members ν) (name string : Str) : Option (Members ν) :=
  jsonObjectSetValue members name (jsonValueInitString string)

def jsonObjectSetNumber (members : Members ν) (name : Str) (number : Option ν) :
    Option (Members ν) :=
  jsonObjectSetValue members name (jsonValueInitNumber number)

def jsonObjectSetBoolean (members : Members ν) (name : Str) (boolean : Bool) : Option (Members ν) :=
  jsonObjectSetValue members name (some (.boolean boolean))

def jsonObjectSetNull (members : Members ν) (name : Str) : Option (Members ν) :=
  jsonObjectSetValue members name (some .null)

def jsonObjectRemove (members : Members ν) (name : Str) : Option (Members ν) :=
  match getnValue members name with
  | none => none
  | some _ => (members.findIdx? fun m => m.1 = name).map fun i => swapRemove i members

inductive ObjectCall (ν : Type)
  | set (name : Str) (value : Option (Value ν))
  | remove (name : Str)
  | clear
  | get (name : Str)
  | count

inductive ObjectAnswer (ν : Type)
  | success
  | failure
  | value (value : Option (Value ν))
  | count (count : Nat)

/-- A call that fails leaves the object as it is. -/
def statusOf (members : Members ν) : Option (Members ν) → ObjectAnswer ν × Members ν
  | none => (.failure, members)
  | some members => (.success, members)

def objectCall (members : Members ν) : ObjectCall ν → Except Empty (ObjectAnswer ν × Members ν)
  | .set name value => .ok (statusOf members (jsonObjectSetValue members name value))
  | .remove name => .ok (statusOf members (jsonObjectRemove members name))
  | .clear => .ok (.success, [])
  | .get name => .ok (.value (getnValue members name), members)
  | .count => .ok (.count members.length, members)

noncomputable def mapCall (map : Str → Option (Value ν)) :
    ObjectCall ν → Except Empty (ObjectAnswer ν × (Str → Option (Value ν)))
  | .set _ none => .ok (.failure, map)
  | .set name (some value) => .ok (.success, Function.update map name (some value))
  | .remove name =>
    match map name with
    | none => .ok (.failure, map)
    | some _ => .ok (.success, Function.update map name none)
  | .clear => .ok (.success, fun _ => none)
  | .get name => .ok (.value (map name), map)
  | .count => .ok (.count {name | map name ≠ none}.ncard, map)

/-- The names are all different, and the values found are those of the map. -/
structure Represents (members : Members ν) (map : Str → Option (Value ν)) : Prop where
  nodup : (members.map Prod.fst).Nodup
  getnValue : ∀ name, getnValue members name = map name

section Set

variable {members members' : Members ν} {name name' : Str} {value : Value ν}

theorem jsonObjectSetValue_eq (members : Members ν) (name : Str) (value : Value ν) :
    jsonObjectSetValue members name (some value) =
      some (if name ∈ members.map Prod.fst then overwrite name value members
        else members ++ [(name, value)]) := by
  rw [jsonObjectSetValue]
  cases h : getnValue members name with
  | none =>
    have hname : name ∉ members.map Prod.fst := lookup_eq_none_iff.mp h
    rw [if_neg hname]
    simp only [objectAdd, h]
  | some _ =>
    have hname : name ∈ members.map Prod.fst := by
      by_contra hname
      rw [show getnValue members name = none from lookup_eq_none_iff.mpr hname] at h
      cases h
    rw [if_pos hname]

theorem getnValue_set (h : jsonObjectSetValue members name (some value) = some members') :
    getnValue members' name' = if name' = name then some value else getnValue members name' := by
  rw [jsonObjectSetValue_eq, Option.some.injEq] at h
  subst h
  split
  next hname => exact lookup_overwrite hname
  next hname => exact lookup_snoc hname

theorem nodup_set (hnodup : (members.map Prod.fst).Nodup)
    (h : jsonObjectSetValue members name (some value) = some members') :
    (members'.map Prod.fst).Nodup := by
  rw [jsonObjectSetValue_eq, Option.some.injEq] at h
  subst h
  split
  next => rwa [keys_overwrite]
  next hname =>
    rw [List.map_append, List.map_singleton]
    refine List.nodup_append.mpr ⟨hnodup, List.nodup_singleton _, fun n hn n' hn' => ?_⟩
    rw [List.mem_singleton.mp hn']
    rintro rfl
    exact hname hn

end Set

section Remove

variable {members members' : Members ν} {name name' : Str}

theorem exists_index_of_remove (h : jsonObjectRemove members name = some members') : ∃ i,
    members.findIdx? (fun m => m.1 = name) = some i ∧ members' = swapRemove i members ∧
      i < members.length := by
  rw [jsonObjectRemove] at h
  split at h
  next => cases h
  next =>
    obtain ⟨i, hi, rfl⟩ := Option.map_eq_some_iff.mp h
    exact ⟨i, hi, rfl, (List.findIdx?_eq_some_iff_findIdx_eq.mp hi).1⟩

theorem jsonObjectRemove_eq_none_iff :
    jsonObjectRemove members name = none ↔ getnValue members name = none := by
  rw [jsonObjectRemove]
  cases h : getnValue members name with
  | none => exact iff_of_true rfl rfl
  | some value =>
    refine iff_of_false (fun hnone => ?_) (Option.some_ne_none _)
    have hmem : (name, value) ∈ members := mem_of_lookup_eq_some h
    have hnot := List.findIdx?_eq_none_iff.mp (Option.map_eq_none_iff.mp hnone) _ hmem
    exact of_decide_eq_false hnot rfl

theorem getnValue_remove (hnodup : (members.map Prod.fst).Nodup)
    (h : jsonObjectRemove members name = some members') :
    getnValue members' name' = if name' = name then none else getnValue members name' := by
  obtain ⟨i, hi, rfl, -⟩ := exists_index_of_remove h
  exact lookup_swapRemove hnodup hi

theorem nodup_remove (hnodup : (members.map Prod.fst).Nodup)
    (h : jsonObjectRemove members name = some members') : (members'.map Prod.fst).Nodup := by
  obtain ⟨i, -, rfl, hlt⟩ := exists_index_of_remove h
  exact nodup_swapRemove hnodup hlt

end Remove

namespace Represents

variable {members : Members ν} {map : Str → Option (Value ν)}

theorem ncard (h : Represents members map) : {name | map name ≠ none}.ncard = members.length := by
  have hnames : {name | map name ≠ none} = ↑(members.map Prod.fst).toFinset := by
    ext name
    rw [Set.mem_ofPred_eq, ← h.getnValue, Finset.mem_coe, List.mem_toFinset]
    exact (not_congr lookup_eq_none_iff).trans not_not
  rw [hnames, Set.ncard_coe_finset, List.toFinset_card_of_nodup h.nodup, List.length_map]

theorem simulates : Simulates (@Represents ν) objectCall mapCall := by
  intro members map h call
  cases call with
  | set name value =>
    cases value with
    | none => exact .ok h
    | some value =>
      have hset := jsonObjectSetValue_eq members name value
      rw [objectCall, mapCall, hset]
      refine .ok ⟨nodup_set h.nodup hset, fun name' => ?_⟩
      rw [getnValue_set hset, Function.update_apply, h.getnValue]
  | remove name =>
    cases hget : map name with
    | none =>
      have hnone := jsonObjectRemove_eq_none_iff.mpr ((h.getnValue name).trans hget)
      simp only [objectCall, mapCall, hnone, hget]
      exact .ok h
    | some value =>
      cases hremove : jsonObjectRemove members name with
      | none =>
        rw [jsonObjectRemove_eq_none_iff, h.getnValue, hget] at hremove
        cases hremove
      | some members' =>
        simp only [objectCall, mapCall, hremove, hget]
        refine .ok ⟨nodup_remove h.nodup hremove, fun name' => ?_⟩
        rw [getnValue_remove h.nodup hremove, Function.update_apply, h.getnValue]
  | clear => exact .ok ⟨List.nodup_nil, fun _ => rfl⟩
  | get name =>
    rw [objectCall, mapCall, h.getnValue]
    exact .ok h
  | count =>
    rw [objectCall, mapCall, h.ncard]
    exact .ok h

end Represents

/-- Whatever is called, an object whose names are all different answers like the map of its values. -/
theorem answers_objectCall {members : Members ν} (h : (members.map Prod.fst).Nodup)
    (calls : List (ObjectCall ν)) :
    answers objectCall members calls = answers mapCall (getnValue members) calls :=
  Represents.simulates.answers_eq ⟨h, fun _ => rfl⟩ calls

def pair : Members Empty := [([97], .null), ([98], .boolean true)]

theorem answers_objectCall_pair : answers objectCall pair [.remove [97], .count, .get [98]] =
    answers mapCall (getnValue pair) [.remove [97], .count, .get [98]] :=
  answers_objectCall (by decide) _

end PCom.Library.Json
