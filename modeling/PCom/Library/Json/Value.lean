import PCom.Library.Requests

/-! The trees of `parson.c`.  Numbers are of a type of their own: doubles for the functions of the
library, the characters of a numeral where only the text counts. -/

namespace PCom.Library.Json

open Lib

/-- A `JSON_Value` without the link to its parent.  A string has a length of its own and may hold
zeros, the names of members are C strings. -/
inductive Value (ν : Type)
  | null
  | boolean (boolean : Bool)
  | number (number : ν)
  | string (chars : Str)
  | array (items : List (Value ν))
  | object (members : List (Str × Value ν))

namespace Value

variable {ν μ ξ : Type}

@[elab_as_elim, induction_eliminator]
theorem induction {P : Value ν → Prop} (null : P .null) (boolean : ∀ b, P (.boolean b))
    (number : ∀ n, P (.number n)) (string : ∀ chars, P (.string chars))
    (array : ∀ items, (∀ v ∈ items, P v) → P (.array items))
    (object : ∀ members, (∀ m ∈ members, P m.2) → P (.object members)) (v : Value ν) : P v :=
  @Value.rec ν P (fun items => ∀ v ∈ items, P v) (fun members => ∀ m ∈ members, P m.2)
    (fun m => P m.2) null boolean number string array object (List.forall_mem_nil _)
    (fun _ _ hv hvs => List.forall_mem_cons.mpr ⟨hv, hvs⟩) (List.forall_mem_nil _)
    (fun _ _ hm hms => List.forall_mem_cons.mpr ⟨hm, hms⟩) (fun _ _ hv => hv) v

mutual

/-- How many arrays and objects are around the innermost value. -/
def depth : Value ν → Nat
  | .array items => depthItems items
  | .object members => depthMembers members
  | _ => 0

def depthItems : List (Value ν) → Nat
  | [] => 0
  | v :: items => max (v.depth + 1) (depthItems items)

def depthMembers : List (Str × Value ν) → Nat
  | [] => 0
  | (_, v) :: members => max (v.depth + 1) (depthMembers members)

end

mutual

/-- Another type of numbers, where each number has a counterpart in it. -/
def convert (f : ν → Option μ) : Value ν → Option (Value μ)
  | .null => some .null
  | .boolean b => some (.boolean b)
  | .number n => (f n).map .number
  | .string chars => some (.string chars)
  | .array items => (convertItems f items).map .array
  | .object members => (convertMembers f members).map .object

def convertItems (f : ν → Option μ) : List (Value ν) → Option (List (Value μ))
  | [] => some []
  | v :: items => (v.convert f).bind fun v => (convertItems f items).map (v :: ·)

def convertMembers (f : ν → Option μ) : List (Str × Value ν) → Option (List (Str × Value μ))
  | [] => some []
  | (name, v) :: members =>
    (v.convert f).bind fun v => (convertMembers f members).map ((name, v) :: ·)

end

mutual

def map (f : ν → μ) : Value ν → Value μ
  | .null => .null
  | .boolean b => .boolean b
  | .number n => .number (f n)
  | .string chars => .string chars
  | .array items => .array (mapItems f items)
  | .object members => .object (mapMembers f members)

def mapItems (f : ν → μ) : List (Value ν) → List (Value μ)
  | [] => []
  | v :: items => v.map f :: mapItems f items

def mapMembers (f : ν → μ) : List (Str × Value ν) → List (Str × Value μ)
  | [] => []
  | (name, v) :: members => (name, v.map f) :: mapMembers f members

end

inductive Within (u : Value ν) : Value ν → Prop
  | whole : Within u u
  | item {items : List (Value ν)} {v : Value ν} : v ∈ items → Within u v → Within u (.array items)
  | member {members : List (Str × Value ν)} {m : Str × Value ν} :
    m ∈ members → Within u m.2 → Within u (.object members)

/-- The objects that `parson.c` can build: names are strings, and no two members of an object have
the same. -/
def WellFormed (v : Value ν) : Prop :=
  ∀ members, Within (.object members) v →
    (members.map Prod.fst).Nodup ∧ ∀ m ∈ members, 0#8 ∉ m.1

def AllNumbers (p : ν → Prop) (v : Value ν) : Prop := ∀ n, Within (.number n) v → p n

theorem mapItems_eq (f : ν → μ) (items : List (Value ν)) : mapItems f items = items.map (map f) := by
  induction items with
  | nil => rfl
  | cons v items ih => rw [mapItems, ih, List.map_cons]

theorem mapMembers_eq (f : ν → μ) (members : List (Str × Value ν)) :
    mapMembers f members = members.map fun m => (m.1, m.2.map f) := by
  induction members with
  | nil => rfl
  | cons m members ih => rw [mapMembers, ih, List.map_cons]

theorem depthItems_le_iff {items : List (Value ν)} {n : Nat} :
    depthItems items ≤ n ↔ ∀ v ∈ items, v.depth < n := by
  induction items with
  | nil => simp [depthItems]
  | cons v items ih => rw [depthItems, max_le_iff, ih, List.forall_mem_cons, Nat.succ_le_iff]

theorem depthMembers_le_iff {members : List (Str × Value ν)} {n : Nat} :
    depthMembers members ≤ n ↔ ∀ m ∈ members, m.2.depth < n := by
  induction members with
  | nil => simp [depthMembers]
  | cons m members ih => rw [depthMembers, max_le_iff, ih, List.forall_mem_cons, Nat.succ_le_iff]

theorem convertItems_cons {f : ν → Option μ} {v : Value ν} {items : List (Value ν)}
    {ws : List (Value μ)} : convertItems f (v :: items) = some ws ↔
      ∃ w ws', v.convert f = some w ∧ convertItems f items = some ws' ∧ ws = w :: ws' := by
  rw [convertItems, Option.bind_eq_some_iff]
  simp only [Option.map_eq_some_iff]
  constructor
  · rintro ⟨w, hw, ws', hws, rfl⟩
    exact ⟨w, ws', hw, hws, rfl⟩
  · rintro ⟨w, ws', hw, hws, rfl⟩
    exact ⟨w, hw, ws', hws, rfl⟩

theorem convertMembers_cons {f : ν → Option μ} {m : Str × Value ν} {members : List (Str × Value ν)}
    {ws : List (Str × Value μ)} : convertMembers f (m :: members) = some ws ↔
      ∃ w ws', m.2.convert f = some w ∧ convertMembers f members = some ws' ∧
        ws = (m.1, w) :: ws' := by
  rw [convertMembers, Option.bind_eq_some_iff]
  simp only [Option.map_eq_some_iff]
  constructor
  · rintro ⟨w, hw, ws', hws, rfl⟩
    exact ⟨w, ws', hw, hws, rfl⟩
  · rintro ⟨w, ws', hw, hws, rfl⟩
    exact ⟨w, hw, ws', hws, rfl⟩

theorem convertMembers_names {f : ν → Option μ} {members : List (Str × Value ν)}
    {ws : List (Str × Value μ)} (h : convertMembers f members = some ws) :
    ws.map Prod.fst = members.map Prod.fst := by
  induction members generalizing ws with
  | nil =>
    cases h
    rfl
  | cons m members ih =>
    obtain ⟨w, ws', -, hws, rfl⟩ := convertMembers_cons.mp h
    rw [List.map_cons, List.map_cons, ih hws]

theorem convert_map (f : μ → Option ξ) (g : ν → μ) (v : Value ν) :
    (v.map g).convert f = v.convert fun n => f (g n) := by
  induction v with
  | null | boolean b | string chars => rfl
  | number n => rfl
  | array items ih =>
    have hitems : convertItems f (mapItems g items) = convertItems (fun n => f (g n)) items := by
      induction items with
      | nil => rfl
      | cons v items ihs =>
        obtain ⟨hv, hvs⟩ := List.forall_mem_cons.mp ih
        rw [mapItems, convertItems, convertItems, hv, ihs hvs]
    rw [map, convert, convert, hitems]
  | object members ih =>
    have hmembers : convertMembers f (mapMembers g members)
        = convertMembers (fun n => f (g n)) members := by
      induction members with
      | nil => rfl
      | cons m members ihs =>
        obtain ⟨hv, hvs⟩ := List.forall_mem_cons.mp ih
        rw [mapMembers, convertMembers, convertMembers, hv, ihs hvs]
    rw [map, convert, convert, hmembers]

theorem depth_map (f : ν → μ) (v : Value ν) : (v.map f).depth = v.depth := by
  induction v with
  | null | boolean b | number n | string chars => rfl
  | array items ih =>
    have hitems : depthItems (mapItems f items) = depthItems items := by
      induction items with
      | nil => rfl
      | cons v items ihs =>
        obtain ⟨hv, hvs⟩ := List.forall_mem_cons.mp ih
        rw [mapItems, depthItems, depthItems, hv, ihs hvs]
    rw [map, depth, depth, hitems]
  | object members ih =>
    have hmembers : depthMembers (mapMembers f members) = depthMembers members := by
      induction members with
      | nil => rfl
      | cons m members ihs =>
        obtain ⟨hv, hvs⟩ := List.forall_mem_cons.mp ih
        rw [mapMembers, depthMembers, depthMembers, hv, ihs hvs]
    rw [map, depth, depth, hmembers]

theorem allNumbers_number {p : ν → Prop} {n : ν} : AllNumbers p (.number n) ↔ p n := by
  constructor
  · exact fun h => h n .whole
  · intro hn m hm
    cases hm
    exact hn

theorem allNumbers_array {p : ν → Prop} {items : List (Value ν)} :
    AllNumbers p (.array items) ↔ ∀ v ∈ items, AllNumbers p v := by
  constructor
  · exact fun h v hv n hn => h n (.item hv hn)
  · intro h n hn
    cases hn with
    | item hv hn => exact h _ hv n hn

theorem allNumbers_object {p : ν → Prop} {members : List (Str × Value ν)} :
    AllNumbers p (.object members) ↔ ∀ m ∈ members, AllNumbers p m.2 := by
  constructor
  · exact fun h m hm n hn => h n (.member hm hn)
  · intro h n hn
    cases hn with
    | member hm hn => exact h _ hm n hn

theorem wellFormed_array {items : List (Value ν)} :
    WellFormed (.array items) ↔ ∀ v ∈ items, v.WellFormed := by
  constructor
  · exact fun h v hv members hm => h members (.item hv hm)
  · intro h members hm
    cases hm with
    | item hv hm => exact h _ hv members hm

theorem wellFormed_object {members : List (Str × Value ν)} :
    WellFormed (.object members) ↔ (members.map Prod.fst).Nodup ∧ (∀ m ∈ members, 0#8 ∉ m.1) ∧
      ∀ m ∈ members, m.2.WellFormed := by
  constructor
  · intro h
    obtain ⟨hnames, hzero⟩ := h members .whole
    exact ⟨hnames, hzero, fun m hm members' hm' => h members' (.member hm hm')⟩
  · rintro ⟨hnames, hzero, h⟩ members' hm'
    cases hm' with
    | whole => exact ⟨hnames, hzero⟩
    | member hm hm' => exact h _ hm members' hm'

theorem allNumbers_map {f : ν → μ} {p : μ → Prop} {v : Value ν} :
    (v.map f).AllNumbers p ↔ v.AllNumbers fun n => p (f n) := by
  induction v with
  | null | boolean b | string chars => exact iff_of_true nofun nofun
  | number n => rw [map, allNumbers_number, allNumbers_number]
  | array items ih =>
    rw [map, mapItems_eq, allNumbers_array, allNumbers_array, List.forall_mem_map]
    exact forall₂_congr ih
  | object members ih =>
    rw [map, mapMembers_eq, allNumbers_object, allNumbers_object, List.forall_mem_map]
    exact forall₂_congr ih

theorem wellFormed_map {f : ν → μ} {v : Value ν} : (v.map f).WellFormed ↔ v.WellFormed := by
  induction v with
  | null | boolean b | number n | string chars => exact iff_of_true nofun nofun
  | array items ih =>
    rw [map, mapItems_eq, wellFormed_array, wellFormed_array, List.forall_mem_map]
    exact forall₂_congr ih
  | object members ih =>
    rw [map, mapMembers_eq, wellFormed_object, wellFormed_object, List.forall_mem_map,
      List.forall_mem_map, List.map_map]
    exact and_congr Iff.rfl (and_congr Iff.rfl (forall₂_congr ih))

theorem convert_keeps {f : ν → Option μ} {v : Value ν} {u : Value μ} (h : v.convert f = some u) :
    u.depth = v.depth ∧ (v.WellFormed → u.WellFormed) := by
  induction v generalizing u with
  | null | boolean b | string chars =>
    cases h
    exact ⟨rfl, fun _ members hm => by cases hm⟩
  | number n =>
    obtain ⟨m, -, rfl⟩ := Option.map_eq_some_iff.mp h
    exact ⟨rfl, fun _ members hm => by cases hm⟩
  | array items ih =>
    obtain ⟨us, hus, rfl⟩ := Option.map_eq_some_iff.mp h
    have hitems : depthItems us = depthItems items ∧
        ((∀ v ∈ items, v.WellFormed) → ∀ u ∈ us, u.WellFormed) := by
      clear h
      induction items generalizing us with
      | nil =>
        cases hus
        exact ⟨rfl, fun _ => List.forall_mem_nil _⟩
      | cons v items ihs =>
        obtain ⟨hv, hvs⟩ := List.forall_mem_cons.mp ih
        obtain ⟨w, ws, hw, hws, rfl⟩ := convertItems_cons.mp hus
        obtain ⟨hdepth, hwell⟩ := ihs hvs ws hws
        rw [depthItems, depthItems, (hv hw).1, hdepth, List.forall_mem_cons, List.forall_mem_cons]
        exact ⟨rfl, And.imp (hv hw).2 hwell⟩
    rw [wellFormed_array, wellFormed_array]
    exact hitems
  | object members ih =>
    obtain ⟨us, hus, rfl⟩ := Option.map_eq_some_iff.mp h
    have hmembers : depthMembers us = depthMembers members ∧
        ((∀ m ∈ members, 0#8 ∉ m.1) → ∀ m ∈ us, 0#8 ∉ m.1) ∧
        ((∀ m ∈ members, m.2.WellFormed) → ∀ m ∈ us, m.2.WellFormed) := by
      clear h
      induction members generalizing us with
      | nil =>
        cases hus
        exact ⟨rfl, fun _ => List.forall_mem_nil _, fun _ => List.forall_mem_nil _⟩
      | cons m members ihs =>
        obtain ⟨hm, hms⟩ := List.forall_mem_cons.mp ih
        obtain ⟨w, ws, hw, hws, rfl⟩ := convertMembers_cons.mp hus
        obtain ⟨hdepth, hzero, hwell⟩ := ihs hms ws hws
        rw [depthMembers, depthMembers, (hm hw).1, hdepth]
        simp only [List.forall_mem_cons]
        exact ⟨trivial, And.imp_right hzero, And.imp (hm hw).2 hwell⟩
    rw [wellFormed_object, wellFormed_object, convertMembers_names hus]
    exact ⟨hmembers.1, fun ⟨hnodup, hzero, hwell⟩ =>
      ⟨hnodup, hmembers.2.1 hzero, hmembers.2.2 hwell⟩⟩

theorem convert_eq_some_self {f : ν → Option ν} {v : Value ν} :
    v.convert f = some v ↔ v.AllNumbers fun n => f n = some n := by
  induction v with
  | null | boolean b | string chars =>
    refine iff_of_true rfl fun n hn => ?_
    cases hn
  | number n => simp [convert, allNumbers_number]
  | array items ih =>
    rw [allNumbers_array, convert]
    have hitems : convertItems f items = some items ↔
        ∀ v ∈ items, v.AllNumbers fun n => f n = some n := by
      induction items with
      | nil => simp [convertItems]
      | cons v items ihs =>
        obtain ⟨hv, hvs⟩ := List.forall_mem_cons.mp ih
        rw [convertItems_cons, List.forall_mem_cons, ← hv, ← ihs hvs]
        constructor
        · rintro ⟨w, ws, hw, hws, heq⟩
          cases heq
          exact ⟨hw, hws⟩
        · exact fun h => ⟨v, items, h.1, h.2, rfl⟩
    simpa using hitems
  | object members ih =>
    rw [allNumbers_object, convert]
    have hmembers : convertMembers f members = some members ↔
        ∀ m ∈ members, m.2.AllNumbers fun n => f n = some n := by
      induction members with
      | nil => simp [convertMembers]
      | cons m members ihs =>
        obtain ⟨name, u⟩ := m
        obtain ⟨hv, hvs⟩ := List.forall_mem_cons.mp ih
        rw [convertMembers_cons, List.forall_mem_cons, ← hv, ← ihs hvs]
        constructor
        · rintro ⟨w, ws, hw, hws, heq⟩
          cases heq
          exact ⟨hw, hws⟩
        · exact fun h => ⟨u, members, h.1, h.2, rfl⟩
    simpa using hmembers

end Value

end PCom.Library.Json
