import PCom.Lib.GrowingArray
import PCom.Lib.Refinement
import PCom.Router.HeldPackets
import PCom.Router.RouteFile

/-! The tables of `router.c` in memory.  Their arrays grow by one slot at a time and double, and what
is looked up in them is what the lists of their entries answer. -/

namespace PCom.Router

open Lib

inductive ArpCall
  | addToArptable (ip : Word32) (mac : Mac)
  | getMac (ip : Word32)

def arptableCall (table : GrowingArray ArptableEntry) :
    ArpCall → Except MemoryFault (Option ArptableEntry × GrowingArray ArptableEntry)
  | .addToArptable ip mac => do
    let table ← table.add ⟨ip, mac⟩
    return (none, table)
  | .getMac ip => do
    let entry ← table.find fun entry => entry.ip = ip
    return (entry, table)

/-- The same on the list, with the last entry that there is room for. -/
def arpListCall (table : List ArptableEntry) :
    ArpCall → Except MemoryFault (Option ArptableEntry × List ArptableEntry)
  | .addToArptable ip mac =>
    if table.length + 1 = 2 ^ 30 then .error .outOfMemory
    else .ok (none, addToArptable table ip mac)
  | .getMac ip => .ok (getMac table ip, table)

theorem simulates_arpListCall :
    Simulates (fun v as => GrowingArray.Holds v as) arptableCall arpListCall := by
  intro v as h call
  cases call with
  | addToArptable ip mac =>
    have hadd := h.add (a := ⟨ip, mac⟩)
    rw [arptableCall, arpListCall]
    split at hadd
    next hfull =>
      rw [hadd, if_pos hfull]
      exact .error
    next hfull =>
      obtain ⟨v', hv', hholds⟩ := hadd
      rw [hv', if_neg hfull]
      exact .ok hholds
  | getMac ip =>
    rw [arptableCall, h.find]
    exact .ok h

/-- From the empty table on, every sequence of calls is answered as if the table were a list, up to
the entry for which the capacity cannot be doubled any more. -/
theorem answers_arptableCall (calls : List ArpCall) :
    answers arptableCall .init calls = answers arpListCall [] calls :=
  simulates_arpListCall.answers_eq GrowingArray.holds_init calls

abbrev RtableArrays := Fin 33 → GrowingArray RtableEntry

namespace RtableArrays

def init : RtableArrays := fun _ => .init

def add (rt : RtableArrays) (e : RtableEntry) : Option RtableArrays := do
  let idx ← getPrefixLength e.mask
  if h : idx < 33 then
    let b ← ((rt ⟨idx, h⟩).add e).toOption
    return Function.update rt ⟨idx, h⟩ b
  else none

def parseLoop : Nat → RtableArrays → Fields → List Char → Option RtableArrays
  | 0, _, _, _ => none
  | fuel + 1, rt, f, s => do
    let (f, s) ← fscanfRoute f s
    let rt ← rt.add f.entry
    if s = [] then some rt else parseLoop fuel rt f s

def sortBucket (qsort : Qsort RtableEntry) (b : GrowingArray RtableEntry) :
    Option (GrowingArray RtableEntry) :=
  if b.size ≠ 0 then (b.sort qsort entryCompare).toOption else some b

def sortBuckets (qsort : Qsort RtableEntry) : List (Fin 33) → RtableArrays → Option RtableArrays
  | [], rt => some rt
  | i :: is, rt => do
    let b ← sortBucket qsort (rt i)
    sortBuckets qsort is (Function.update rt i b)

def parseRtable (qsort : Qsort RtableEntry) (f : Fields) (file : List Char) :
    Option RtableArrays :=
  (parseLoop (file.length + 1) init f file).bind (sortBuckets qsort (List.finRange 33))

def searchLoop (b : GrowingArray RtableEntry) (toMatch : Word32) :
    Nat → Int → Int → Except Fault (Option RtableEntry)
  | 0, _, _ => .error .endless
  | fuel + 1, left, right =>
    if left ≤ right then
      let mid := (wrapInt (left + right)).tdiv 2
      match (b.entries.read mid).toOption with
      | none => .error .badIndex
      | some e =>
        if toMatch = e.pfx then .ok (some e) else
        let right' := if toMatch < e.pfx then wrapInt (mid - 1) else right
        let left' := if toMatch > e.pfx then wrapInt (mid + 1) else left
        searchLoop b toMatch fuel left' right'
    else .ok none

def searchBucket (b : GrowingArray RtableEntry) (toMatch : Word32) :
    Except Fault (Option RtableEntry) :=
  if b.size ≠ 0 then searchLoop b toMatch (b.size.toNat + 1) 0 (wrapInt (b.size - 1))
  else .ok none

def searchBuckets (rt : RtableArrays) (destIp : Word32) :
    List (Fin 33) → Except Fault (Option RtableEntry)
  | [] => .ok none
  | i :: is => do
    match ← searchBucket (rt i) (destIp &&& getSubnetMask i) with
    | some e => .ok (some e)
    | none => searchBuckets rt destIp is

def getBestRoute (rt : RtableArrays) (destIp : Word32) : Except Fault (Option RtableEntry) :=
  searchBuckets rt destIp (List.finRange 33).reverse

end RtableArrays

structure Stores (v : GrowingArray RtableEntry) (b : Bucket) : Prop where
  holds : v.Holds b.entries
  doubled : b.Doubled

theorem stores_empty : Stores .init .empty where
  holds := GrowingArray.holds_init
  doubled := ⟨0, rfl⟩

theorem Bucket.Doubled.add_eq_none_iff {b : Bucket} (h : b.Doubled) (e : RtableEntry) :
    b.add e = none ↔ b.entries.length + 1 = 2 ^ 30 := by
  have hlt := b.size_lt
  have hle := b.capacity_le
  constructor
  · intro hnone
    by_contra hne
    obtain ⟨b', hb'⟩ := h.exists_add (by omega) e
    cases hnone.symm.trans hb'
  · intro hfull
    rw [Bucket.add, dif_pos (by omega), dif_neg (by omega)]

namespace Stores

variable {v : GrowingArray RtableEntry} {b : Bucket} {rt : RtableArrays} {rt' : Rtable}

theorem add (h : Stores v b) (e : RtableEntry) :
    Option.Rel Stores (v.add e).toOption (b.add e) := by
  have hadd := h.holds.add (a := e)
  split at hadd
  next hfull =>
    rw [hadd, (h.doubled.add_eq_none_iff e).mpr hfull]
    exact .none
  next hfull =>
    obtain ⟨v', hv', hholds⟩ := hadd
    obtain ⟨b', hb'⟩ := Option.ne_none_iff_exists'.mp (mt (h.doubled.add_eq_none_iff e).mp hfull)
    rw [hv', hb']
    exact .some ⟨Bucket.add_entries hb' ▸ hholds, h.doubled.add hb'⟩

theorem update (h : ∀ i, Stores (rt i) (rt' i)) {i : Fin 33} (hb : Stores v b) (j : Fin 33) :
    Stores (Function.update rt i v j) (Function.update rt' i b j) := by
  rw [Function.update_apply, Function.update_apply]
  split
  · exact hb
  · exact h j

theorem addRoute (h : ∀ i, Stores (rt i) (rt' i)) (e : RtableEntry) :
    Option.Rel (fun rt rt' => ∀ i, Stores (rt i) (rt' i)) (rt.add e) (rt'.add e) := by
  obtain ⟨i, hi⟩ := exists_bucket e.mask
  have hadd := (h i).add e
  simp only [RtableArrays.add, Rtable.add, hi, Option.bind_eq_bind, Option.bind_some, i.isLt, dif_pos,
    Fin.eta]
  generalize ((rt i).add e).toOption = v at hadd
  generalize (rt' i).add e = b at hadd
  cases hadd with
  | none => exact .none
  | some hb => exact .some (update h hb)

theorem parseLoop (h : ∀ i, Stores (rt i) (rt' i)) (n : Nat) (f : Fields) (s : List Char) :
    Option.Rel (fun rt rt' => ∀ i, Stores (rt i) (rt' i)) (rt.parseLoop n f s)
      (Router.parseLoop n rt' f s) := by
  induction n generalizing rt rt' f s with
  | zero => exact .none
  | succ n ih =>
    rw [RtableArrays.parseLoop, Router.parseLoop]
    cases hscan : fscanfRoute f s with
    | none => exact .none
    | some r =>
      have hadd := addRoute h r.1.entry
      simp only [Option.bind_eq_bind, Option.bind_some]
      generalize rt.add r.1.entry = rt₁ at hadd
      generalize rt'.add r.1.entry = rt₁' at hadd
      cases hadd with
      | none => exact .none
      | some hnext =>
        simp only [Option.bind_some]
        split
        · exact .some hnext
        · exact ih hnext r.1 r.2

theorem sortBucket (h : Stores v b) (qsort : Qsort RtableEntry) :
    ∃ v', RtableArrays.sortBucket qsort v = some v' ∧ Stores v' (b.sort qsort) := by
  rw [RtableArrays.sortBucket, Bucket.sort]
  by_cases hempty : b.entries.length = 0
  · rw [if_neg (by rw [h.holds.size, hempty]; decide), if_neg (not_not.mpr hempty)]
    exact ⟨v, rfl, h⟩
  · obtain ⟨v', hv', hholds⟩ := h.holds.sort qsort entryCompare
    rw [if_pos (by rw [h.holds.size]; exact Int.natCast_ne_zero.mpr hempty), if_pos hempty, hv']
    exact ⟨v', rfl, hholds, h.doubled⟩

theorem sortBuckets (h : ∀ i, Stores (rt i) (rt' i)) (qsort : Qsort RtableEntry)
    {is : List (Fin 33)} (hnodup : is.Nodup) :
    ∃ rt₁, RtableArrays.sortBuckets qsort is rt = some rt₁ ∧
      ∀ j, Stores (rt₁ j) (if j ∈ is then (rt' j).sort qsort else rt' j) := by
  induction is generalizing rt rt' with
  | nil => exact ⟨rt, rfl, fun j => by rw [if_neg List.not_mem_nil]; exact h j⟩
  | cons i is ih =>
    obtain ⟨hi, his⟩ := List.nodup_cons.mp hnodup
    obtain ⟨v, hv, hstores⟩ := (h i).sortBucket qsort
    obtain ⟨rt₁, hrt₁, hall⟩ := ih (update h hstores) his
    refine ⟨rt₁, ?_, fun j => ?_⟩
    · rw [RtableArrays.sortBuckets, hv]
      exact hrt₁
    · have hj := hall j
      by_cases heq : j = i
      · subst heq
        rw [if_neg hi, Function.update_self] at hj
        rwa [if_pos List.mem_cons_self]
      · rw [Function.update_of_ne heq] at hj
        simpa only [List.mem_cons, heq, false_or] using hj

theorem searchLoop (h : Stores v b) (toMatch : Word32) (fuel : Nat) (left right : Int) :
    RtableArrays.searchLoop v toMatch fuel left right =
      Router.searchLoop b.entries toMatch fuel left right := by
  induction fuel generalizing left right with
  | zero => rfl
  | succ fuel ih =>
    rw [RtableArrays.searchLoop, Router.searchLoop]
    refine if_congr Iff.rfl ?_ rfl
    dsimp only
    rw [h.holds.toOption_read]
    by_cases hneg : (wrapInt (left + right)).tdiv 2 < 0
    · simp only [hneg, if_true]
    · simp only [hneg, if_false]
      cases b.entries[((wrapInt (left + right)).tdiv 2).toNat]? with
      | none => rfl
      | some e => simp only [ih]

theorem searchBucket (h : Stores v b) (toMatch : Word32) :
    RtableArrays.searchBucket v toMatch = Router.searchBucket b.entries toMatch := by
  rw [RtableArrays.searchBucket, Router.searchBucket, h.searchLoop, h.holds.size, Int.toNat_natCast]
  refine if_congr ?_ rfl rfl
  exact Int.natCast_ne_zero

theorem searchBuckets (h : ∀ i, Stores (rt i) (rt' i)) (destIp : Word32) (is : List (Fin 33)) :
    RtableArrays.searchBuckets rt destIp is = Router.searchBuckets rt' destIp is := by
  induction is with
  | nil => rfl
  | cons i is ih =>
    rw [RtableArrays.searchBuckets, Router.searchBuckets, (h i).searchBucket]
    cases Router.searchBucket (rt' i).entries (destIp &&& getSubnetMask i) with
    | error e => rfl
    | ok route =>
      cases route with
      | none => exact ih
      | some e => rfl

end Stores

/-- For every file and every address the arrays in memory answer as the buckets do, whatever `qsort`
does within its promises. -/
theorem getBestRoute_arrays (qsort : Qsort RtableEntry) (f : Fields) (file : List Char)
    (destIp : Word32) :
    (RtableArrays.parseRtable qsort f file).map (fun rt => rt.getBestRoute destIp) =
      (parseRtable qsort f file).map fun rt => getBestRoute rt destIp := by
  have hparse := Stores.parseLoop (fun _ => stores_empty) (file.length + 1) f file
  rw [RtableArrays.parseRtable, parseRtable]
  change Option.Rel _ (RtableArrays.init.parseLoop _ _ _) (parseLoop _ initRtable _ _) at hparse
  generalize RtableArrays.init.parseLoop (file.length + 1) f file = rt at hparse
  generalize parseLoop (file.length + 1) initRtable f file = rt' at hparse
  cases hparse with
  | none => rfl
  | @some rt rt' hstores =>
    obtain ⟨rt₁, hrt₁, hall⟩ := Stores.sortBuckets hstores qsort (List.nodup_finRange 33)
    have hsorted (j : Fin 33) : Stores (rt₁ j) ((rt' j).sort qsort) := by
      have hj := hall j
      rwa [if_pos (List.mem_finRange j)] at hj
    rw [Option.bind_some, hrt₁, Option.map_some, Option.map_some, Option.map_some]
    exact congrArg some (Stores.searchBuckets hsorted destIp _)

end PCom.Router
