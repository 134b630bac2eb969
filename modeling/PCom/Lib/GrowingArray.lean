import Mathlib.Algebra.Group.Nat.Defs
import PCom.Lib.Qsort
import PCom.Lib.Runs

/-! Arrays that double when they are full: a block of memory, and two numbers of type `int`. -/

namespace PCom.Lib

inductive MemoryFault
  | outOfBounds | unwritten | outOfMemory
  deriving DecidableEq

/-- A block from `malloc`, whose slots are not written at first. -/
abbrev Block (α : Type) := List (Option α)

namespace Block

variable {α : Type}

def read (b : Block α) (i : Int) : Except MemoryFault α :=
  if i < 0 then .error .outOfBounds
  else
    match b[i.toNat]? with
    | none => .error .outOfBounds
    | some none => .error .unwritten
    | some (some a) => .ok a

def write (b : Block α) (i : Int) (a : α) : Except MemoryFault (Block α) :=
  if 0 ≤ i ∧ i < b.length then .ok (b.set i.toNat (some a)) else .error .outOfBounds

/-- The values in `n` slots from `i` on. -/
def readFrom (b : Block α) : Nat → Int → Except MemoryFault (List α)
  | 0, _ => .ok []
  | n + 1, i => do
    let a ← b.read i
    let as ← b.readFrom n (i + 1)
    return a :: as

/-- `realloc`, for a number of slots that was an `int`.  A negative one is more than there is, and
the NULL that is answered is what the next access goes through. -/
def realloc (b : Block α) (n : Int) : Except MemoryFault (Block α) :=
  if n < 0 then .error .outOfMemory
  else .ok (b.take n.toNat ++ List.replicate (n.toNat - b.length) none)

end Block

structure GrowingArray (α : Type) where
  entries : Block α
  size : Int
  capacity : Int

namespace GrowingArray

variable {α : Type}

def init : GrowingArray α := ⟨[none], 0, 1⟩

def add (v : GrowingArray α) (a : α) : Except MemoryFault (GrowingArray α) := do
  let entries ← v.entries.write v.size a
  let size := (v.size + 1).bmod (2 ^ 32)
  if size = v.capacity then
    let capacity := (v.capacity * 2).bmod (2 ^ 32)
    let entries ← entries.realloc capacity
    return ⟨entries, size, capacity⟩
  else return ⟨entries, size, v.capacity⟩

def findFrom (p : α → Bool) (v : GrowingArray α) :
    Nat → Int → Except MemoryFault (Option α)
  | 0, _ => .ok none
  | passes + 1, i => do
    let a ← v.entries.read i
    if p a then return some a else findFrom p v passes (i + 1)

def find (p : α → Bool) (v : GrowingArray α) : Except MemoryFault (Option α) :=
  findFrom p v v.size.toNat 0

def sort (qsort : Qsort α) (cmp : α → α → Int) (v : GrowingArray α) :
    Except MemoryFault (GrowingArray α) := do
  let as ← v.entries.readFrom v.size.toNat 0
  return { v with entries := (qsort.sort cmp as).map some ++ v.entries.drop v.size.toNat }

/-- The entries in front of slots not written yet, in as many slots as a power of two. -/
structure Holds (v : GrowingArray α) (as : List α) : Prop where
  entries : ∃ n, v.entries = as.map some ++ List.replicate n none
  size : v.size = as.length
  capacity : v.capacity = v.entries.length
  room : as.length < v.entries.length
  doubled : ∃ k ≤ 30, v.entries.length = 2 ^ k

theorem holds_init : (init : GrowingArray α).Holds [] where
  entries := ⟨1, rfl⟩
  size := rfl
  capacity := rfl
  room := Nat.one_pos
  doubled := ⟨0, Nat.zero_le _, rfl⟩

namespace Holds

variable {v : GrowingArray α} {as : List α} {a : α}

theorem length_le (h : v.Holds as) : v.entries.length ≤ 2 ^ 30 := by
  obtain ⟨k, hk, hlength⟩ := h.doubled
  rw [hlength]
  exact Nat.pow_le_pow_right (by decide) hk

theorem write (h : v.Holds as) : ∃ entries, v.entries.write v.size a = .ok entries ∧
    (∃ n, entries = (as ++ [a]).map some ++ List.replicate n none) ∧
      entries.length = v.entries.length := by
  obtain ⟨n, hentries⟩ := h.entries
  have hroom := h.room
  obtain ⟨n, rfl⟩ : ∃ m, n = m + 1 := by
    rw [hentries, List.length_append, List.length_map, List.length_replicate] at hroom
    exact Nat.exists_eq_succ_of_ne_zero (by omega)
  have hfront : (as.map some).length ≤ as.length := Nat.le_of_eq (List.length_map _)
  refine ⟨v.entries.set v.size.toNat (some a), ?_, ⟨n, ?_⟩, List.length_set⟩
  · rw [Block.write, if_pos (by have := h.size; omega)]
  · rw [hentries, h.size, Int.toNat_natCast, List.map_append, List.append_assoc,
      List.map_singleton, List.singleton_append, List.set_append_right _ _ hfront,
      List.length_map, Nat.sub_self, List.replicate_succ, List.set_cons_zero]

theorem add (h : v.Holds as) :
    if as.length + 1 = 2 ^ 30 then v.add a = .error .outOfMemory
    else ∃ v', v.add a = .ok v' ∧ v'.Holds (as ++ [a]) := by
  obtain ⟨entries, hwrite, ⟨n, hentries⟩, hlength⟩ := h.write (a := a)
  have hle := h.length_le
  have hroom := h.room
  have hsize : (v.size + 1).bmod (2 ^ 32) = (as ++ [a]).length := by
    rw [h.size, List.length_append, List.length_singleton]
    exact Int.bmod_eq_of_le (by omega) (by omega)
  by_cases hfull : (as ++ [a]).length = v.entries.length
  · obtain ⟨k, hk, hpow⟩ := h.doubled
    have hlast : as.length + 1 = 2 ^ k := by
      rw [← hpow, ← hfull, List.length_append, List.length_singleton]
    have heq : (v.size + 1).bmod (2 ^ 32) = v.capacity := by rw [hsize, h.capacity, hfull]
    split
    next hend =>
      have hcapacity : (v.capacity * 2).bmod (2 ^ 32) = -2 ^ 31 := by
        rw [h.capacity, ← hfull, List.length_append, List.length_singleton, hend]
        decide
      have hrealloc : entries.realloc (-2 ^ 31) = .error .outOfMemory := by
        rw [Block.realloc, if_pos (by decide)]
      rw [GrowingArray.add, hwrite, ok_bind]
      simp only [heq, if_true, hcapacity, hrealloc]
      rfl
    next hend =>
      have hk' : k + 1 ≤ 30 := by
        by_contra hlt
        obtain rfl : k = 30 := by omega
        exact hend hlast
      have hsmall : 2 ^ k * 2 ≤ 2 ^ 30 := by
        rw [← Nat.pow_succ]
        exact Nat.pow_le_pow_right (by decide) hk'
      have hcapacity : (v.capacity * 2).bmod (2 ^ 32) = (2 ^ k * 2 : Nat) := by
        rw [h.capacity, hpow, ← hlast] at *
        exact Int.bmod_eq_of_le (by omega) (by omega)
      have hdouble : entries.realloc ((2 ^ k * 2 : Nat) : Int) =
          .ok (entries ++ List.replicate (2 ^ k) none) := by
        have hcopy : entries.take (2 ^ k * 2) = entries :=
          List.take_of_length_le (by rw [hlength, hpow]; omega)
        have hnew : 2 ^ k * 2 - entries.length = 2 ^ k := by rw [hlength, hpow]; omega
        rw [Block.realloc, if_neg (by omega), Int.toNat_natCast, hcopy, hnew]
      refine ⟨⟨entries ++ List.replicate (2 ^ k) none, (v.size + 1).bmod (2 ^ 32),
        (2 ^ k * 2 : Nat)⟩, ?_,
        ⟨⟨n + 2 ^ k, ?_⟩, hsize, ?_, ?_, k + 1, hk', ?_⟩⟩
      · rw [GrowingArray.add, hwrite, ok_bind]
        simp only [heq, if_true, hcapacity, hdouble]
        rfl
      · rw [hentries, List.append_assoc, List.replicate_append_replicate]
      · simp only [List.length_append, List.length_replicate, hlength, hpow]
        omega
      · simp only [List.length_append, List.length_replicate, List.length_singleton, hlength, hpow]
        omega
      · simp only [List.length_append, List.length_replicate, hlength, hpow, Nat.pow_succ]
        omega
  · have hne : (v.size + 1).bmod (2 ^ 32) ≠ v.capacity := by
      rw [hsize, h.capacity]
      omega
    rw [List.length_append, List.length_singleton] at hfull
    rw [if_neg (by omega)]
    refine ⟨⟨entries, (v.size + 1).bmod (2 ^ 32), v.capacity⟩, ?_,
      ⟨⟨n, hentries⟩, hsize, h.capacity.trans (congrArg _ hlength.symm), ?_, hlength ▸ h.doubled⟩⟩
    · rw [GrowingArray.add, hwrite, ok_bind]
      simp only [hne, if_false]
      rfl
    · rw [hlength, List.length_append, List.length_singleton]
      omega

theorem toOption_read (h : v.Holds as) (i : Int) :
    (v.entries.read i).toOption = if i < 0 then none else as[i.toNat]? := by
  obtain ⟨n, hentries⟩ := h.entries
  rw [Block.read]
  by_cases hneg : i < 0
  · rw [if_pos hneg, if_pos hneg]
    rfl
  · rw [if_neg hneg, if_neg hneg, hentries]
    by_cases hlt : i.toNat < as.length
    · rw [List.getElem?_append_left (by rwa [List.length_map]), List.getElem?_map,
        List.getElem?_eq_getElem hlt]
      rfl
    · rw [List.getElem?_append_right (by rw [List.length_map]; omega),
        List.getElem?_replicate, List.getElem?_eq_none (Nat.not_lt.mp hlt)]
      by_cases hin : i.toNat - (as.map some).length < n
      · rw [if_pos hin]
        rfl
      · rw [if_neg hin]
        rfl

theorem read {as bs : List α} (h : v.Holds (as ++ a :: bs)) :
    v.entries.read as.length = .ok a := by
  have hread := h.toOption_read as.length
  have hslot : (as ++ a :: bs)[as.length]? = some a := by simp
  rw [if_neg (by omega), Int.toNat_natCast, hslot] at hread
  cases hslot : v.entries.read as.length with
  | error e =>
    rw [hslot] at hread
    cases hread
  | ok b =>
    rw [hslot] at hread
    cases hread
    rfl

theorem induction_from {motive : List α → List α → Prop} (hnil : ∀ as, motive as [])
    (hcons : ∀ as b bs, v.entries.read as.length = .ok b → motive (as ++ [b]) bs →
      motive as (b :: bs)) {as bs : List α} (h : v.Holds (as ++ bs)) : motive as bs := by
  induction bs generalizing as with
  | nil => exact hnil as
  | cons b bs ih => exact hcons as b bs h.read (ih (by rwa [List.append_assoc]))

theorem find (h : v.Holds as) (p : α → Bool) : v.find p = .ok (as.find? p) := by
  have hstep (front : List α) (b : α) (back : List α)
      (hread : v.entries.read front.length = .ok b)
      (ih : v.findFrom p back.length (front ++ [b]).length = .ok (back.find? p)) :
      v.findFrom p (b :: back).length front.length = .ok ((b :: back).find? p) := by
    rw [List.length_append, List.length_singleton] at ih
    rw [List.length_cons, findFrom, hread, ok_bind, List.find?_cons]
    cases p b with
    | true => rfl
    | false => exact ih
  have hfrom : v.findFrom p as.length ([] : List α).length = .ok (as.find? p) :=
    induction_from (motive := fun front back =>
      v.findFrom p back.length front.length = .ok (back.find? p)) (fun _ => rfl) hstep h
  rw [GrowingArray.find, h.size, Int.toNat_natCast]
  exact hfrom

theorem readFrom (h : v.Holds as) : v.entries.readFrom as.length 0 = .ok as := by
  have hstep (front : List α) (b : α) (back : List α)
      (hread : v.entries.read front.length = .ok b)
      (ih : v.entries.readFrom back.length (front ++ [b]).length = .ok back) :
      v.entries.readFrom (b :: back).length front.length = .ok (b :: back) := by
    rw [List.length_append, List.length_singleton] at ih
    rw [List.length_cons, Block.readFrom, hread, ok_bind]
    exact congrArg (· >>= fun as => .ok (b :: as)) ih
  have hfrom : v.entries.readFrom as.length ([] : List α).length = .ok as :=
    induction_from (motive := fun front back =>
      v.entries.readFrom back.length front.length = .ok back) (fun _ => rfl) hstep h
  exact hfrom

theorem sort (h : v.Holds as) (qsort : Qsort α) (cmp : α → α → Int) :
    ∃ v', v.sort qsort cmp = .ok v' ∧ v'.Holds (qsort.sort cmp as) := by
  have hread := h.readFrom
  have hsize := h.size
  obtain ⟨n, hentries⟩ := h.entries
  have hdrop : v.entries.drop as.length = List.replicate n none := by
    rw [hentries]
    exact List.drop_left' (List.length_map _)
  have hlength : ((qsort.sort cmp as).map some ++ List.replicate n none).length =
      v.entries.length := by
    rw [hentries, List.length_append, List.length_append, List.length_map, List.length_map,
      qsort.length_sort]
  refine ⟨{ v with entries := (qsort.sort cmp as).map some ++ List.replicate n none }, ?_,
    ⟨⟨n, rfl⟩, ?_, ?_, ?_, ?_⟩⟩
  · rw [GrowingArray.sort, hsize, Int.toNat_natCast, hread, ok_bind, hdrop]
    rfl
  · rw [qsort.length_sort]
    exact hsize
  · exact h.capacity.trans (congrArg _ hlength.symm)
  · rw [qsort.length_sort, hlength]
    exact h.room
  · rw [hlength]
    exact h.doubled

end Holds

end GrowingArray

end PCom.Lib
