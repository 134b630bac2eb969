import Mathlib.Data.List.AList

/-! Linked lists in a heap that nodes are allocated in and freed from. -/

namespace PCom.Lib

abbrev Address := Nat

abbrev Pointer := Option Address

/-- What lies at the addresses that are allocated. -/
structure Heap (α : Type) where
  cells : AList fun _ : Address => α

/-- An allocator that does not run out of memory.  It may hand out a freed address again. -/
structure Malloc (α : Type) where
  address : Heap α → Address
  fresh : ∀ h, address h ∉ h.cells

/-- The allocator that takes the lowest address it can. -/
def Malloc.lowest (α : Type) : Malloc α where
  address h := ((List.range (h.cells.keys.length + 1)).find? (· ∉ h.cells.keys)).getD 0
  fresh h := by
    cases hfind : (List.range (h.cells.keys.length + 1)).find? (· ∉ h.cells.keys) with
    | none =>
      have hsub : List.range (h.cells.keys.length + 1) ⊆ h.cells.keys := by
        intro a ha
        simpa using List.find?_eq_none.mp hfind a ha
      have hle := (List.subperm_of_subset List.nodup_range hsub).length_le
      rw [List.length_range] at hle
      omega
    | some a =>
      have ha := List.find?_some hfind
      rwa [decide_eq_true_eq] at ha

namespace Heap

variable {α : Type}

def empty : Heap α := ⟨∅⟩

/-- Reading fails at the null pointer and where nothing is allocated, or no more. -/
def read (h : Heap α) : Pointer → Option α
  | none => none
  | some a => h.cells.lookup a

def alloc (h : Heap α) (a : Address) (x : α) : Heap α := ⟨h.cells.insert a x⟩

def modify (h : Heap α) (f : α → α) : Pointer → Option (Heap α)
  | none => none
  | some a => (h.cells.lookup a).map fun x => ⟨h.cells.insert a (f x)⟩

def free (h : Heap α) : Pointer → Option (Heap α)
  | none => none
  | some a => if a ∈ h.cells then some ⟨h.cells.erase a⟩ else none

theorem mem_of_read {h : Heap α} {a : Address} {x : α} (hx : h.read (some a) = some x) :
    a ∈ h.cells := by
  rw [← AList.lookup_isSome]
  exact Option.isSome_of_eq_some hx

@[simp] theorem read_alloc_self (h : Heap α) (a : Address) (x : α) :
    (h.alloc a x).read (some a) = some x := AList.lookup_insert h.cells

theorem read_alloc_of_ne {h : Heap α} {a b : Address} (hab : b ≠ a) (x : α) :
    (h.alloc a x).read (some b) = h.read (some b) := AList.lookup_insert_ne hab

theorem exists_modify {h : Heap α} {a : Address} {x : α} (hx : h.read (some a) = some x)
    (f : α → α) : ∃ h', h.modify f (some a) = some h' ∧ h'.read (some a) = some (f x) ∧
      ∀ b ≠ a, h'.read (some b) = h.read (some b) := by
  refine ⟨h.alloc a (f x), ?_, read_alloc_self h a (f x), fun b hb => read_alloc_of_ne hb (f x)⟩
  rw [read] at hx
  rw [modify, hx]
  rfl

theorem exists_free {h : Heap α} {a : Address} {x : α} (hx : h.read (some a) = some x) :
    ∃ h', h.free (some a) = some h' ∧ h'.read (some a) = none ∧
      ∀ b ≠ a, h'.read (some b) = h.read (some b) := by
  refine ⟨⟨h.cells.erase a⟩, if_pos (mem_of_read hx), AList.lookup_erase a h.cells, fun b hb => ?_⟩
  exact AList.lookup_erase_ne hb

end Heap

structure Node (α : Type) where
  element : α
  next : Pointer
  deriving DecidableEq

variable {α : Type} {h h' : Heap (Node α)} {p q : Pointer} {a : Address} {x : α}
  {as : List Address} {xs : List α}

/-- From `p` the nodes at `as` hold `xs`, and the last of them points to `q`. -/
inductive Segment (h : Heap (Node α)) : Pointer → List Address → List α → Pointer → Prop
  | nil (p : Pointer) : Segment h p [] [] p
  | cons {a : Address} {x : α} {next q : Pointer} {as : List Address} {xs : List α} :
      h.read (some a) = some ⟨x, next⟩ → Segment h next as xs q →
      Segment h (some a) (a :: as) (x :: xs) q

namespace Segment

theorem congr (hs : Segment h p as xs q)
    (heq : ∀ a ∈ as, h'.read (some a) = h.read (some a)) : Segment h' p as xs q := by
  induction hs with
  | nil p => exact .nil p
  | @cons a x next q as xs hread _ ih =>
    rw [← heq a List.mem_cons_self] at hread
    exact .cons hread (ih fun b hb => heq b (List.mem_cons_of_mem a hb))

theorem mem_cells (hs : Segment h p as xs q) (ha : a ∈ as) : a ∈ h.cells := by
  induction hs with
  | nil => cases ha
  | cons hread _ ih =>
    cases ha with
    | head => exact Heap.mem_of_read hread
    | tail _ ha => exact ih ha

theorem length_eq (hs : Segment h p as xs q) : as.length = xs.length := by
  induction hs with
  | nil => rfl
  | cons _ _ ih => rw [List.length_cons, List.length_cons, ih]

theorem eq_nil_iff (hs : Segment h p as xs none) : xs = [] ↔ p = none := by
  cases hs with
  | nil => exact iff_of_true rfl rfl
  | cons => exact iff_of_false (List.cons_ne_nil _ _) (Option.some_ne_none _)

theorem append {r : Pointer} {bs : List Address} {ys : List α} (hs : Segment h p as xs q)
    (ht : Segment h q bs ys r) : Segment h p (as ++ bs) (xs ++ ys) r := by
  induction hs with
  | nil => exact ht
  | cons hread _ ih => exact .cons hread (ih ht)

theorem exists_last (hs : Segment h p (as ++ [a]) xs q) :
    ∃ ys x, xs = ys ++ [x] ∧ Segment h p as ys (some a) ∧ h.read (some a) = some ⟨x, q⟩ := by
  induction as generalizing p xs with
  | nil =>
    cases hs with
    | cons hread hnil =>
      cases hnil
      exact ⟨[], _, rfl, .nil _, hread⟩
  | cons b as ih =>
    cases hs with
    | @cons _ y _ _ _ _ hread hs =>
      obtain ⟨ys, x, rfl, hfront, hlast⟩ := ih hs
      exact ⟨y :: ys, x, rfl, .cons hread hfront, hlast⟩

theorem link {last c : Address} (hs : Segment h p (as ++ [last]) xs none)
    (hnodup : (as ++ [last]).Nodup)
    (hc : h.read (some c) = some ⟨x, none⟩) (hne : c ≠ last)
    (hlast : ∀ y, h.read (some last) = some ⟨y, none⟩ → h'.read (some last) = some ⟨y, some c⟩)
    (hothers : ∀ b ≠ last, h'.read (some b) = h.read (some b)) :
    Segment h' p (as ++ [last] ++ [c]) (xs ++ [x]) none := by
  obtain ⟨ys, y, rfl, hfront, hread⟩ := hs.exists_last
  have hnotin : last ∉ as := by
    intro hmem
    exact (List.nodup_append.mp hnodup).2.2 last hmem last (List.mem_singleton_self last) rfl
  have hfront' : Segment h' p as ys (some last) :=
    hfront.congr fun b hb => hothers b fun heq => hnotin (heq ▸ hb)
  have hc' : h'.read (some c) = some ⟨x, none⟩ := (hothers c hne).trans hc
  have hback : Segment h' (some last) [last] [y] (some c) := .cons (hlast y hread) (.nil _)
  exact (hfront'.append hback).append (.cons hc' (.nil none))

end Segment

end PCom.Lib
