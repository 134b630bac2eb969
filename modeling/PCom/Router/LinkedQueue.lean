import PCom.Lib.LinkedList
import PCom.Lib.Refinement
import PCom.Lib.Runs

/-! The queue of `queue.c` over the cells of `list.c`, and the list that it stands for. -/

namespace PCom.Router

open Lib

/-- `struct queue`, with the heap that its cells are in. -/
structure LinkedQueue (α : Type) where
  cells : Heap (Node α)
  head : Pointer
  tail : Pointer

namespace LinkedQueue

variable {α : Type}

inductive CallFault
  | assertion
  /-- A pointer that is null, or whose cell has been freed. -/
  | badPointer
  deriving DecidableEq

def deref {β : Type} : Option β → Except CallFault β
  | none => .error .badPointer
  | some b => .ok b

def cons (malloc : Malloc (Node α)) (element : α) (l : Pointer) (cells : Heap (Node α)) :
    Pointer × Heap (Node α) :=
  let temp := malloc.address cells
  (some temp, cells.alloc temp ⟨element, l⟩)

def cdrAndFree (l : Pointer) (cells : Heap (Node α)) :
    Except CallFault (Pointer × Heap (Node α)) := do
  let temp := (← deref (cells.read l)).next
  let cells ← deref (cells.free l)
  return (temp, cells)

def queueCreate : LinkedQueue α := ⟨.empty, none, none⟩

def queueEmpty (q : LinkedQueue α) : Bool := q.head = none

def queueEnq (malloc : Malloc (Node α)) (q : LinkedQueue α) (element : α) :
    Except CallFault (LinkedQueue α) :=
  if q.queueEmpty then
    let (cell, cells) := cons malloc element none q.cells
    .ok ⟨cells, cell, cell⟩
  else do
    let (cell, cells) := cons malloc element none q.cells
    let cells ← deref (cells.modify (fun last => { last with next := cell }) q.tail)
    let last ← deref (cells.read q.tail)
    return ⟨cells, q.head, last.next⟩

/-- `tail` stays as it is, also when its cell is the one freed. -/
def queueDeq (q : LinkedQueue α) : Except CallFault (α × LinkedQueue α) :=
  if q.queueEmpty then .error .assertion
  else do
    let temp := (← deref (q.cells.read q.head)).element
    let (head, cells) ← cdrAndFree q.head q.cells
    return (temp, ⟨cells, head, q.tail⟩)

def queueTop (q : LinkedQueue α) : Except CallFault α :=
  if q.queueEmpty then .error .assertion
  else do return (← deref (q.cells.read q.head)).element

inductive Call (α : Type)
  | enq (malloc : Malloc (Node α)) (element : α)
  | deq
  | top
  | empty

inductive Answer (α : Type)
  | done
  | element (x : α)
  | empty (b : Bool)
  deriving DecidableEq

def call (q : LinkedQueue α) : Call α → Except CallFault (Answer α × LinkedQueue α)
  | .enq malloc element => do return (.done, ← q.queueEnq malloc element)
  | .deq => do
    let (x, q) ← q.queueDeq
    return (.element x, q)
  | .top => do return (.element (← q.queueTop), q)
  | .empty => .ok (.empty q.queueEmpty, q)

/-- A first-in first-out list.  Only the calls that need an element fail, and only on no element. -/
def fifoCall : List α → Call α → Except CallFault (Answer α × List α)
  | xs, .enq _ element => .ok (.done, xs ++ [element])
  | [], .deq => .error .assertion
  | x :: xs, .deq => .ok (.element x, xs)
  | [], .top => .error .assertion
  | x :: xs, .top => .ok (.element x, x :: xs)
  | xs, .empty => .ok (.empty xs.isEmpty, xs)

/-- From `head` on distinct cells hold `xs`.  `tail` is the last of them, and means nothing if there
is none. -/
def Holds (q : LinkedQueue α) (xs : List α) : Prop :=
  ∃ as : List Address, as.Nodup ∧ Segment q.cells q.head as xs none ∧
    ∀ last ∈ as.getLast?, q.tail = some last

variable {q : LinkedQueue α} {x : α} {xs : List α}

theorem holds_queueCreate : (queueCreate : LinkedQueue α).Holds [] :=
  ⟨[], .nil, .nil none, by simp⟩

theorem Holds.queueEmpty_eq (h : q.Holds xs) : q.queueEmpty = xs.isEmpty := by
  obtain ⟨as, -, hs, -⟩ := h
  rw [queueEmpty, Bool.eq_iff_iff, decide_eq_true_eq, List.isEmpty_iff, hs.eq_nil_iff]

theorem Holds.queueEnq (h : q.Holds xs) (malloc : Malloc (Node α)) (x : α) :
    ∃ q', q.queueEnq malloc x = .ok q' ∧ q'.Holds (xs ++ [x]) := by
  have hempty := h.queueEmpty_eq
  obtain ⟨as, hnodup, hs, htail⟩ := h
  set c := malloc.address q.cells with hc
  have hfresh : c ∉ as := fun hmem => malloc.fresh q.cells (hs.mem_cells hmem)
  have hcell : (q.cells.alloc c ⟨x, none⟩).read (some c) = some ⟨x, none⟩ := by simp
  rcases List.eq_nil_or_concat as with rfl | ⟨as, last, rfl⟩
  · have hxs : xs = [] := List.length_eq_zero_iff.mp hs.length_eq.symm
    subst hxs
    refine ⟨⟨q.cells.alloc c ⟨x, none⟩, some c, some c⟩, ?_, [c], List.nodup_singleton c, ?_, ?_⟩
    · rw [LinkedQueue.queueEnq, hempty]
      rfl
    · exact .cons hcell (.nil none)
    · simp
  · rw [List.concat_eq_append] at hnodup hs htail hfresh
    have hne : c ≠ last := by
      intro heq
      rw [heq] at hfresh
      exact hfresh (List.mem_append_right as (List.mem_singleton_self last))
    have hfull : xs.isEmpty = false := by
      cases xs with
      | nil => simpa using hs.length_eq
      | cons => rfl
    have hs' : Segment (q.cells.alloc c ⟨x, none⟩) q.head (as ++ [last]) xs none := by
      apply hs.congr
      intro a ha
      refine Heap.read_alloc_of_ne ?_ _
      rintro rfl
      exact hfresh ha
    obtain ⟨-, y, -, -, hread⟩ := hs'.exists_last
    obtain ⟨cells, hmodify, hnew, hothers⟩ :=
      Heap.exists_modify hread fun node => { node with next := some c }
    have hq : q.tail = some last := htail last (by simp)
    refine ⟨⟨cells, q.head, some c⟩, ?_, as ++ [last] ++ [c], ?_, ?_, by simp⟩
    · rw [LinkedQueue.queueEnq, hempty, hfull, hq]
      simp only [cons, ← hc, hmodify, hnew, deref, ok_bind, pure_eq_ok]
      rfl
    · exact hnodup.append (List.nodup_singleton c) (by simpa using hfresh)
    · refine hs'.link hnodup hcell hne ?_ hothers
      intro z hz
      rw [hread] at hz
      cases hz
      exact hnew

theorem Holds.queueDeq (h : q.Holds (x :: xs)) :
    ∃ q', q.queueDeq = .ok (x, q') ∧ q'.Holds xs := by
  have hempty := h.queueEmpty_eq
  obtain ⟨as, hnodup, hs, htail⟩ := h
  generalize hhead : q.head = head at hs
  cases hs with
  | @cons a _ next _ as _ hread hs =>
    obtain ⟨hnotin, hnodup⟩ := List.nodup_cons.mp hnodup
    obtain ⟨cells, hfree, -, hothers⟩ := Heap.exists_free hread
    refine ⟨⟨cells, next, q.tail⟩, ?_, as, hnodup, ?_, ?_⟩
    · rw [LinkedQueue.queueDeq, hempty, hhead]
      simp only [cdrAndFree, hread, hfree, deref, ok_bind, pure_eq_ok]
      rfl
    · exact hs.congr fun b hb => hothers b fun heq => hnotin (heq ▸ hb)
    · intro last hlast
      apply htail
      rw [List.getLast?_cons, Option.mem_def.mp hlast]
      rfl

theorem Holds.queueTop (h : q.Holds (x :: xs)) : q.queueTop = .ok x := by
  have hempty := h.queueEmpty_eq
  obtain ⟨as, -, hs, -⟩ := h
  generalize hhead : q.head = head at hs
  cases hs with
  | cons hread _ =>
    rw [LinkedQueue.queueTop, hempty, hhead]
    simp only [hread, deref, ok_bind, pure_eq_ok]
    rfl

theorem simulates_fifoCall : Simulates (Holds (α := α)) call fifoCall := by
  intro q xs h c
  cases c with
  | enq malloc x =>
    obtain ⟨q', hcall, hq'⟩ := h.queueEnq malloc x
    simp only [call, hcall, fifoCall, ok_bind, pure_eq_ok]
    exact .ok hq'
  | deq =>
    cases xs with
    | nil =>
      rw [call, LinkedQueue.queueDeq, h.queueEmpty_eq]
      exact .error
    | cons x xs =>
      obtain ⟨q', hcall, hq'⟩ := h.queueDeq
      simp only [call, hcall, fifoCall, ok_bind, pure_eq_ok]
      exact .ok hq'
  | top =>
    cases xs with
    | nil =>
      rw [call, LinkedQueue.queueTop, h.queueEmpty_eq]
      exact .error
    | cons x xs =>
      simp only [call, h.queueTop, fifoCall, ok_bind, pure_eq_ok]
      exact .ok h
  | empty =>
    rw [call, h.queueEmpty_eq]
    cases xs <;> exact .ok h

theorem fifoCall_ne_badPointer (xs : List α) (c : Call α) : fifoCall xs c ≠ .error .badPointer := by
  cases c <;> cases xs <;> simp [fifoCall]

/-- Whatever calls are made of a new queue, and whatever addresses `malloc` hands out, they are
answered as by a list: an assertion fails only where the list is empty.  No freed cell is read or
written. -/
theorem answers_call_eq_fifoCall (calls : List (Call α)) :
    answers call queueCreate calls = answers fifoCall [] calls ∧
      .error .badPointer ∉ answers call queueCreate calls := by
  have heq := simulates_fifoCall.answers_eq holds_queueCreate calls
  refine ⟨heq, ?_⟩
  rw [heq]
  intro hbad
  obtain ⟨xs, c, -, hfail⟩ := exists_step_of_mem_answers hbad
  exact fifoCall_ne_badPointer xs c hfail

/-- The cell freed first is handed out again, and `tail` points to it all the time. -/
example : answers call queueCreate
    [.enq (.lowest _) 1, .deq, .empty, .enq (.lowest _) 2, .top, .deq, .deq]
      = [.ok .done, .ok (.element 1), .ok (.empty true), .ok .done, .ok (.element 2),
        .ok (.element 2), .error .assertion] := by decide

end LinkedQueue

end PCom.Router
