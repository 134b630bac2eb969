import PCom.Lib.Bytes

/-! Calls that write where a pointer into a buffer points to, or count what they would write if it is
NULL. -/

namespace PCom.Lib

/-- The bytes in place of those from an index on, if there are that many. -/
def store (memory : List Byte) (i : Nat) (bytes : List Byte) : Option (List Byte) :=
  if i + bytes.length ≤ memory.length then
    some (memory.take i ++ (bytes ++ memory.drop (i + bytes.length)))
  else none

/-- A call, given the memory and the pointer into it.  It returns the memory and the number of
characters, and nothing where it writes behind the memory. -/
abbrev Appending := List Byte → Option Nat → Option (List Byte × Nat)

/-- Each call behind what the one before it has written, and the number of all characters. -/
def appendAll : List Appending → Appending
  | [], memory, _ => some (memory, 0)
  | call :: calls, memory, buf =>
    (call memory buf).bind fun r =>
      (appendAll calls r.1 (buf.map (· + r.2))).map fun r' => (r'.1, r.2 + r'.2)

theorem store_append {front space bytes rest : List Byte} (h : space.length = bytes.length) :
    store (front ++ (space ++ rest)) front.length bytes = some (front ++ (bytes ++ rest)) := by
  have hdrop : (front ++ (space ++ rest)).drop (front.length + bytes.length) = rest := by
    rw [← h, ← List.append_assoc, ← List.length_append, List.drop_left]
  rw [store, if_pos, List.take_left, hdrop]
  simp only [List.length_append]
  omega

@[simp] theorem appendAll_singleton (call : Appending) : appendAll [call] = call := by
  funext memory buf
  cases h : call memory buf with
  | none => simp [appendAll, h]
  | some r => simp [appendAll, h]

theorem appendAll_append (calls calls' : List Appending) (memory : List Byte) (buf : Option Nat) :
    appendAll (calls ++ calls') memory buf = (appendAll calls memory buf).bind fun r =>
      (appendAll calls' r.1 (buf.map (· + r.2))).map fun r' => (r'.1, r.2 + r'.2) := by
  induction calls generalizing memory buf with
  | nil => cases buf <;> simp [appendAll]
  | cons call calls ih =>
    rw [List.cons_append, appendAll, appendAll]
    cases call memory buf with
    | none => rfl
    | some r =>
      simp only [Option.bind_some, ih, Option.bind_map, Option.map_bind]
      congr 1
      funext r'
      simp [Function.comp_def, Nat.add_assoc]

/-- A call counts the characters that it writes, and writes to no more than one byte behind them. -/
structure Writes (call : Appending) (t : List Byte) : Prop where
  counts : ∀ memory, call memory none = some (memory, t.length)
  stores : ∀ front space last rest, space.length = t.length → ∃ last',
    call (front ++ (space ++ last :: rest)) (some front.length) =
      some (front ++ (t ++ last' :: rest), t.length)

/-- The byte behind the characters is zero afterwards. -/
structure Prints (call : Appending) (t : List Byte) : Prop where
  counts : ∀ memory, call memory none = some (memory, t.length)
  stores : ∀ front space last rest, space.length = t.length →
    call (front ++ (space ++ last :: rest)) (some front.length) =
      some (front ++ (t ++ 0 :: rest), t.length)

theorem Prints.writes {call : Appending} {t : List Byte} (h : Prints call t) : Writes call t where
  counts := h.counts
  stores := fun front space last rest hspace => ⟨0, h.stores front space last rest hspace⟩

section Sequence

variable {calls calls' : List Appending} {t t' : List Byte}

theorem writes_nil : Writes (appendAll []) [] := by
  refine ⟨fun _ => rfl, fun front space last rest h => ⟨last, ?_⟩⟩
  obtain rfl := List.length_eq_zero_iff.mp h
  rfl

theorem writes_singleton {call : Appending} : Writes (appendAll [call]) t ↔ Writes call t := by
  rw [appendAll_singleton]

theorem prints_singleton {call : Appending} : Prints (appendAll [call]) t ↔ Prints call t := by
  rw [appendAll_singleton]

theorem counts_append (h : ∀ memory, appendAll calls memory none = some (memory, t.length))
    (h' : ∀ memory, appendAll calls' memory none = some (memory, t'.length)) (memory : List Byte) :
    appendAll (calls ++ calls') memory none = some (memory, (t ++ t').length) := by
  rw [appendAll_append, h, Option.bind_some, Option.map_none, h', Option.map_some,
    List.length_append]

theorem exists_space (space : List Byte) (last byte : Byte) (rest : List Byte) :
    ∃ space' last', space'.length = space.length ∧
      byte :: (space ++ last :: rest).tail = space' ++ last' :: rest := by
  cases space with
  | nil => exact ⟨[], byte, rfl, rfl⟩
  | cons c space => exact ⟨byte :: space, last, rfl, rfl⟩

theorem Writes.leaves {call : Appending} (h : Writes call t) (front : List Byte) {space : List Byte}
    (last : Byte) (rest : List Byte) {n : Nat} (hspace : space.length = t.length + n) :
    ∃ space' last', space'.length = n ∧
      call (front ++ (space ++ last :: rest)) (some front.length) =
        some (front ++ t ++ (space' ++ last' :: rest), t.length) := by
  have hne : space.drop t.length ++ last :: rest ≠ [] := by simp
  obtain ⟨byte, hstores⟩ := h.stores front (space.take t.length)
    ((space.drop t.length ++ last :: rest).head hne) (space.drop t.length ++ last :: rest).tail
    (List.length_take_of_le (by omega))
  obtain ⟨space', last', hlength, hshape⟩ := exists_space (space.drop t.length) last byte rest
  refine ⟨space', last', by rw [hlength, List.length_drop]; omega, ?_⟩
  rw [List.cons_head_tail, ← List.append_assoc (space.take _), List.take_append_drop] at hstores
  rw [hstores, hshape, List.append_assoc]

theorem Writes.append (h : Writes (appendAll calls) t) (h' : Writes (appendAll calls') t') :
    Writes (appendAll (calls ++ calls')) (t ++ t') where
  counts := counts_append h.counts h'.counts
  stores := fun front space last rest hspace => by
    rw [List.length_append] at hspace
    obtain ⟨space', last', hspace', hcall⟩ := h.leaves front last rest hspace
    obtain ⟨last'', hcall'⟩ := h'.stores (front ++ t) space' last' rest hspace'
    rw [List.length_append] at hcall'
    refine ⟨last'', ?_⟩
    rw [appendAll_append, hcall, Option.bind_some, Option.map_some, hcall', Option.map_some]
    simp only [List.append_assoc, List.length_append]

theorem Writes.append_prints (h : Writes (appendAll calls) t) (h' : Prints (appendAll calls') t') :
    Prints (appendAll (calls ++ calls')) (t ++ t') where
  counts := counts_append h.counts h'.counts
  stores := fun front space last rest hspace => by
    rw [List.length_append] at hspace
    obtain ⟨space', last', hspace', hcall⟩ := h.leaves front last rest hspace
    have hcall' := h'.stores (front ++ t) space' last' rest hspace'
    rw [List.length_append] at hcall'
    rw [appendAll_append, hcall, Option.bind_some, Option.map_some, hcall', Option.map_some]
    simp only [List.append_assoc, List.length_append]

end Sequence

end PCom.Lib
