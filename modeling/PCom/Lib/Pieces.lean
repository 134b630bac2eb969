import Mathlib.Data.List.Basic

/-! A text that comes in pieces, read from a buffer which is filled when it has run out. -/

namespace PCom.Lib

variable {α : Type*} {p : α → Bool}

/-- Takes from the buffer, and then from the pieces, as long as `p` holds.  The next piece is taken
up only when the buffer is used up. -/
def spanPieces (p : α → Bool) : List α → List (List α) → List α × List α × List (List α)
  | buffer, [] => (buffer.takeWhile p, buffer.dropWhile p, [])
  | buffer, piece :: pieces =>
    if buffer.all p then
      (buffer ++ (spanPieces p piece pieces).1, (spanPieces p piece pieces).2)
    else (buffer.takeWhile p, buffer.dropWhile p, piece :: pieces)

theorem span_append_of_all {xs : List α} (h : xs.all p = true) (ys : List α) :
    (xs ++ ys).takeWhile p = xs ++ ys.takeWhile p ∧ (xs ++ ys).dropWhile p = ys.dropWhile p := by
  rw [List.all_eq_true] at h
  exact ⟨List.takeWhile_append_of_pos h, List.dropWhile_append_of_pos h⟩

theorem span_append_of_not_all {xs : List α} (h : ¬ xs.all p = true) (ys : List α) :
    (xs ++ ys).takeWhile p = xs.takeWhile p ∧
      (xs ++ ys).dropWhile p = xs.dropWhile p ++ ys ∧ xs.dropWhile p ≠ [] := by
  induction xs with
  | nil => exact absurd rfl h
  | cons x xs ih =>
    by_cases hx : p x = true
    · rw [List.all_cons, hx, Bool.true_and] at h
      obtain ⟨htake, hdrop, hne⟩ := ih h
      simp only [List.cons_append, List.takeWhile_cons, List.dropWhile_cons, hx, if_true, htake,
        hdrop, true_and]
      exact hne
    · simp [hx]

/-- What is taken and what is left do not depend on the pieces. -/
theorem spanPieces_eq (p : α → Bool) (buffer : List α) (pieces : List (List α)) :
    (spanPieces p buffer pieces).1 = (buffer ++ pieces.flatten).takeWhile p ∧
      (spanPieces p buffer pieces).2.1 ++ (spanPieces p buffer pieces).2.2.flatten
        = (buffer ++ pieces.flatten).dropWhile p := by
  induction pieces generalizing buffer with
  | nil => simp [spanPieces]
  | cons piece pieces ih =>
    rw [spanPieces, List.flatten_cons]
    split
    next hall =>
      obtain ⟨htake, hdrop⟩ := span_append_of_all hall (piece ++ pieces.flatten)
      rw [htake, hdrop, ← (ih piece).1]
      exact ⟨rfl, (ih piece).2⟩
    next hall =>
      obtain ⟨htake, hdrop, -⟩ := span_append_of_not_all hall (piece ++ pieces.flatten)
      exact ⟨htake.symm, hdrop.symm⟩

theorem spanPieces_nil {buffer : List α} {pieces : List (List α)}
    (h : (spanPieces p buffer pieces).2.1 = []) : (spanPieces p buffer pieces).2.2 = [] := by
  induction pieces generalizing buffer with
  | nil => rfl
  | cons piece pieces ih =>
    rw [spanPieces] at h ⊢
    split at h
    next hall =>
      rw [if_pos hall]
      exact ih h
    next hall => exact absurd h (span_append_of_not_all hall []).2.2

/-- The last piece is still to come, or at most `n` of it is left. -/
def LastPiece (last : List α) (n : Nat) (buffer : List α) (pieces : List (List α)) : Prop :=
  pieces.getLast? = some last ∨ pieces = [] ∧ buffer.length ≤ n

theorem LastPiece.mono {last buffer : List α} {m n : Nat} {pieces : List (List α)}
    (h : LastPiece last m buffer pieces) (hle : m ≤ n) : LastPiece last n buffer pieces :=
  h.imp_right fun hleft => ⟨hleft.1, Nat.le_trans hleft.2 hle⟩

theorem LastPiece.spanPieces {last buffer : List α} {pieces : List (List α)}
    (h : LastPiece last last.length buffer pieces) (p : α → Bool) :
    LastPiece last last.length (spanPieces p buffer pieces).2.1 (spanPieces p buffer pieces).2.2 := by
  induction pieces generalizing buffer with
  | nil =>
    rcases h with h | ⟨-, hlen⟩
    · cases h
    · exact .inr ⟨rfl, Nat.le_trans (List.dropWhile_suffix p).length_le hlen⟩
  | cons piece pieces ih =>
    rw [Lib.spanPieces]
    split
    next =>
      refine ih ?_
      rcases h with h | ⟨h, -⟩
      · cases pieces with
        | nil =>
          rw [List.getLast?_singleton, Option.some.injEq] at h
          exact .inr ⟨rfl, h ▸ Nat.le_refl _⟩
        | cons piece' pieces => exact .inl (by rwa [List.getLast?_cons_cons] at h)
      · cases h
    next =>
      rcases h with h | ⟨h, -⟩
      · exact .inl h
      · cases h

theorem LastPiece.ne_nil_iff {last buffer : List α} {n : Nat} {pieces : List (List α)}
    (h : LastPiece last n buffer pieces) (hn : n < last.length) :
    pieces ≠ [] ↔ last.length ≤ (buffer ++ pieces.flatten).length := by
  rcases h with h | ⟨rfl, hlen⟩
  · obtain ⟨before, rfl⟩ := List.getLast?_eq_some_iff.mp h
    refine iff_of_true (by simp) ?_
    rw [List.flatten_append, List.length_append, List.length_append, List.flatten_singleton]
    omega
  · refine iff_of_false (by simp) ?_
    rw [List.flatten_nil, List.append_nil]
    omega

end PCom.Lib
