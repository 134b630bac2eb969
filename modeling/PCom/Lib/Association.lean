import Mathlib.Data.List.Nodup
import Mathlib.Data.List.Perm.Basic

/-! Lists of keys and values as finite maps, with the last entry moved to where one is removed. -/

namespace PCom.Lib

variable {κ α : Type} [DecidableEq κ]

def lookup (k : κ) (l : List (κ × α)) : Option α := (l.find? fun m => m.1 = k).map Prod.snd

def overwrite (k : κ) (a : α) : List (κ × α) → List (κ × α)
  | [] => []
  | m :: l => if m.1 = k then (m.1, a) :: l else m :: overwrite k a l

/-- An entry replaced by the last one. -/
def swapRemove (i : Nat) (l : List α) : List α :=
  match l.getLast? with
  | none => []
  | some last => if i ≠ l.length - 1 then (l.set i last).dropLast else l.dropLast

section Lookup

variable {k k' : κ} {a : α} {l l' : List (κ × α)}

@[simp] theorem lookup_nil (k : κ) : lookup k ([] : List (κ × α)) = none := rfl

theorem lookup_cons (k : κ) (m : κ × α) (l : List (κ × α)) :
    lookup k (m :: l) = if m.1 = k then some m.2 else lookup k l := by
  rw [lookup, List.find?_cons]
  split
  next h => rw [if_pos (of_decide_eq_true h), Option.map_some]
  next h => rw [if_neg (of_decide_eq_false h), lookup]

theorem lookup_eq_none_iff : lookup k l = none ↔ k ∉ l.map Prod.fst := by
  induction l with
  | nil => simp
  | cons m l ih =>
    rw [lookup_cons, List.map_cons, List.mem_cons, not_or, ← ih]
    split
    next h => exact iff_of_false (Option.some_ne_none _) fun hne => hne.1 h.symm
    next h => exact (and_iff_right (Ne.symm h)).symm

theorem lookup_eq_some_iff (h : (l.map Prod.fst).Nodup) : lookup k l = some a ↔ (k, a) ∈ l := by
  induction l with
  | nil => simp
  | cons m l ih =>
    obtain ⟨hfresh, hl⟩ := List.nodup_cons.mp h
    rw [lookup_cons, List.mem_cons]
    split
    next hk =>
      subst hk
      have hnot : (m.1, a) ∉ l := fun hm => hfresh (List.mem_map.mpr ⟨_, hm, rfl⟩)
      rw [Option.some.injEq, or_iff_left hnot, Prod.ext_iff, and_iff_right rfl]
      exact eq_comm
    next hk =>
      have hne : (k, a) ≠ m := fun hm => hk (congrArg Prod.fst hm).symm
      rw [ih hl, or_iff_right hne]

theorem mem_of_lookup_eq_some (h : lookup k l = some a) : (k, a) ∈ l := by
  induction l with
  | nil => cases h
  | cons m l ih =>
    rw [lookup_cons] at h
    split at h
    next hk =>
      cases h
      rw [← hk]
      exact List.mem_cons_self
    next => exact List.mem_cons_of_mem m (ih h)

theorem lookup_perm (hperm : l.Perm l') (h : (l.map Prod.fst).Nodup) : lookup k l = lookup k l' := by
  have h' : (l'.map Prod.fst).Nodup := (hperm.map Prod.fst).nodup_iff.mp h
  apply Option.ext
  intro a
  rw [lookup_eq_some_iff h, lookup_eq_some_iff h', hperm.mem_iff]

theorem lookup_snoc (h : k ∉ l.map Prod.fst) :
    lookup k' (l ++ [(k, a)]) = if k' = k then some a else lookup k' l := by
  induction l with
  | nil =>
    rw [List.nil_append, lookup_cons, lookup_nil]
    exact if_congr eq_comm rfl rfl
  | cons m l ih =>
    rw [List.map_cons, List.mem_cons, not_or] at h
    rw [List.cons_append, lookup_cons, lookup_cons, ih h.2]
    by_cases hm : m.1 = k'
    · rw [if_pos hm, if_pos hm, if_neg fun heq => h.1 (hm.trans heq).symm]
    · rw [if_neg hm, if_neg hm]

@[simp] theorem keys_overwrite (k : κ) (a : α) (l : List (κ × α)) :
    (overwrite k a l).map Prod.fst = l.map Prod.fst := by
  induction l with
  | nil => rfl
  | cons m l ih =>
    rw [overwrite]
    split
    next => rfl
    next => rw [List.map_cons, ih, List.map_cons]

theorem lookup_overwrite (h : k ∈ l.map Prod.fst) :
    lookup k' (overwrite k a l) = if k' = k then some a else lookup k' l := by
  induction l with
  | nil => cases h
  | cons m l ih =>
    rw [overwrite]
    split
    next hm =>
      rw [lookup_cons, lookup_cons, hm]
      by_cases hk : k' = k
      · rw [if_pos hk.symm, if_pos hk]
      · rw [if_neg (Ne.symm hk), if_neg (Ne.symm hk), if_neg hk]
    next hm =>
      rw [lookup_cons, lookup_cons, ih ((List.mem_cons.mp h).resolve_left (Ne.symm hm))]
      by_cases hk : m.1 = k'
      · rw [if_pos hk, if_pos hk, if_neg fun heq => hm (hk.trans heq)]
      · rw [if_neg hk, if_neg hk]

end Lookup

theorem swapRemove_perm {i : Nat} {l : List α} (h : i < l.length) :
    (swapRemove i l).Perm (l.eraseIdx i) := by
  obtain ⟨xs, x, ys, rfl, rfl⟩ : ∃ xs x ys, l = xs ++ x :: ys ∧ i = xs.length :=
    ⟨l.take i, l[i], l.drop (i + 1), by simp, (List.length_take_of_le (Nat.le_of_lt h)).symm⟩
  rw [List.eraseIdx_append_of_length_le (Nat.le_refl _), Nat.sub_self, List.eraseIdx_zero,
    List.tail_cons]
  rcases List.eq_nil_or_concat' ys with rfl | ⟨ys, y, rfl⟩
  · rw [swapRemove, List.getLast?_append, List.getLast?_singleton, Option.some_or]
    simp
  · have hlast : (xs ++ x :: (ys ++ [y])).getLast? = some y := by
      rw [← List.cons_append, ← List.append_assoc, List.getLast?_concat]
    have hset : (xs ++ x :: (ys ++ [y])).set xs.length y = xs ++ y :: ys ++ [y] := by simp
    have hne : xs.length ≠ (xs ++ x :: (ys ++ [y])).length - 1 := by simp
    rw [swapRemove, hlast]
    simp only
    rw [if_pos hne, hset, List.dropLast_concat]
    exact (List.perm_append_singleton y ys).symm.append_left xs

theorem lookup_eraseIdx {k k' : κ} {l : List (κ × α)} {i : Nat}
    (h : (l.map Prod.fst).Nodup) (hi : l.findIdx? (fun m => m.1 = k) = some i) :
    lookup k' (l.eraseIdx i) = if k' = k then none else lookup k' l := by
  induction l generalizing i with
  | nil => cases hi
  | cons m l ih =>
    obtain ⟨hfresh, hl⟩ := List.nodup_cons.mp h
    rw [List.findIdx?_cons] at hi
    split at hi
    next hm =>
      obtain rfl := Option.some.inj hi
      have hk : m.1 = k := of_decide_eq_true hm
      rw [List.eraseIdx_zero, List.tail_cons, lookup_cons]
      by_cases heq : k' = k
      · rw [if_pos heq, heq, ← hk]
        exact lookup_eq_none_iff.mpr hfresh
      · rw [if_neg heq, if_neg fun h' => heq (h'.symm.trans hk)]
    next hm =>
      obtain ⟨j, hj, rfl⟩ := Option.map_eq_some_iff.mp hi
      rw [List.eraseIdx_cons_succ, lookup_cons, lookup_cons, ih hl hj]
      by_cases heq : m.1 = k'
      · rw [if_pos heq, if_pos heq, if_neg fun h' => hm (decide_eq_true (heq.trans h'))]
      · rw [if_neg heq, if_neg heq]

theorem lookup_swapRemove {k k' : κ} {l : List (κ × α)} {i : Nat}
    (h : (l.map Prod.fst).Nodup) (hi : l.findIdx? (fun m => m.1 = k) = some i) :
    lookup k' (swapRemove i l) = if k' = k then none else lookup k' l := by
  have hperm := swapRemove_perm (List.findIdx?_eq_some_iff_findIdx_eq.mp hi).1
  have hnodup : ((l.eraseIdx i).map Prod.fst).Nodup :=
    h.sublist ((List.eraseIdx_sublist l i).map Prod.fst)
  rw [← lookup_perm hperm.symm hnodup, lookup_eraseIdx h hi]

omit [DecidableEq κ] in
theorem nodup_swapRemove {l : List (κ × α)} {i : Nat} (h : (l.map Prod.fst).Nodup)
    (hi : i < l.length) : ((swapRemove i l).map Prod.fst).Nodup :=
  ((swapRemove_perm hi).map Prod.fst).nodup_iff.mpr
    (h.sublist ((List.eraseIdx_sublist l i).map Prod.fst))

end PCom.Lib
