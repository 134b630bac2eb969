import Mathlib.Data.List.Sort

/-! The C library's `qsort`, known only by what its documentation promises. -/

namespace PCom.Lib

variable {α : Type}

/-- What makes a comparison function an order on the elements of `l`. -/
structure ConsistentOn (cmp : α → α → Int) (l : List α) : Prop where
  antisymm : ∀ a ∈ l, ∀ b ∈ l, cmp a b < 0 ↔ 0 < cmp b a
  trans : ∀ a ∈ l, ∀ b ∈ l, ∀ c ∈ l, cmp a b ≤ 0 → cmp b c ≤ 0 → cmp a c ≤ 0

theorem ConsistentOn.subset {cmp : α → α → Int} {l l' : List α} (h : ConsistentOn cmp l)
    (hsub : ∀ x ∈ l', x ∈ l) : ConsistentOn cmp l' where
  antisymm a ha b hb := h.antisymm a (hsub a ha) b (hsub b hb)
  trans a ha b hb c hc := h.trans a (hsub a ha) b (hsub b hb) c (hsub c hc)

/-- `qsort` moves elements about.  Only a consistent comparison function is promised an
ordered permutation. -/
structure Qsort (α : Type) where
  sort : (α → α → Int) → List α → List α
  length_sort : ∀ cmp l, (sort cmp l).length = l.length
  mem_of_mem_sort : ∀ cmp l x, x ∈ sort cmp l → x ∈ l
  perm_sort : ∀ cmp l, ConsistentOn cmp l → (sort cmp l).Perm l
  sorted_sort : ∀ cmp l, ConsistentOn cmp l → (sort cmp l).Pairwise fun a b => cmp a b ≤ 0

section Insertion

variable (cmp : α → α → Int)

def insertBy (l : List α) : List α := l.insertionSort fun a b => cmp a b ≤ 0

theorem insertBy_perm (l : List α) : (insertBy cmp l).Perm l := List.perm_insertionSort _ l

theorem orderedInsert_pairwise {x : α} {l : List α} (hc : ConsistentOn cmp (x :: l))
    (h : l.Pairwise fun a b => cmp a b ≤ 0) :
    (l.orderedInsert (fun a b => cmp a b ≤ 0) x).Pairwise fun a b => cmp a b ≤ 0 := by
  induction l with
  | nil => simp
  | cons b l ih =>
    rw [List.pairwise_cons] at h
    rw [List.orderedInsert]
    by_cases hxb : cmp x b ≤ 0
    · rw [if_pos hxb, List.pairwise_cons, List.pairwise_cons]
      refine ⟨fun y hy => ?_, h⟩
      rcases List.mem_cons.mp hy with rfl | hyl
      · exact hxb
      · exact hc.trans x (by simp) b (by simp) y (by simp [hyl]) hxb (h.1 y hyl)
    · rw [if_neg hxb, List.pairwise_cons]
      have hbx : cmp b x < 0 := (hc.antisymm b (by simp) x (by simp)).mpr (not_le.mp hxb)
      refine ⟨fun y hy => ?_, ih (hc.subset fun y hy => ?_) h.2⟩
      · rcases (List.mem_orderedInsert _).mp hy with rfl | hyl
        · exact hbx.le
        · exact h.1 y hyl
      · rcases List.mem_cons.mp hy with rfl | hyl
        · simp
        · simp [hyl]

theorem insertBy_pairwise {l : List α} (hc : ConsistentOn cmp l) :
    (insertBy cmp l).Pairwise fun a b => cmp a b ≤ 0 := by
  induction l with
  | nil => simp [insertBy]
  | cons x l ih =>
    have htail := ih (hc.subset fun y hy => by simp [hy])
    refine orderedInsert_pairwise cmp (hc.subset fun y hy => ?_) htail
    rcases List.mem_cons.mp hy with rfl | hyl
    · simp
    · simp [(insertBy_perm cmp l).mem_iff.mp hyl]

end Insertion

namespace Qsort

def insertion : Qsort α where
  sort := insertBy
  length_sort cmp l := (insertBy_perm cmp l).length_eq
  mem_of_mem_sort cmp l _ := (insertBy_perm cmp l).mem_iff.mp
  perm_sort cmp l _ := insertBy_perm cmp l
  sorted_sort cmp _ hc := insertBy_pairwise cmp hc

open Classical in
/-- A `qsort` that leaves `l` as `a`, which its promises allow. -/
noncomputable def leaving (cmp : α → α → Int) (l a : List α) (hlen : a.length = l.length)
    (hmem : ∀ x ∈ a, x ∈ l)
    (ha : ConsistentOn cmp l → a.Perm l ∧ a.Pairwise fun x y => cmp x y ≤ 0) : Qsort α where
  sort cmp' l' := if cmp' = cmp ∧ l' = l then a else insertBy cmp' l'
  length_sort cmp' l' := by
    split
    next h => rw [h.2, hlen]
    next => exact insertion.length_sort cmp' l'
  mem_of_mem_sort cmp' l' x := by
    split
    next h => exact fun hx => h.2 ▸ hmem x hx
    next => exact insertion.mem_of_mem_sort cmp' l' x
  perm_sort cmp' l' hc := by
    split
    next h => exact h.2 ▸ (ha (h.1 ▸ h.2 ▸ hc)).1
    next => exact insertion.perm_sort cmp' l' hc
  sorted_sort cmp' l' hc := by
    split
    next h => exact h.1 ▸ (ha (h.1 ▸ h.2 ▸ hc)).2
    next => exact insertion.sorted_sort cmp' l' hc

theorem leaving_sort {cmp : α → α → Int} {l a : List α} (hlen : a.length = l.length)
    (hmem : ∀ x ∈ a, x ∈ l)
    (ha : ConsistentOn cmp l → a.Perm l ∧ a.Pairwise fun x y => cmp x y ≤ 0) :
    (leaving cmp l a hlen hmem ha).sort cmp l = a := by
  simp [leaving]

end Qsort

end PCom.Lib
