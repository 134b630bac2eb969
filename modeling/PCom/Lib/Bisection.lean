import Mathlib.Order.Lattice

/-! Binary search over an arbitrary sequence, sorted or not. -/

namespace PCom.Lib.Bisection

variable {κ : Type*} [LinearOrder κ]

/-- The halving search for `k` among the positions `lo ≤ i < hi` of `a`. -/
def search (a : Nat → κ) (k : κ) (lo hi : Nat) : Option Nat :=
  if lo < hi then
    let mid := (lo + (hi - 1)) / 2
    if k = a mid then some mid
    else if k < a mid then search a k lo mid
    else search a k (mid + 1) hi
  else none
termination_by hi - lo

/-- The midpoints that halving `lo ≤ i < hi` meets before it arrives at position `j`. -/
def path (lo hi j : Nat) : List Nat :=
  if lo < hi then
    let mid := (lo + (hi - 1)) / 2
    if j = mid then []
    else if j < mid then mid :: path lo mid j
    else mid :: path (mid + 1) hi j
  else []
termination_by hi - lo

/-- Comparing with `k` at every midpoint before `j` leads towards `j`. -/
def LeadsTo (a : Nat → κ) (k : κ) (lo hi j : Nat) : Prop :=
  ∀ m ∈ path lo hi j, (m < j → a m ≤ k) ∧ (j < m → k ≤ a m)

theorem search_of_ge {a : Nat → κ} {k : κ} {lo hi : Nat} (h : hi ≤ lo) :
    search a k lo hi = none := by
  rw [search, if_neg (by omega)]

theorem search_step {a : Nat → κ} {k : κ} {lo hi mid : Nat} (h : lo < hi)
    (hmid : mid = (lo + (hi - 1)) / 2) :
    search a k lo hi =
      if k = a mid then some mid
      else if k < a mid then search a k lo mid
      else search a k (mid + 1) hi := by
  subst hmid
  rw [search, if_pos h]

theorem path_step {lo hi j mid : Nat} (h : lo < hi) (hmid : mid = (lo + (hi - 1)) / 2) :
    path lo hi j =
      if j = mid then []
      else if j < mid then mid :: path lo mid j
      else mid :: path (mid + 1) hi j := by
  subst hmid
  rw [path, if_pos h]

/-- Whatever the order of the sequence, a hit is a position in the window that holds `k`,
and every midpoint met on the way pointed to it. -/
theorem search_some {a : Nat → κ} {k : κ} {lo hi j : Nat} (h : search a k lo hi = some j) :
    lo ≤ j ∧ j < hi ∧ a j = k ∧ LeadsTo a k lo hi j := by
  induction lo, hi using search.induct a k with
  | case1 lo hi hlt mid hk =>
    rw [search_step hlt rfl, if_pos hk] at h
    obtain rfl : mid = j := Option.some.inj h
    refine ⟨by omega, by omega, hk.symm, ?_⟩
    rw [LeadsTo, path_step hlt rfl, if_pos rfl]
    simp
  | case2 lo hi hlt mid hk hlt' ih =>
    rw [search_step hlt rfl, if_neg hk, if_pos hlt'] at h
    obtain ⟨hlo, hhi, haj, hpath⟩ := ih h
    refine ⟨hlo, by omega, haj, ?_⟩
    rw [LeadsTo, path_step hlt rfl, if_neg (by omega), if_pos hhi]
    intro m hm
    rcases List.mem_cons.mp hm with rfl | hm
    · exact ⟨fun hmj => by omega, fun _ => hlt'.le⟩
    · exact hpath m hm
  | case3 lo hi hlt mid hk hge ih =>
    rw [search_step hlt rfl, if_neg hk, if_neg hge] at h
    obtain ⟨hlo, hhi, haj, hpath⟩ := ih h
    refine ⟨by omega, hhi, haj, ?_⟩
    rw [LeadsTo, path_step hlt rfl, if_neg (by omega), if_neg (by omega)]
    intro m hm
    rcases List.mem_cons.mp hm with rfl | hm
    · exact ⟨fun _ => not_lt.mp hge, fun hjm => by omega⟩
    · exact hpath m hm
  | case4 lo hi hge =>
    rw [search_of_ge (by omega)] at h
    cases h

theorem search_isSome_of_leadsTo {a : Nat → κ} {k : κ} {lo hi j : Nat}
    (hlo : lo ≤ j) (hhi : j < hi) (haj : a j = k) (hpath : LeadsTo a k lo hi j) :
    (search a k lo hi).isSome := by
  induction lo, hi using search.induct a k with
  | case1 lo hi hlt mid hk => rw [search_step hlt rfl, if_pos hk]; rfl
  | case2 lo hi hlt mid hk hlt' ih =>
    rw [search_step hlt rfl, if_neg hk, if_pos hlt']
    have hne : j ≠ mid := by
      rintro rfl
      exact hk haj.symm
    rw [LeadsTo, path_step hlt rfl, if_neg hne] at hpath
    by_cases hj : j < mid
    · rw [if_pos hj] at hpath
      exact ih hlo hj fun m hm => hpath m (List.mem_cons_of_mem _ hm)
    · rw [if_neg hj] at hpath
      have hle := (hpath mid List.mem_cons_self).1 (by omega)
      exact absurd hlt' (not_lt.mpr hle)
  | case3 lo hi hlt mid hk hge ih =>
    rw [search_step hlt rfl, if_neg hk, if_neg hge]
    have hne : j ≠ mid := by
      rintro rfl
      exact hk haj.symm
    rw [LeadsTo, path_step hlt rfl, if_neg hne] at hpath
    by_cases hj : j < mid
    · rw [if_pos hj] at hpath
      have hle := (hpath mid List.mem_cons_self).2 hj
      exact absurd (lt_of_le_of_ne hle hk) hge
    · rw [if_neg hj] at hpath
      exact ih (by omega) hhi fun m hm => hpath m (List.mem_cons_of_mem _ hm)
  | case4 lo hi hge => omega

theorem search_isSome_iff (a : Nat → κ) (k : κ) (lo hi : Nat) :
    (search a k lo hi).isSome ↔
      ∃ j, lo ≤ j ∧ j < hi ∧ a j = k ∧ LeadsTo a k lo hi j := by
  constructor
  · intro h
    obtain ⟨j, hj⟩ := Option.isSome_iff_exists.mp h
    exact ⟨j, search_some hj⟩
  · rintro ⟨j, hlo, hhi, haj, hpath⟩
    exact search_isSome_of_leadsTo hlo hhi haj hpath

theorem mem_path_bounds {lo hi j m : Nat} (h : m ∈ path lo hi j) : lo ≤ m ∧ m < hi := by
  induction lo, hi using path.induct j with
  | case1 lo hi hlt mid hj =>
    rw [path_step hlt rfl, if_pos hj] at h
    cases h
  | case2 lo hi hlt mid hne hj ih =>
    rw [path_step hlt rfl, if_neg hne, if_pos hj] at h
    rcases List.mem_cons.mp h with rfl | h
    · omega
    · have := ih h
      omega
  | case3 lo hi hlt mid hne hj ih =>
    rw [path_step hlt rfl, if_neg hne, if_neg hj] at h
    rcases List.mem_cons.mp h with rfl | h
    · omega
    · have := ih h
      omega
  | case4 lo hi hge =>
    rw [path, if_neg hge] at h
    cases h

theorem leadsTo_of_sorted {a : Nat → κ} {lo hi j : Nat} (hj : j < hi)
    (h : ∀ i i', i < i' → i' < hi → a i ≤ a i') : LeadsTo a (a j) lo hi j := fun m hm =>
  ⟨fun hmj => h m j hmj hj, fun hjm => h j m hjm (mem_path_bounds hm).2⟩

end PCom.Lib.Bisection
