import PCom.Lib.Bytes

/-! Scanners that take the longest text from the front of a string, and that what they take does not
depend on what is cut off behind it. -/

namespace PCom.Lib

/-- What a scanner makes of the front of a string, and what is behind that. -/
abbrev Scanner (α : Type) := List Byte → Option (α × List Byte)

namespace Scanner

variable {α β : Type}

def pure (a : α) : Scanner α := fun s => some (a, s)

def bind (f : Scanner α) (g : α → Scanner β) : Scanner β := fun s => (f s).bind fun r => g r.1 r.2

def orElse (f g : Scanner α) : Scanner α := fun s => (f s).or (g s)

def one (p : Byte → Bool) : Scanner Byte
  | [] => none
  | c :: s => if p c then some (c, s) else none

def run (p : Byte → Bool) : Scanner (List Byte) := fun s => some (s.takeWhile p, s.dropWhile p)

def run1 (p : Byte → Bool) : Scanner (List Byte) :=
  (one p).bind fun c => (run p).bind fun cs => pure (c :: cs)

/-- A character for each of the kinds. -/
def each : List (Byte → Bool) → Scanner Unit
  | [] => pure ()
  | p :: ps => (one p).bind fun _ => each ps

section Texts

variable {p : Byte → Bool} {cs rest : List Byte}

theorem one_cons {c : Byte} (hc : p c = true) (rest : List Byte) :
    one p (c :: rest) = some (c, rest) :=
  if_pos hc

theorem one_eq_none (h : ∀ c ∈ rest.head?, p c = false) : one p rest = none := by
  cases rest with
  | nil => rfl
  | cons c rest => exact if_neg (by simp [h c rfl])

theorem run_append (hcs : ∀ c ∈ cs, p c = true) (hrest : ∀ c ∈ rest.head?, p c = false) :
    run p (cs ++ rest) = some (cs, rest) := by
  have hstop : rest.takeWhile p = [] ∧ rest.dropWhile p = rest := by
    cases rest with
    | nil => exact ⟨rfl, rfl⟩
    | cons c rest => simp [hrest c rfl]
  rw [run, List.takeWhile_append_of_pos hcs, List.dropWhile_append_of_pos hcs, hstop.1, hstop.2,
    List.append_nil]

theorem run1_append (hne : cs ≠ []) (hcs : ∀ c ∈ cs, p c = true)
    (hrest : ∀ c ∈ rest.head?, p c = false) : run1 p (cs ++ rest) = some (cs, rest) := by
  obtain ⟨c, cs, rfl⟩ := List.exists_cons_of_ne_nil hne
  obtain ⟨hc, hcs⟩ := List.forall_mem_cons.mp hcs
  rw [run1, List.cons_append, bind, one_cons hc, Option.bind_some, bind, run_append hcs hrest]
  rfl

theorem bind_of_none {f : Scanner α} {g : α → Scanner β} {s : List Byte} (h : f s = none) :
    f.bind g s = none := by
  rw [bind, h]
  rfl

theorem bind_of_some {f : Scanner α} {g : α → Scanner β} {s r : List Byte} {a : α}
    (h : f s = some (a, r)) : f.bind g s = g a r := by
  rw [bind, h]
  rfl

theorem orElse_of_none {f g : Scanner α} {s : List Byte} (h : f s = none) : f.orElse g s = g s := by
  rw [orElse, h]
  rfl

theorem orElse_of_some {f g : Scanner α} {s : List Byte} {r : α × List Byte} (h : f s = some r) :
    f.orElse g s = some r := by
  rw [orElse, h]
  rfl

end Texts

/-- A scanner takes the same where some of what is behind that is cut off. -/
def Local (f : Scanner α) : Prop :=
  ∀ s a r, f s = some (a, r) → ∃ t, s = t ++ r ∧ ∀ p, p <+: r → f (t ++ p) = some (a, p)

/-- A scanner takes nothing where some of what it takes nothing from is cut off. -/
def Upward (f : Scanner α) : Prop := ∀ p s a r, f p = some (a, r) → p <+: s → f s ≠ none

section Laws

variable {f g : Scanner α} {p : Byte → Bool}

theorem local_pure (a : α) : Local (pure a) := by
  intro s b r h
  cases h
  exact ⟨[], rfl, fun p _ => rfl⟩

theorem local_one (p : Byte → Bool) : Local (one p) := by
  intro s a r h
  cases s with
  | nil => cases h
  | cons c s =>
    obtain ⟨hc, heq⟩ := Option.ite_none_right_eq_some.mp h
    cases heq
    exact ⟨[a], rfl, fun q _ => if_pos hc⟩

theorem local_run (p : Byte → Bool) : Local (run p) := by
  intro s a r h
  cases h
  refine ⟨s.takeWhile p, List.takeWhile_append_dropWhile.symm, fun q hq => ?_⟩
  have htake : ∀ c ∈ s.takeWhile p, p c = true := fun c hc => List.mem_takeWhile_imp hc
  refine run_append htake fun c hc => ?_
  cases q with
  | nil => cases hc
  | cons d q =>
    cases hc
    obtain ⟨q', hq'⟩ := hq
    have hhead := List.head_dropWhile_not p (l := s) (by rw [← hq']; exact List.cons_ne_nil _ _)
    simpa [← hq'] using hhead

theorem Local.bind {g : α → Scanner β} (hf : Local f) (hg : ∀ a, Local (g a)) :
    Local (f.bind g) := by
  intro s b r h
  obtain ⟨⟨a, s'⟩, hfs, hgs⟩ := Option.bind_eq_some_iff.mp h
  obtain ⟨t, rfl, ht⟩ := hf s a s' hfs
  obtain ⟨t', rfl, ht'⟩ := hg a s' b r hgs
  refine ⟨t ++ t', (List.append_assoc _ _ _).symm, fun p hp => ?_⟩
  have hpre : t' ++ p <+: t' ++ r := (List.prefix_append_right_inj t').mpr hp
  rw [Scanner.bind, List.append_assoc, ht _ hpre, Option.bind_some]
  exact ht' p hp

theorem Local.orElse (hf : Local f) (hg : Local g) (hup : Upward f) : Local (f.orElse g) := by
  intro s a r h
  rw [Scanner.orElse] at h
  cases hfs : f s with
  | some r' =>
    rw [hfs] at h
    cases h
    obtain ⟨t, hs, ht⟩ := hf s a r hfs
    exact ⟨t, hs, fun p hp => by rw [Scanner.orElse, ht p hp]; rfl⟩
  | none =>
    rw [hfs] at h
    obtain ⟨t, rfl, ht⟩ := hg s a r h
    refine ⟨t, rfl, fun p hp => ?_⟩
    have hnone : f (t ++ p) = none := by
      cases hfp : f (t ++ p) with
      | none => rfl
      | some r' =>
        exact absurd hfs (hup _ _ _ _ hfp ((List.prefix_append_right_inj t).mpr hp))
    rw [Scanner.orElse, hnone]
    exact ht p hp

theorem upward_one (p : Byte → Bool) : Upward (one p) := by
  rintro q s a r h ⟨s', rfl⟩
  cases q with
  | nil => cases h
  | cons c q =>
    obtain ⟨hc, -⟩ := Option.ite_none_right_eq_some.mp h
    rw [List.cons_append, one, if_pos hc]
    exact Option.some_ne_none _

theorem Upward.orElse (hf : Upward f) (hg : Upward g) : Upward (f.orElse g) := by
  intro p s a r h hp
  rw [Scanner.orElse] at h ⊢
  cases hfp : f p with
  | some r' =>
    obtain ⟨r'', hfs⟩ := Option.ne_none_iff_exists'.mp (hf p s r'.1 r'.2 hfp hp)
    rw [hfs]
    exact Option.some_ne_none _
  | none =>
    rw [hfp] at h
    cases hfs : f s with
    | some r' => exact Option.some_ne_none _
    | none => exact hg p s a r h hp

theorem upward_one_bind {g : Byte → Scanner β} (hg : ∀ c, Upward (g c)) :
    Upward ((one p).bind g) := by
  rintro q s b r h ⟨s', rfl⟩
  obtain ⟨⟨c, q'⟩, hq, hgq⟩ := Option.bind_eq_some_iff.mp h
  cases q with
  | nil => cases hq
  | cons d q =>
    obtain ⟨hd, heq⟩ := Option.ite_none_right_eq_some.mp hq
    cases heq
    rw [List.cons_append, Scanner.bind, one, if_pos hd, Option.bind_some]
    exact hg c q' (q' ++ s') b r hgq (List.prefix_append _ _)

theorem upward_of_some {g : Scanner α} (hg : ∀ s, g s ≠ none) : Upward g :=
  fun _ s _ _ _ _ => hg s

theorem bind_ne_none {g : α → Scanner β} {s : List Byte} (hf : f s ≠ none)
    (hg : ∀ a s, g a s ≠ none) : f.bind g s ≠ none := by
  obtain ⟨r, hr⟩ := Option.ne_none_iff_exists'.mp hf
  rw [Scanner.bind, hr, Option.bind_some]
  exact hg _ _

theorem orElse_pure_ne_none (f : Scanner α) (a : α) (s : List Byte) : f.orElse (pure a) s ≠ none := by
  rw [Scanner.orElse, pure]
  cases f s <;> exact Option.some_ne_none _

theorem upward_bind_of_some {g : α → Scanner β} (hf : Upward f) (hg : ∀ a s, g a s ≠ none) :
    Upward (f.bind g) := by
  intro p s b r h hp
  obtain ⟨⟨a, p'⟩, hfp, -⟩ := Option.bind_eq_some_iff.mp h
  obtain ⟨r', hfs⟩ := Option.ne_none_iff_exists'.mp (hf p s a p' hfp hp)
  rw [Scanner.bind, hfs, Option.bind_some]
  exact hg _ _

theorem local_run1 (p : Byte → Bool) : Local (run1 p) :=
  (local_one p).bind fun _ => (local_run p).bind fun _ => local_pure _

theorem upward_run1 (p : Byte → Bool) : Upward (run1 p) :=
  upward_bind_of_some (upward_one p) fun _ _ => Option.some_ne_none _

theorem local_each (ps : List (Byte → Bool)) : Local (each ps) := by
  induction ps with
  | nil => exact local_pure ()
  | cons p ps ih => exact (local_one p).bind fun _ => ih

theorem upward_each (ps : List (Byte → Bool)) : Upward (each ps) := by
  induction ps with
  | nil => exact upward_of_some fun _ => Option.some_ne_none _
  | cons p ps ih => exact upward_one_bind fun _ => ih

theorem bind_assoc {γ : Type} (f : Scanner α) (g : α → Scanner β) (h : β → Scanner γ) :
    (f.bind g).bind h = f.bind fun a => (g a).bind h := by
  funext s
  exact Option.bind_assoc _ _ _

theorem upward_each_bind {g : Scanner α} (hg : Upward g) (ps : List (Byte → Bool)) :
    Upward ((each ps).bind fun _ => g) := by
  induction ps with
  | nil => exact hg
  | cons p ps ih =>
    rw [each, bind_assoc]
    exact upward_one_bind fun _ => ih

theorem upward_run_one_bind {q : Byte → Bool} {g : Byte → Scanner β} (hg : ∀ c, Upward (g c)) :
    Upward ((run p).bind fun _ => (one q).bind g) := by
  rintro x s b r h ⟨y, rfl⟩
  rw [Scanner.bind, run, Option.bind_some] at h ⊢
  induction x with
  | nil => cases h
  | cons c x ih =>
    by_cases hc : p c = true
    · rw [List.dropWhile_cons_of_pos hc] at h
      rw [List.cons_append, List.dropWhile_cons_of_pos hc]
      exact ih h
    · rw [List.dropWhile_cons_of_neg hc] at h
      rw [List.cons_append, List.dropWhile_cons_of_neg hc]
      exact upward_one_bind hg (c :: x) (c :: x ++ y) b r h (List.prefix_append _ _)

end Laws

theorem Local.take {f : Scanner α} (hf : Local f) {s r : List Byte} {a : α}
    (h : f s = some (a, r)) :
    r.length ≤ s.length ∧ f (s.take (s.length - r.length)) = some (a, []) := by
  obtain ⟨t, rfl, ht⟩ := hf s a r h
  have hlength : (t ++ r).length - r.length = t.length := by simp
  refine ⟨by simp, ?_⟩
  rw [hlength, List.take_left]
  simpa using ht [] List.nil_prefix

end Scanner

end PCom.Lib
