import Mathlib.Data.List.Basic

/-! Runs of a labelled transition system and properties of all their states. -/

namespace PCom.Lib

section Fallible

variable {ε α β : Type}

@[simp] theorem ok_bind (a : α) (f : α → Except ε β) : (.ok a >>= f) = f a := rfl

@[simp] theorem error_bind (e : ε) (f : α → Except ε β) : (.error e >>= f) = .error e := rfl

theorem pure_eq_ok (a : α) : (pure a : Except ε α) = .ok a := rfl

theorem bind_ok {x : Except ε α} {f : α → Except ε β} {b : β}
    (h : x >>= f = .ok b) : ∃ a, x = .ok a ∧ f a = .ok b := by
  cases x with
  | error e => cases h
  | ok a => exact ⟨a, rfl, h⟩

theorem bind_error {x : Except ε α} {f : α → Except ε β} {e : ε}
    (h : x >>= f = .error e) : x = .error e ∨ ∃ a, x = .ok a ∧ f a = .error e := by
  cases x with
  | error e' =>
    cases h
    exact .inl rfl
  | ok a => exact .inr ⟨a, rfl, h⟩

@[simp] theorem mapError_ok {ε' : Type} (f : ε → ε') (a : α) :
    (.ok a : Except ε α).mapError f = .ok a := rfl

@[simp] theorem mapError_eq_ok {ε' : Type} {f : ε → ε'} {x : Except ε α} {a : α} :
    x.mapError f = .ok a ↔ x = .ok a := by
  cases x with
  | error e => simp [Except.mapError]
  | ok b => simp [Except.mapError]

end Fallible

variable {σ ε : Type*}

/-- A run from `s₀`.  The log holds each step's state before it and its event, oldest first. -/
inductive Run (step : σ → ε → σ → Prop) (s₀ : σ) : List (σ × ε) → σ → Prop
  | nil : Run step s₀ [] s₀
  | snoc {log s e s'} : Run step s₀ log s → step s e s' → Run step s₀ (log ++ [(s, e)]) s'

namespace Run

variable {step : σ → ε → σ → Prop} {s₀ : σ}

theorem imp {step' : σ → ε → σ → Prop} {log : List (σ × ε)} {s : σ} (h : Run step s₀ log s)
    (hstep : ∀ x ∈ log, ∀ s', step x.1 x.2 s' → step' x.1 x.2 s') : Run step' s₀ log s := by
  induction h with
  | nil => exact .nil
  | snoc h hs ih =>
    have hrest := ih fun x hx => hstep x (List.mem_append_left _ hx)
    exact hrest.snoc (hstep _ (List.mem_append_right _ (List.mem_singleton_self _)) _ hs)

theorem of_foldlM {next : σ → ε → Option σ}
    (hnext : ∀ {s e s'}, next s e = some s' → step s e s') {log : List (σ × ε)} {s s' : σ}
    {es : List ε} (h : Run step s₀ log s) (hplay : es.foldlM next s = some s') :
    ∃ log', Run step s₀ log' s' ∧ log'.map Prod.snd = log.map Prod.snd ++ es := by
  induction es generalizing s log with
  | nil =>
    obtain rfl := Option.some.inj hplay
    exact ⟨log, h, by simp⟩
  | cons e es ih =>
    rw [List.foldlM_cons] at hplay
    obtain ⟨s₁, hs, hrest⟩ := Option.bind_eq_some_iff.mp hplay
    obtain ⟨log', hrun, hlog⟩ := ih (h.snoc (hnext hs)) hrest
    exact ⟨log', hrun, by simpa using hlog⟩

theorem of_append {log rest : List (σ × ε)} {s s' : σ} {e : ε}
    (h : Run step s₀ (log ++ (s, e) :: rest) s') :
    Run step s₀ log s ∧ ∃ s'', step s e s'' := by
  generalize hwhole : log ++ (s, e) :: rest = whole at h
  induction h generalizing rest with
  | nil => simp at hwhole
  | @snoc whole s₁ e₁ s₂ h hs ih =>
    rcases List.eq_nil_or_concat rest with rfl | ⟨rest, x, rfl⟩
    · obtain ⟨rfl, hlast⟩ := List.append_inj' hwhole rfl
      cases hlast
      exact ⟨h, s₂, hs⟩
    · rw [List.concat_eq_append, ← List.cons_append, ← List.append_assoc] at hwhole
      obtain ⟨rfl, -⟩ := List.append_inj' hwhole rfl
      exact ih rfl

theorem step_of_mem {log : List (σ × ε)} {s : σ} (h : Run step s₀ log s) {x : σ × ε} (hx : x ∈ log) :
    ∃ s', step x.1 x.2 s' := by
  obtain ⟨before, after, rfl⟩ := List.append_of_mem hx
  exact h.of_append.2

/-- Two entries of a log, the one before the other. -/
theorem pairwise_iff_split {α : Type*} {R : α → α → Prop} {log : List α} :
    log.Pairwise R ↔
      ∀ before x between y after, log = before ++ x :: (between ++ y :: after) → R x y := by
  constructor
  · rintro h before x between y after rfl
    have hx := (List.pairwise_cons.mp (List.pairwise_append.mp h).2.1).1
    exact hx y (List.mem_append_right _ List.mem_cons_self)
  · intro h
    induction log with
    | nil => exact .nil
    | cons a log ih =>
      refine List.pairwise_cons.mpr ⟨fun y hy => ?_, ih fun before x between y after hlog => ?_⟩
      · obtain ⟨between, after, rfl⟩ := List.append_of_mem hy
        exact h [] a between y after rfl
      · exact h (a :: before) x between y after (congrArg (a :: ·) hlog)

/-- The last thing that the entries of a log say, if any of them says something. -/
def latest {α β : Type*} (f : α → Option β) (log : List α) : Option β := log.reverse.findSome? f

theorem latest_snoc {α β : Type*} (f : α → Option β) (log : List α) (x : α) :
    latest f (log ++ [x]) = (f x).or (latest f log) := by
  rw [latest, List.reverse_append, List.reverse_singleton, List.singleton_append,
    List.findSome?_cons]
  cases f x <;> rfl

theorem mem_of_latest {α β : Type*} {f : α → Option β} {log : List α} {b : β}
    (h : latest f log = some b) : ∃ x ∈ log, f x = some b := by
  obtain ⟨x, hx, hb⟩ := List.exists_of_findSome?_eq_some h
  exact ⟨x, List.mem_reverse.mp hx, hb⟩

theorem latest_eq_none_iff {α β : Type*} {f : α → Option β} {log : List α} :
    latest f log = none ↔ ∀ x ∈ log, f x = none := by
  simp [latest]

/-- `P` holds in every state a run visits, the last one included. -/
def Always (P : σ → Prop) (log : List (σ × ε)) (s : σ) : Prop := (∀ x ∈ log, P x.1) ∧ P s

/-- Every step of a run is taken where `guard` allows its event. -/
def Guarded (guard : σ → ε → Prop) (log : List (σ × ε)) : Prop := ∀ x ∈ log, guard x.1 x.2

theorem guarded_snoc {guard : σ → ε → Prop} {log : List (σ × ε)} {s : σ} {e : ε} :
    Guarded guard (log ++ [(s, e)]) ↔ Guarded guard log ∧ guard s e := by
  simp [Guarded, or_imp, forall_and]

theorem always_snoc {P : σ → Prop} {log : List (σ × ε)} {s s' : σ} {e : ε} :
    Always P (log ++ [(s, e)]) s' ↔ Always P log s ∧ P s' := by
  simp [Always, or_imp, forall_and, and_assoc]

theorem always_of_guarded {guard : σ → ε → Prop} {Inv : σ → Prop} (h₀ : Inv s₀)
    (hstep : ∀ {s e s'}, Inv s → guard s e → step s e s' → Inv s')
    {log : List (σ × ε)} {s : σ} (h : Run step s₀ log s) (hg : Guarded guard log) :
    Always Inv log s := by
  induction h with
  | nil => exact ⟨by simp, h₀⟩
  | snoc h hs ih =>
    rw [guarded_snoc] at hg
    have hinv := ih hg.1
    exact always_snoc.mpr ⟨hinv, hstep hinv.2 hg.2 hs⟩

theorem always_of_invariant {Inv : σ → Prop} (h₀ : Inv s₀)
    (hstep : ∀ {s e s'}, Inv s → step s e s' → Inv s')
    {log : List (σ × ε)} {s : σ} (h : Run step s₀ log s) : Always Inv log s :=
  have hguarded : Guarded (fun _ _ => True) log := fun _ _ => trivial
  always_of_guarded h₀ (fun hinv _ hs => hstep hinv hs) h hguarded

theorem Always.imp {P Q : σ → Prop} {log : List (σ × ε)} {s : σ} (h : Always P log s)
    (hPQ : ∀ {s}, P s → Q s) : Always Q log s :=
  ⟨fun x hx => hPQ (h.1 x hx), hPQ h.2⟩

/-- If a guarded step keeps the invariant and any other step breaks `P`, then the runs on which
`P` always holds are exactly the guarded ones. -/
theorem always_iff_guarded {guard : σ → ε → Prop} {Inv P : σ → Prop} (h₀ : Inv s₀)
    (hP : ∀ {s}, Inv s → P s)
    (hstep : ∀ {s e s'}, Inv s → guard s e → step s e s' → Inv s')
    (hbreak : ∀ {s e s'}, Inv s → ¬ guard s e → step s e s' → ¬ P s')
    {log : List (σ × ε)} {s : σ} (h : Run step s₀ log s) :
    Always P log s ↔ Guarded guard log := by
  constructor
  · intro hall
    induction h with
    | nil => simp [Guarded]
    | snoc h hs ih =>
      rw [always_snoc] at hall
      have hg := ih hall.1
      refine guarded_snoc.mpr ⟨hg, ?_⟩
      by_contra hng
      exact hbreak (always_of_guarded h₀ hstep h hg).2 hng hs hall.2
  · intro hg
    have hall := always_of_guarded h₀ hstep h hg
    exact ⟨fun x hx => hP (hall.1 x hx), hP hall.2⟩

theorem invariant (Inv : σ → Prop) (h₀ : Inv s₀)
    (hstep : ∀ {s e s'}, Inv s → step s e s' → Inv s')
    {log : List (σ × ε)} {s : σ} (h : Run step s₀ log s) : Inv s := by
  induction h with
  | nil => exact h₀
  | snoc h hs ih => exact hstep ih hs

end Run

end PCom.Lib
