/-! Two implementations of the same calls.  Where a simulation relates their states they answer
alike, whatever they are called with. -/

namespace PCom.Lib

variable {σ τ γ ρ ε : Type}

/-- What an implementation answers to calls.  A call that fails ends the run. -/
def answers (step : σ → γ → Except ε (ρ × σ)) : σ → List γ → List (Except ε ρ)
  | _, [] => []
  | s, c :: cs =>
    match step s c with
    | .error e => [.error e]
    | .ok (r, s') => .ok r :: answers step s' cs

/-- The same failure, or the same answer and related states. -/
inductive Alike (R : σ → τ → Prop) : Except ε (ρ × σ) → Except ε (ρ × τ) → Prop
  | error {e : ε} : Alike R (.error e) (.error e)
  | ok {r : ρ} {s : σ} {t : τ} : R s t → Alike R (.ok (r, s)) (.ok (r, t))

def Simulates (R : σ → τ → Prop) (step : σ → γ → Except ε (ρ × σ))
    (step' : τ → γ → Except ε (ρ × τ)) : Prop :=
  ∀ s t, R s t → ∀ c, Alike R (step s c) (step' t c)

theorem Simulates.answers_eq {R : σ → τ → Prop} {step : σ → γ → Except ε (ρ × σ)}
    {step' : τ → γ → Except ε (ρ × τ)} (h : Simulates R step step') {s : σ} {t : τ} (hst : R s t)
    (cs : List γ) : answers step s cs = answers step' t cs := by
  induction cs generalizing s t with
  | nil => rfl
  | cons c cs ih =>
    have hc := h s t hst c
    rw [answers, answers]
    generalize step s c = r at hc
    generalize step' t c = r' at hc
    cases hc with
    | error => rfl
    | ok hnext =>
      simp only [List.cons.injEq, true_and]
      exact ih hnext

theorem exists_step_of_mem_answers {step : σ → γ → Except ε (ρ × σ)} {s : σ} {cs : List γ} {e : ε}
    (h : .error e ∈ answers step s cs) : ∃ s', ∃ c ∈ cs, step s' c = .error e := by
  induction cs generalizing s with
  | nil => cases h
  | cons c cs ih =>
    rw [answers] at h
    split at h
    next e' hstep =>
      cases List.mem_singleton.mp h
      exact ⟨s, c, List.mem_cons_self, hstep⟩
    next r s' hstep =>
      rcases List.mem_cons.mp h with h | h
      · cases h
      · obtain ⟨s'', c', hc', hfail⟩ := ih h
        exact ⟨s'', c', List.mem_cons_of_mem c hc', hfail⟩

end PCom.Lib
