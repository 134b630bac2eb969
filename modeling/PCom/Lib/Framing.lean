import Mathlib.Data.List.Basic
import Mathlib.Data.List.Infix

/-! A receiver that takes each result of a read for one whole message. -/

namespace PCom.Lib

/-- `want` is how much the next read asks for, nothing once the receiver has stopped.  Of what the
read returns only its view reaches the receiver. -/
structure Receiver (σ β ν : Type*) where
  want : σ → Nat
  view : List β → ν
  next : σ → ν → σ

namespace Receiver

variable {σ β ν : Type*} (r : Receiver σ β ν)

/-- What the receiver acts on: its state and view at each read. -/
def trace : σ → List (List β) → List (σ × ν)
  | _, [] => []
  | s, c :: cs => (s, r.view c) :: trace (r.next s (r.view c)) cs

def final : σ → List (List β) → σ
  | s, [] => s
  | s, c :: cs => final (r.next s (r.view c)) cs

/-- Every read returns something, and no more than it asked for. -/
def Cuts : σ → List (List β) → Prop
  | _, [] => True
  | s, c :: cs => (0 < c.length ∧ c.length ≤ r.want s) ∧ Cuts (r.next s (r.view c)) cs

/-- Every read returns as much as it asked for, and it asks for something. -/
def Whole : σ → List (List β) → Prop
  | _, [] => True
  | s, c :: cs => (0 < c.length ∧ c.length = r.want s) ∧ Whole (r.next s (r.view c)) cs

/-- The reads cut up the stream, or the beginning of it up to where the receiver stops. -/
def Delivers (s : σ) (cs : List (List β)) (stream : List β) : Prop :=
  r.Cuts s cs ∧ (cs.flatten = stream ∨ r.want (r.final s cs) = 0 ∧ cs.flatten <+: stream)

variable {r}

theorem Whole.cuts {s : σ} {cs : List (List β)} (h : r.Whole s cs) : r.Cuts s cs := by
  induction cs generalizing s with
  | nil => trivial
  | cons c cs ih => exact ⟨⟨h.1.1, h.1.2.le⟩, ih h.2⟩

theorem final_eq_of_trace_eq {s : σ} {cs ds : List (List β)} (h : r.trace s cs = r.trace s ds) :
    r.final s cs = r.final s ds := by
  induction cs generalizing s ds with
  | nil =>
    cases ds with
    | nil => rfl
    | cons d ds => cases h
  | cons c cs ih =>
    cases ds with
    | nil => cases h
    | cons d ds =>
      obtain ⟨hhead, htail⟩ := List.cons.inj h
      have hview : r.view c = r.view d := (Prod.mk.inj hhead).2
      rw [final, final, hview]
      rw [hview] at htail
      exact ih htail

theorem eq_of_whole {s : σ} {cs ms : List (List β)} (hcs : r.Whole s cs) (hms : r.Whole s ms)
    (h : cs.flatten = ms.flatten ∨ r.want (r.final s cs) = 0 ∧ cs.flatten <+: ms.flatten) :
    cs = ms := by
  induction cs generalizing s ms with
  | nil =>
    cases ms with
    | nil => rfl
    | cons m ms =>
      have hpos := hms.1.1
      rcases h with h | ⟨hstop, -⟩
      · have hlen := congrArg List.length h
        rw [List.flatten_nil, List.flatten_cons, List.length_append, List.length_nil] at hlen
        omega
      · have hwant := hms.1.2
        rw [final] at hstop
        omega
  | cons c cs ih =>
    have hprefix : (c :: cs).flatten <+: ms.flatten := by
      rcases h with h | h
      · rw [h]
      · exact h.2
    cases ms with
    | nil =>
      have hpos := hcs.1.1
      have hlen := hprefix.length_le
      rw [List.flatten_nil, List.flatten_cons, List.length_append, List.length_nil] at hlen
      omega
    | cons m ms =>
      have hlen : c.length = m.length := hcs.1.2.trans hms.1.2.symm
      rw [List.flatten_cons, List.flatten_cons] at h hprefix
      obtain ⟨rest, hrest⟩ := hprefix
      rw [List.append_assoc] at hrest
      obtain rfl : c = m := List.append_inj_left hrest hlen
      have htail : cs.flatten = ms.flatten ∨
          r.want (r.final (r.next s (r.view c)) cs) = 0 ∧ cs.flatten <+: ms.flatten := by
        rcases h with h | ⟨hstop, h⟩
        · exact .inl (List.append_cancel_left h)
        · exact .inr ⟨hstop, (List.prefix_append_right_inj c).mp h⟩
      rw [ih hcs.2 hms.2 htail]

theorem length_of_trace_eq {s : σ} {cs ms : List (List β)} (hcs : r.Cuts s cs) (hms : r.Whole s ms)
    (h : r.trace s cs = r.trace s ms) :
    cs.flatten.length ≤ ms.flatten.length ∧
      (cs.flatten.length = ms.flatten.length → r.Whole s cs) := by
  induction cs generalizing s ms with
  | nil => exact ⟨Nat.zero_le _, fun _ => trivial⟩
  | cons c cs ih =>
    cases ms with
    | nil => cases h
    | cons m ms =>
      obtain ⟨hhead, htail⟩ := List.cons.inj h
      have hview : r.view c = r.view m := (Prod.mk.inj hhead).2
      rw [← hview] at htail
      have hmsTail : r.Whole (r.next s (r.view c)) ms := hview ▸ hms.2
      obtain ⟨hle, hwhole⟩ := ih hcs.2 hmsTail htail
      have hc := hcs.1
      have hm := hms.1.2
      simp only [List.flatten_cons, List.length_append]
      refine ⟨by omega, fun heq => ⟨⟨hc.1, by omega⟩, hwhole (by omega)⟩⟩

theorem trace_eq_of_whole {s : σ} {cs ms : List (List β)} (hms : r.Whole s ms)
    (hdel : r.Delivers s cs ms.flatten) (hcs : r.Whole s cs) : r.trace s cs = r.trace s ms := by
  rw [eq_of_whole hcs hms hdel.2]

theorem whole_of_trace_eq {s : σ} {cs ms : List (List β)} (hms : r.Whole s ms)
    (hdel : r.Delivers s cs ms.flatten) (hgo : r.want (r.final s ms) ≠ 0)
    (h : r.trace s cs = r.trace s ms) : r.Whole s cs := by
  rcases hdel.2 with hall | ⟨hstop, -⟩
  · exact (length_of_trace_eq hdel.1 hms h).2 (congrArg List.length hall)
  · rw [final_eq_of_trace_eq h] at hstop
    exact absurd hstop hgo

end Receiver

end PCom.Lib
