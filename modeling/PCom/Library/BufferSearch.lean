import Mathlib.Data.List.Forall2
import Mathlib.Order.Bounds.Basic
import PCom.Library.Buffer

/-! What the searches of `buffer.c` find. -/

namespace PCom.Library

open Lib

/-- `data` stands at place `i` of the buffer, as far as `R` tells bytes apart. -/
def OccursAt (R : Byte → Byte → Prop) (data buffer : Str) (i : Nat) : Prop :=
  ∃ before here after, buffer = before ++ (here ++ after) ∧ before.length = i ∧
    List.Forall₂ R here data

/-- An `int` that is the least place where `data` occurs, or -1 if there is none. -/
structure FindsFirst (R : Byte → Byte → Prop) (data buffer : Str) (r : Int) : Prop where
  least : ∀ i : Nat, r = i ↔ IsLeast {i | OccursAt R data buffer i} i
  missing : r = -1 ↔ ∀ i, ¬ OccursAt R data buffer i

def IsUpper (b : Byte) : Prop := 65 ≤ b.toNat ∧ b.toNat ≤ 90

/-- The same byte up to the case of an ASCII letter. -/
def SameLetter (b d : Byte) : Prop := b = d ∨ IsUpper b ∧ d = b + 32 ∨ IsUpper d ∧ b = d + 32

theorem toLower_eq_iff {b d : Byte} : toLower b = toLower d ↔ SameLetter b d := by
  unfold toLower SameLetter IsUpper
  constructor
  · intro h
    split at h
    next hb =>
      split at h
      next hd =>
        apply Or.inl
        bv_omega
      next hd => exact .inr (.inl ⟨hb, h.symm⟩)
    next hb =>
      split at h
      next hd => exact .inr (.inr ⟨hd, h⟩)
      next hd => exact .inl h
  · rintro (rfl | ⟨hb, rfl⟩ | ⟨hd, rfl⟩)
    · rfl
    · have hlower : ¬ (65 ≤ (b + 32).toNat ∧ (b + 32).toNat ≤ 90) := by bv_omega
      rw [if_pos hb, if_neg hlower]
    · have hlower : ¬ (65 ≤ (d + 32).toNat ∧ (d + 32).toNat ≤ 90) := by bv_omega
      rw [if_pos hd, if_neg hlower]

section Search

variable {key : Byte → Byte} {R : Byte → Byte → Prop} {buffer data : Str}

theorem forall₂_iff_map_eq (hR : ∀ b d, key b = key d ↔ R b d) {here : Str} :
    List.Forall₂ R here data ↔ here.map key = data.map key := by
  have hrel : R = fun b d => key b = key d := by
    funext b d
    exact propext (hR b d).symm
  rw [hrel, ← List.forall₂_eq_eq_eq, List.forall₂_map_left_iff, List.forall₂_map_right_iff]

theorem occursAt_iff (hR : ∀ b d, key b = key d ↔ R b d) {i : Nat} :
    OccursAt R data buffer i ↔
      i ≤ (buffer.map key).length ∧ data.map key <+: (buffer.map key).drop i := by
  constructor
  · rintro ⟨before, here, after, rfl, rfl, hhere⟩
    have hdrop : ((before ++ (here ++ after)).map key).drop before.length
        = here.map key ++ after.map key := by
      rw [List.map_append, List.map_append, ← List.length_map key, List.drop_left]
    refine ⟨by simp, ?_⟩
    rw [hdrop, (forall₂_iff_map_eq hR).mp hhere]
    exact List.prefix_append _ _
  · rintro ⟨hi, hocc⟩
    rw [List.length_map] at hi
    refine ⟨buffer.take i, (buffer.drop i).take data.length, (buffer.drop i).drop data.length,
      ?_, List.length_take_of_le hi, ?_⟩
    · rw [List.take_append_drop, List.take_append_drop]
    · rw [forall₂_iff_map_eq hR, List.map_take, List.map_drop]
      rw [List.prefix_iff_eq_take, List.length_map] at hocc
      exact hocc.symm

theorem position_isLeast (hR : ∀ b d, key b = key d ↔ R b d) {i : Nat} :
    position (data.map key) (buffer.map key) = some i ↔
      IsLeast {i | OccursAt R data buffer i} i := by
  rw [position_eq_some]
  constructor
  · rintro ⟨hi, hocc, hfirst⟩
    refine ⟨(occursAt_iff hR).mpr ⟨hi, hocc⟩, fun k hk => ?_⟩
    by_contra hlt
    exact hfirst k (Nat.lt_of_not_le hlt) ((occursAt_iff hR).mp hk).2
  · rintro ⟨hi, hleast⟩
    obtain ⟨hle, hocc⟩ := (occursAt_iff hR).mp hi
    refine ⟨hle, hocc, fun k hk hocc' => ?_⟩
    have hik : i ≤ k := hleast ((occursAt_iff hR).mpr ⟨by omega, hocc'⟩)
    omega

theorem findsFirst_bufferFindBy (hR : ∀ b d, key b = key d ↔ R b d)
    (h : buffer.length < 2 ^ 31) :
    ∃ r, bufferFindBy key buffer data = some r ∧ FindsFirst R data buffer r := by
  refine ⟨_, bufferFindBy_eq, ?_⟩
  cases hplace : position (data.map key) (buffer.map key) with
  | none =>
    have hnone : ∀ i, ¬ OccursAt R data buffer i := by
      intro i hi
      obtain ⟨hle, hocc⟩ := (occursAt_iff hR).mp hi
      exact position_eq_none.mp hplace i hle hocc
    refine ⟨fun i => ?_, iff_of_true rfl hnone⟩
    refine iff_of_false ?_ fun hi => hnone i hi.1
    simp only [found]
    omega
  | some k =>
    have hk := (position_isLeast hR).mp hplace
    have hle : k ≤ (buffer.map key).length := ((occursAt_iff hR).mp hk.1).1
    rw [List.length_map] at hle
    have hfound : found (some k) = k := asInt_of_bounds (by omega) (by omega)
    rw [hfound]
    constructor
    · intro i
      rw [← position_isLeast hR, hplace, Option.some_inj]
      exact Int.natCast_inj
    · exact iff_of_false (by omega) fun hnone => hnone k hk.1

end Search

/-- Both searches return the least place where the pattern occurs, and -1 exactly if it occurs
nowhere, without a read outside of the buffer or of the pattern. -/
theorem bufferFind_findsFirst {buffer : Str} (h : buffer.length < 2 ^ 31) (data : Str) :
    (∃ r, bufferFind buffer data = some r ∧ FindsFirst (· = ·) data buffer r) ∧
      ∃ r, bufferFindInsensitive buffer data = some r ∧ FindsFirst SameLetter data buffer r :=
  ⟨findsFirst_bufferFindBy (fun _ _ => Iff.rfl) h,
    findsFirst_bufferFindBy (fun _ _ => toLower_eq_iff) h⟩

theorem bufferFind_findsFirst_header :
    (ascii "Host: a").length < 2 ^ 31 ∧
      (∃ r, bufferFind (ascii "Host: a") (ascii "host") = some r ∧
        FindsFirst (· = ·) (ascii "host") (ascii "Host: a") r) ∧
      ∃ r, bufferFindInsensitive (ascii "Host: a") (ascii "host") = some r ∧
        FindsFirst SameLetter (ascii "host") (ascii "Host: a") r :=
  ⟨by decide, bufferFind_findsFirst (by decide) (ascii "host")⟩

example : bufferFind (ascii "Host: a") (ascii "host") = some (-1) ∧
    bufferFindInsensitive (ascii "Host: a") (ascii "host") = some 0 := by decide

end PCom.Library
