import PCom.Library.Requests

/-! The growing buffer of `buffer.c`, as the bytes in it. -/

namespace PCom.Library

open Lib

/-- What an `int` keeps of a number. -/
def asInt (n : Int) : Int := n.bmod (2 ^ 32)

/-- The values of an `int`. -/
def IsInt (n : Int) : Prop := -2 ^ 31 ≤ n ∧ n < 2 ^ 31

instance (n : Int) : Decidable (IsInt n) := inferInstanceAs (Decidable (_ ∧ _))

@[simp] theorem asInt_asInt_add (n k : Int) : asInt (asInt n + k) = asInt (n + k) :=
  Int.bmod_add_bmod

theorem asInt_of_bounds {n : Int} (hlo : -2 ^ 31 ≤ n) (hhi : n < 2 ^ 31) : asInt n = n :=
  Int.bmod_eq_of_le (by omega) (by omega)

theorem le_asInt (n : Int) : -2 ^ 31 ≤ asInt n :=
  Int.le_bmod (by decide)

theorem asInt_lt (n : Int) : asInt n < 2 ^ 31 :=
  Int.bmod_lt (by decide)

theorem asInt_le {n : Int} (h : 0 ≤ n) : asInt n ≤ n := by
  rw [asInt, Int.bmod_def]
  have := Int.emod_add_mul_ediv n (2 ^ 32)
  split <;> omega

def bufferAdd (buffer data : Str) : Str := buffer ++ data

section Find

variable (key : Byte → Byte) (buffer data : Str)

/-- The inner loop at `i`, with `n` bytes left: the value of `j` behind it, or `none` if it reads
outside of the buffer or of `data`. -/
def compareLoop (i : Nat) : Nat → Option Nat
  | 0 => some data.length
  | n + 1 =>
    let j := data.length - (n + 1)
    match buffer[i + j]?, data[j]? with
    | some b, some d => if key b ≠ key d then some j else compareLoop i n
    | _, _ => none

def findLoop (lastPos : Nat) : Nat → Option Int
  | 0 => some (-1)
  | n + 1 => do
    let i := lastPos - (n + 1)
    let j ← compareLoop key buffer data i data.length
    if j = data.length then return asInt i else findLoop lastPos n

/-- `buffer_find` up to `key`, or `none` if it reads outside of the buffer or of `data`. -/
def bufferFindBy : Option Int :=
  if buffer.length < data.length then some (-1)
  else
    let lastPos := buffer.length - data.length + 1
    findLoop key buffer data lastPos lastPos

def bufferFind : Option Int := bufferFindBy id buffer data

def bufferFindInsensitive : Option Int := bufferFindBy toLower buffer data

end Find

/-- A place as the searches return it. -/
def found : Option Nat → Int
  | some i => asInt i
  | none => -1

variable {key : Byte → Byte} {buffer data : Str}

theorem compareLoop_spec {i : Nat} (hi : i + data.length ≤ buffer.length) {n : Nat}
    (hn : n ≤ data.length) :
    ∃ j, compareLoop key buffer data i n = some j ∧ (j = data.length ↔
      (data.drop (data.length - n)).map key <+: (buffer.drop (i + (data.length - n))).map key) := by
  induction n with
  | zero => exact ⟨data.length, rfl, by simp⟩
  | succ n ih =>
    obtain ⟨j, hj, hiff⟩ := ih (Nat.le_of_succ_le hn)
    have hd : data.length - (n + 1) < data.length := by omega
    have hb : i + (data.length - (n + 1)) < buffer.length := by omega
    have hnext : data.length - (n + 1) + 1 = data.length - n := by omega
    rw [List.drop_eq_getElem_cons hd, List.drop_eq_getElem_cons hb, List.map_cons, List.map_cons,
      List.cons_prefix_cons, Nat.add_assoc, hnext, ← hiff, compareLoop]
    simp only [List.getElem?_eq_getElem hd, List.getElem?_eq_getElem hb]
    split
    next hkey =>
      refine ⟨_, rfl, ?_⟩
      constructor
      · intro h
        omega
      · exact fun h => absurd h.1.symm hkey
    next hkey =>
      refine ⟨j, hj, ?_⟩
      simp only [(not_not.mp hkey).symm, true_and]

theorem length_le_of_occurs {i : Nat} (hi : i ≤ (buffer.map key).length)
    (h : data.map key <+: (buffer.map key).drop i) : i + data.length ≤ buffer.length := by
  have hfits := h.length_le
  rw [List.length_map] at hi
  rw [List.length_drop, List.length_map, List.length_map] at hfits
  omega

theorem findLoop_eq (hlen : data.length ≤ buffer.length) {n : Nat}
    (hn : n ≤ buffer.length - data.length + 1)
    (hbefore : ∀ i < buffer.length - data.length + 1 - n,
      ¬ data.map key <+: (buffer.map key).drop i) :
    findLoop key buffer data (buffer.length - data.length + 1) n
      = some (found (position (data.map key) (buffer.map key))) := by
  induction n with
  | zero =>
    have hnone : position (data.map key) (buffer.map key) = none := by
      refine position_eq_none.mpr fun i hi hocc => hbefore i ?_ hocc
      have hfits := length_le_of_occurs hi hocc
      omega
    rw [hnone]
    rfl
  | succ n ih =>
    let i := buffer.length - data.length + 1 - (n + 1)
    obtain ⟨j, hj, hiff⟩ := @compareLoop_spec key buffer data i (by omega) data.length le_rfl
    rw [Nat.sub_self, List.drop_zero, Nat.add_zero, List.map_drop] at hiff
    rw [findLoop, hj]
    simp only [Option.bind_eq_bind, Option.bind_some]
    split
    next hend =>
      have hplace : position (data.map key) (buffer.map key) = some i :=
        position_eq_some.mpr ⟨by rw [List.length_map]; omega, hiff.mp hend, hbefore⟩
      rw [hplace]
      rfl
    next hend =>
      refine ih (by omega) fun k hk => ?_
      rcases Nat.lt_or_ge k i with hki | hki
      · exact hbefore k hki
      · obtain rfl : k = i := by omega
        exact mt hiff.mpr hend

theorem bufferFindBy_eq :
    bufferFindBy key buffer data = some (found (position (data.map key) (buffer.map key))) := by
  rw [bufferFindBy]
  split
  next hlen =>
    have hnone : position (data.map key) (buffer.map key) = none := by
      refine position_eq_none.mpr fun i hi hocc => ?_
      have hfits := length_le_of_occurs hi hocc
      omega
    rw [hnone]
    rfl
  next hlen => exact findLoop_eq (Nat.le_of_not_lt hlen) le_rfl (by simp)

theorem bufferFind_eq : bufferFind buffer data = some (found (position data buffer)) := by
  rw [bufferFind, bufferFindBy_eq, List.map_id, List.map_id]

theorem bufferFindInsensitive_eq : bufferFindInsensitive buffer data
    = some (found (position (data.map toLower) (buffer.map toLower))) :=
  bufferFindBy_eq

end PCom.Library
