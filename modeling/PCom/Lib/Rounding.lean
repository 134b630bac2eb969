import Mathlib.Data.Nat.Log
import Mathlib.Tactic.Linarith
import Mathlib.Tactic.Ring

/-! Rounding quotients to a number of digits, and where rounding in one base undoes rounding in
another. -/

namespace PCom.Lib

/-- The nearest integer to a quotient, the even one of two. -/
def roundQuotient (n d : Nat) : Nat :=
  if 2 * (n % d) < d then n / d else if d < 2 * (n % d) then n / d + 1 else n / d + n / d % 2

/-- The nearest number with `p` digits to the base `b`, as an integer and the number of zeros behind
it. -/
def roundDigits (b p n d : Nat) : Nat × Nat :=
  let e := Nat.log b (n / d) + 1 - p
  let m := roundQuotient n (d * b ^ e)
  if m = b ^ p then (b ^ (p - 1), e + 1) else (m, e)

/-- An integer of at most `p` digits to the base `b`, and no fewer if zeros can be put behind it. -/
structure Normal (b p m e : Nat) : Prop where
  lt : m < b ^ p
  le : e = 0 ∨ b ^ (p - 1) ≤ m

section Quotient

variable {n d : Nat}

theorem roundQuotient_error (hd : 0 < d) : 2 * n ≤ 2 * (roundQuotient n d * d) + d ∧
    2 * (roundQuotient n d * d) ≤ 2 * n + d := by
  have hn := Nat.div_add_mod n d
  have hlt := Nat.mod_lt n hd
  rw [roundQuotient, mul_comm d] at *
  generalize n / d = q at *
  generalize n % d = r at *
  split
  next => omega
  next =>
    split
    next => rw [Nat.add_one_mul q]; omega
    next =>
      rcases Nat.mod_two_eq_zero_or_one q with hq | hq
      · rw [hq, Nat.add_zero]; omega
      · rw [hq, Nat.add_one_mul q]; omega

theorem roundQuotient_eq {k : Nat} (hd : 0 < d) (hlt : 2 * n < 2 * (k * d) + d)
    (hgt : 2 * (k * d) < 2 * n + d) : roundQuotient n d = k := by
  obtain ⟨hle, hge⟩ := roundQuotient_error (n := n) hd
  have hlt : roundQuotient n d * d < (k + 1) * d := by rw [Nat.add_one_mul k]; omega
  have hgt : k * d < (roundQuotient n d + 1) * d := by
    rw [Nat.add_one_mul (roundQuotient n d)]
    omega
  have hlt := Nat.lt_of_mul_lt_mul_right hlt
  have hgt := Nat.lt_of_mul_lt_mul_right hgt
  omega

theorem le_roundQuotient_of_lt {k : Nat} (hd : 0 < d) (h : 2 * (k * d) < 2 * n + d) :
    k ≤ roundQuotient n d := by
  obtain ⟨hle, -⟩ := roundQuotient_error (n := n) hd
  have hlt : k * d < (roundQuotient n d + 1) * d := by
    rw [Nat.add_one_mul (roundQuotient n d)]
    omega
  exact Nat.le_of_lt_succ (Nat.lt_of_mul_lt_mul_right hlt)

theorem roundQuotient_le {k : Nat} (hd : 0 < d) (h : n ≤ k * d) : roundQuotient n d ≤ k := by
  obtain ⟨-, hge⟩ := roundQuotient_error (n := n) hd
  have hlt : roundQuotient n d * d < (k + 1) * d := by rw [Nat.add_one_mul k]; omega
  exact Nat.le_of_lt_succ (Nat.lt_of_mul_lt_mul_right hlt)

theorem le_roundQuotient {k : Nat} (hd : 0 < d) (h : k * d ≤ n) : k ≤ roundQuotient n d :=
  le_roundQuotient_of_lt hd (by omega)

end Quotient

section Digits

variable {b p n d : Nat}

theorem log_bounds (hb : 1 < b) (hp : 0 < p) (hd : 0 < d) (hn : b ^ (p - 1) * d ≤ n) :
    b ^ (p - 1) * (d * b ^ (Nat.log b (n / d) + 1 - p)) ≤ n ∧
      n < b ^ p * (d * b ^ (Nat.log b (n / d) + 1 - p)) := by
  have hquot : b ^ (p - 1) ≤ n / d := (Nat.le_div_iff_mul_le hd).mpr hn
  have hne : n / d ≠ 0 := Nat.pos_iff_ne_zero.mp (Nat.lt_of_lt_of_le (Nat.pow_pos (by omega)) hquot)
  have hlog : p - 1 ≤ Nat.log b (n / d) := Nat.le_log_of_pow_le hb hquot
  have hlow := Nat.pow_log_le_self b hne
  have hhigh := Nat.lt_pow_succ_log_self hb (n / d)
  have hsplit : b ^ (p - 1) * b ^ (Nat.log b (n / d) + 1 - p) = b ^ Nat.log b (n / d) := by
    rw [← Nat.pow_add]
    congr 1
    omega
  have hsplit' : b ^ p * b ^ (Nat.log b (n / d) + 1 - p) = b ^ (Nat.log b (n / d) + 1) := by
    rw [← Nat.pow_add]
    congr 1
    omega
  constructor
  · calc b ^ (p - 1) * (d * b ^ (Nat.log b (n / d) + 1 - p))
        = b ^ Nat.log b (n / d) * d := by rw [← hsplit]; ring
      _ ≤ n := (Nat.le_div_iff_mul_le hd).mp hlow
  · calc n < b ^ (Nat.log b (n / d) + 1) * d := (Nat.div_lt_iff_lt_mul hd).mp hhigh
      _ = b ^ p * (d * b ^ (Nat.log b (n / d) + 1 - p)) := by rw [← hsplit']; ring

theorem log_eq {e : Nat} (hb : 1 < b) (hp : 0 < p) (hd : 0 < d) (hlt : n < b ^ p * (d * b ^ e))
    (hle : e = 0 ∨ b ^ (p - 1) * (d * b ^ e) ≤ n) : Nat.log b (n / d) + 1 - p = e := by
  have hhigh : n / d < b ^ (p + e) := by
    rw [Nat.div_lt_iff_lt_mul hd, Nat.pow_add]
    calc n < b ^ p * (d * b ^ e) := hlt
      _ = b ^ p * b ^ e * d := by ring
  have hlog : Nat.log b (n / d) < p + e := Nat.log_lt_of_lt_pow' (by omega) hhigh
  rcases hle with rfl | hle
  · omega
  · have hlow : b ^ (p - 1 + e) ≤ n / d := by
      rw [Nat.le_div_iff_mul_le hd, Nat.pow_add]
      calc b ^ (p - 1) * b ^ e * d = b ^ (p - 1) * (d * b ^ e) := by ring
        _ ≤ n := hle
    have hlog' : p - 1 + e ≤ Nat.log b (n / d) := Nat.le_log_of_pow_le hb hlow
    omega

theorem roundDigits_value (hp : 0 < p) : (roundDigits b p n d).1 * b ^ (roundDigits b p n d).2 =
    roundQuotient n (d * b ^ (Nat.log b (n / d) + 1 - p)) * b ^ (Nat.log b (n / d) + 1 - p) := by
  rw [roundDigits]
  split
  next hcarry =>
    rw [hcarry, ← Nat.pow_add, ← Nat.pow_add]
    congr 1
    omega
  next => rfl

theorem roundDigits_bounds (hb : 1 < b) (hp : 0 < p) (hd : 0 < d) (hn : b ^ (p - 1) * d ≤ n) :
    b ^ (p - 1) ≤ (roundDigits b p n d).1 ∧ (roundDigits b p n d).1 < b ^ p := by
  obtain ⟨hlow, hhigh⟩ := log_bounds hb hp hd hn
  have hpos : 0 < d * b ^ (Nat.log b (n / d) + 1 - p) := Nat.mul_pos hd (Nat.pow_pos (by omega))
  have hle := le_roundQuotient hpos hlow
  have hge := roundQuotient_le hpos hhigh.le
  rw [roundDigits]
  split
  next => exact ⟨Nat.le_refl _, Nat.pow_lt_pow_right hb (by omega)⟩
  next hcarry => exact ⟨hle, lt_of_le_of_ne hge hcarry⟩

theorem roundDigits_zero (hb : 1 < b) (hp : 0 < p) (hd : 0 < d) : roundDigits b p 0 d = (0, 0) := by
  have hquot : roundQuotient 0 (d * b ^ 0) = 0 :=
    Nat.le_zero.mp (roundQuotient_le (Nat.mul_pos hd (Nat.pow_pos (by omega))) (Nat.zero_le _))
  have hcut : 0 + 1 - p = 0 := by omega
  have hpow : b ^ p ≠ 0 := (Nat.pow_pos (by omega)).ne'
  rw [roundDigits, Nat.zero_div, Nat.log_zero_right, hcut, hquot, if_neg hpow.symm]

theorem normal_roundDigits (hb : 1 < b) (hp : 0 < p) (hd : 0 < d) :
    Normal b p (roundDigits b p n d).1 (roundDigits b p n d).2 := by
  by_cases hn : b ^ (p - 1) * d ≤ n
  · obtain ⟨hlow, hhigh⟩ := roundDigits_bounds hb hp hd hn
    exact ⟨hhigh, .inr hlow⟩
  · rw [Nat.not_le] at hn
    have hlt : n / d < b ^ (p - 1) := (Nat.div_lt_iff_lt_mul hd).mpr hn
    have hzero : Nat.log b (n / d) + 1 - p = 0 := by
      rcases Nat.eq_zero_or_pos (n / d) with hq | hq
      · rw [hq, Nat.log_zero_right]
        omega
      · have hlog : Nat.log b (n / d) < p - 1 := Nat.log_lt_of_lt_pow hq.ne' hlt
        omega
    have hle : roundQuotient n d ≤ b ^ (p - 1) := roundQuotient_le hd hn.le
    have hpow : b ^ (p - 1) < b ^ p := Nat.pow_lt_pow_right hb (by omega)
    rw [roundDigits, hzero, Nat.pow_zero, Nat.mul_one, if_neg (by omega)]
    exact ⟨by dsimp only; omega, .inl rfl⟩

theorem roundDigits_error (hb : 1 < b) (hp : 0 < p) (hd : 0 < d) (hn : b ^ (p - 1) * d ≤ n) :
    2 * b ^ (p - 1) * n ≤
        2 * b ^ (p - 1) * ((roundDigits b p n d).1 * b ^ (roundDigits b p n d).2 * d) + n ∧
      2 * b ^ (p - 1) * ((roundDigits b p n d).1 * b ^ (roundDigits b p n d).2 * d) ≤
        2 * b ^ (p - 1) * n + n := by
  obtain ⟨hlow, -⟩ := log_bounds hb hp hd hn
  rw [roundDigits_value hp]
  generalize Nat.log b (n / d) + 1 - p = e at *
  obtain ⟨hle, hge⟩ := roundQuotient_error (n := n)
    (Nat.mul_pos hd (Nat.pow_pos (n := e) (by omega : 0 < b)))
  have hvalue : roundQuotient n (d * b ^ e) * b ^ e * d =
      roundQuotient n (d * b ^ e) * (d * b ^ e) := by ring
  rw [hvalue]
  generalize roundQuotient n (d * b ^ e) * (d * b ^ e) = v at *
  generalize d * b ^ e = u at *
  generalize b ^ (p - 1) = k at *
  constructor <;> nlinarith

theorem roundDigits_self {m e : Nat} (hb : 1 < b) (hp : 0 < p) (hd : 0 < d) (h : Normal b p m e) :
    roundDigits b p (m * b ^ e * d) d = (m, e) := by
  have hunit : 0 < d * b ^ e := Nat.mul_pos hd (Nat.pow_pos (by omega))
  have hvalue : m * b ^ e * d = m * (d * b ^ e) := by ring
  have hlt : m * b ^ e * d < b ^ p * (d * b ^ e) := by
    rw [hvalue]
    exact Nat.mul_lt_mul_of_pos_right h.lt hunit
  have hlog : Nat.log b (m * b ^ e * d / d) + 1 - p = e := by
    apply log_eq hb hp hd hlt
    rw [hvalue]
    exact h.le.imp_right (Nat.mul_le_mul_right _)
  have hquotient : roundQuotient (m * b ^ e * d) (d * b ^ e) = m := by
    apply roundQuotient_eq hunit
    · omega
    · omega
  rw [roundDigits, hlog, hquotient, if_neg h.lt.ne]

end Digits

section Binary

variable {p n d m e : Nat}

theorem roundDigits_eq_of_le (hp : 0 < p) (hd : 0 < d) (hm : m < 2 ^ p)
    (hlow : e = 0 ∨ 2 ^ (p - 1) * (d * 2 ^ e) ≤ n)
    (hlt : 2 ^ (p + 1) * n < 2 ^ (p + 1) * (m * 2 ^ e * d) + m * 2 ^ e * d)
    (hgt : 2 ^ (p + 1) * (m * 2 ^ e * d) < 2 ^ (p + 1) * n + m * 2 ^ e * d) :
    roundDigits 2 p n d = (m, e) := by
  have hu : 0 < d * 2 ^ e := Nat.mul_pos hd (Nat.pow_pos (by decide))
  have hvalue : m * 2 ^ e * d = m * (d * 2 ^ e) := by ring
  have hvalue_lt : m * (d * 2 ^ e) + d * 2 ^ e ≤ 2 ^ p * (d * 2 ^ e) := by
    rw [← Nat.add_one_mul m]
    exact Nat.mul_le_mul_right _ hm
  have hp2 : 0 < 2 ^ p := Nat.pow_pos (by decide)
  rw [hvalue, Nat.pow_succ] at hlt hgt
  have hupper : 2 * n < 2 * (m * (d * 2 ^ e)) + d * 2 ^ e := by
    apply Nat.lt_of_mul_lt_mul_left (a := 2 ^ p)
    nlinarith
  have hlower : 2 * (m * (d * 2 ^ e)) < 2 * n + d * 2 ^ e := by
    apply Nat.lt_of_mul_lt_mul_left (a := 2 ^ p)
    nlinarith
  have hlog : Nat.log 2 (n / d) + 1 - p = e := log_eq (by decide) hp hd (by omega) hlow
  rw [roundDigits, hlog, roundQuotient_eq hu hupper hlower, if_neg hm.ne]

theorem roundDigits_eq_of_lt (hp : 0 < p) (hd : 0 < d) (hm : 2 ^ (p - 1) ≤ m)
    (hlow : n < 2 ^ p * (d * 2 ^ e))
    (hgt : 2 ^ (p + 1) * (m * 2 ^ (e + 1) * d) < 2 ^ (p + 1) * n + m * 2 ^ (e + 1) * d) :
    roundDigits 2 p n d = (m, e + 1) := by
  have hu : 0 < d * 2 ^ e := Nat.mul_pos hd (Nat.pow_pos (by decide))
  have hvalue : m * 2 ^ (e + 1) * d = 2 * (m * (d * 2 ^ e)) := by ring
  obtain ⟨k, rfl⟩ : ∃ k, p = k + 1 := ⟨p - 1, by omega⟩
  rw [Nat.add_sub_cancel] at hm
  have hk : 0 < 2 ^ k := Nat.pow_pos (by decide)
  rw [hvalue] at hgt
  have hleast : m = 2 ^ k := by
    refine le_antisymm (Nat.le_of_not_lt fun hlt => ?_) hm
    have hvalue_le : 2 ^ k * (d * 2 ^ e) + d * 2 ^ e ≤ m * (d * 2 ^ e) := by
      rw [← Nat.add_one_mul (2 ^ k)]
      exact Nat.mul_le_mul_right _ hlt
    rw [Nat.pow_succ, Nat.pow_succ] at hgt
    rw [Nat.pow_succ] at hlow
    nlinarith
  subst hleast
  have hlower : 2 * (2 ^ (k + 1) * (d * 2 ^ e)) < 2 * n + d * 2 ^ e := by
    apply Nat.lt_of_mul_lt_mul_left (a := 2 ^ (k + 1))
    rw [Nat.pow_succ 2 (k + 1), Nat.pow_succ] at hgt
    rw [Nat.pow_succ]
    generalize d * 2 ^ e = u at *
    generalize 2 ^ k = j at *
    nlinarith
  have hpow : 2 ^ (k + 1) * (d * 2 ^ e) = 2 ^ k * (d * 2 ^ e) + 2 ^ k * (d * 2 ^ e) := by ring
  have hone : d * 2 ^ e ≤ 2 ^ k * (d * 2 ^ e) := Nat.le_mul_of_pos_left _ hk
  have hlog : Nat.log 2 (n / d) + 1 - (k + 1) = e :=
    log_eq (by decide) hp hd hlow (.inr (by rw [Nat.add_sub_cancel]; omega))
  rw [roundDigits, hlog, roundQuotient_eq hu (by omega) hlower, if_pos rfl, Nat.add_sub_cancel]

theorem roundDigits_eq (hp : 0 < p) (hd : 0 < d) (h : Normal 2 p m e)
    (hlt : 2 ^ (p + 1) * n < 2 ^ (p + 1) * (m * 2 ^ e * d) + m * 2 ^ e * d)
    (hgt : 2 ^ (p + 1) * (m * 2 ^ e * d) < 2 ^ (p + 1) * n + m * 2 ^ e * d) :
    roundDigits 2 p n d = (m, e) := by
  by_cases hlow : e = 0 ∨ 2 ^ (p - 1) * (d * 2 ^ e) ≤ n
  · exact roundDigits_eq_of_le hp hd h.lt hlow hlt hgt
  · rw [not_or, Nat.not_le] at hlow
    cases e with
    | zero => exact absurd rfl hlow.1
    | succ e =>
      have hpow : 2 ^ (p - 1) * (d * 2 ^ (e + 1)) = 2 ^ p * (d * 2 ^ e) := by
        obtain ⟨k, rfl⟩ : ∃ k, p = k + 1 := ⟨p - 1, by omega⟩
        rw [Nat.add_sub_cancel, Nat.pow_succ, Nat.pow_succ]
        ring
      rw [hpow] at hlow
      exact roundDigits_eq_of_lt hp hd (h.le.resolve_left hlow.1) hlow.2 hgt

theorem lt_of_error {k v x y : Nat} (hk : 2 ^ p < k) (hv : 0 < v)
    (h : 2 * k * x ≤ 2 * k * y + v) : 2 ^ (p + 1) * x < 2 ^ (p + 1) * y + v := by
  rcases Nat.le_total x y with hxy | hxy
  · have hmul := Nat.mul_le_mul_left (2 ^ (p + 1)) hxy
    omega
  · obtain ⟨z, rfl⟩ := Nat.exists_eq_add_of_le hxy
    rw [Nat.mul_add, Nat.add_le_add_iff_left] at h
    rw [Nat.mul_add, Nat.add_lt_add_iff_left]
    rcases Nat.eq_zero_or_pos z with rfl | hz
    · exact hv
    · calc 2 ^ (p + 1) * z = 2 * 2 ^ p * z := by rw [Nat.pow_succ']
        _ < 2 * k * z := Nat.mul_lt_mul_of_pos_right (by omega) hz
        _ ≤ v := h

/-- The error of a number that was written with enough digits to a base.  It is counted in units of
`t / s` where it is written, and the quotient of `n` and `d` is what is read. -/
theorem error_lt {b q s t v : Nat} (hb : 1 < b) (hq : 0 < q) (hdigits : 2 ^ p < b ^ (q - 1))
    (hv : 0 < v) (hs : 0 < s) (ht : 0 < t) (hlow : b ^ (q - 1) * t ≤ v * s) (hd : 0 < d)
    (hread : n * s = (roundDigits b q (v * s) t).1 * b ^ (roundDigits b q (v * s) t).2 * t * d) :
    2 ^ (p + 1) * n < 2 ^ (p + 1) * (v * d) + v * d ∧
      2 ^ (p + 1) * (v * d) < 2 ^ (p + 1) * n + v * d := by
  obtain ⟨hle, hge⟩ := roundDigits_error hb hq ht hlow
  generalize (roundDigits b q (v * s) t).1 * b ^ (roundDigits b q (v * s) t).2 * t = w at *
  have hle : 2 * b ^ (q - 1) * (v * d) ≤ 2 * b ^ (q - 1) * n + v * d := by
    apply Nat.le_of_mul_le_mul_right _ hs
    calc 2 * b ^ (q - 1) * (v * d) * s = 2 * b ^ (q - 1) * (v * s) * d := by ring
      _ ≤ (2 * b ^ (q - 1) * w + v * s) * d := Nat.mul_le_mul_right _ hle
      _ = 2 * b ^ (q - 1) * (w * d) + v * s * d := by ring
      _ = (2 * b ^ (q - 1) * n + v * d) * s := by rw [← hread]; ring
  have hge : 2 * b ^ (q - 1) * n ≤ 2 * b ^ (q - 1) * (v * d) + v * d := by
    apply Nat.le_of_mul_le_mul_right _ hs
    calc 2 * b ^ (q - 1) * n * s = 2 * b ^ (q - 1) * w * d := by rw [Nat.mul_assoc, hread]; ring
      _ ≤ (2 * b ^ (q - 1) * (v * s) + v * s) * d := Nat.mul_le_mul_right _ hge
      _ = (2 * b ^ (q - 1) * (v * d) + v * d) * s := by ring
  have hpos : 0 < v * d := Nat.mul_pos hv hd
  exact ⟨lt_of_error hdigits hpos hge, lt_of_error hdigits hpos hle⟩

end Binary

end PCom.Lib
