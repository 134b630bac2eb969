import PCom.Lib.PrintDouble

/-! Arithmetic of doubles and floats, how far a chain of roundings can go astray, and numbers as
`printf` writes them with the conversion `f`. -/

namespace PCom.Lib

/-! ## Relative errors -/

/-- `x` is `y` with an error of at most `c` out of `k`. -/
structure Close (c k x y : Nat) : Prop where
  le : k * x ≤ k * y + c * y
  ge : k * y ≤ k * x + c * y

namespace Close

variable {c c' k x y z : Nat}

theorem refl (c k x : Nat) : Close c k x x := ⟨Nat.le_add_right _ _, Nat.le_add_right _ _⟩

theorem scale (a : Nat) (h : Close c k x y) : Close c k (a * x) (a * y) where
  le := by
    calc k * (a * x) = a * (k * x) := by ring
      _ ≤ a * (k * y + c * y) := Nat.mul_le_mul_left a h.le
      _ = k * (a * y) + c * (a * y) := by ring
  ge := by
    calc k * (a * y) = a * (k * y) := by ring
      _ ≤ a * (k * x + c * y) := Nat.mul_le_mul_left a h.ge
      _ = k * (a * x) + c * (a * y) := by ring

theorem of_scale {a : Nat} (ha : 0 < a) (h : Close c k (a * x) (a * y)) : Close c k x y where
  le := by
    apply Nat.le_of_mul_le_mul_left _ ha
    calc a * (k * x) = k * (a * x) := by ring
      _ ≤ k * (a * y) + c * (a * y) := h.le
      _ = a * (k * y + c * y) := by ring
  ge := by
    apply Nat.le_of_mul_le_mul_left _ ha
    calc a * (k * y) = k * (a * y) := by ring
      _ ≤ k * (a * x) + c * (a * y) := h.ge
      _ = a * (k * x + c * y) := by ring

theorem coarsen {k' : Nat} (hk : k' ≤ k) (h : Close c k x y) : Close c k' x y := by
  obtain ⟨hle, hge⟩ := h
  rcases Nat.le_total x y with hxy | hxy
  · obtain ⟨d, rfl⟩ := Nat.exists_eq_add_of_le hxy
    rw [Nat.mul_add k, Nat.add_le_add_iff_left] at hge
    have hd := (Nat.mul_le_mul_right d hk).trans hge
    constructor
    · rw [Nat.mul_add k']
      omega
    · rw [Nat.mul_add k']
      omega
  · obtain ⟨d, rfl⟩ := Nat.exists_eq_add_of_le hxy
    rw [Nat.mul_add k, Nat.add_le_add_iff_left] at hle
    have hd := (Nat.mul_le_mul_right d hk).trans hle
    constructor
    · rw [Nat.mul_add k']
      omega
    · rw [Nat.mul_add k']
      omega

theorem trans (hk : 0 < k) (hc : c * c' ≤ k) (h : Close c k x y) (h' : Close c' k y z) :
    Close (c + c' + 1) k x z where
  le := by
    apply Nat.le_of_mul_le_mul_left _ hk
    calc k * (k * x) ≤ k * (k * y + c * y) := Nat.mul_le_mul_left k h.le
      _ = (k + c) * (k * y) := by ring
      _ ≤ (k + c) * (k * z + c' * z) := Nat.mul_le_mul_left _ h'.le
      _ = k * (k * z + (c + c') * z) + c * c' * z := by ring
      _ ≤ k * (k * z + (c + c') * z) + k * z := Nat.add_le_add_left (Nat.mul_le_mul_right z hc) _
      _ = k * (k * z + (c + c' + 1) * z) := by ring
  ge := by
    have hy : c * y ≤ (c + 1) * z := by
      apply Nat.le_of_mul_le_mul_left _ hk
      calc k * (c * y) = c * (k * y) := by ring
        _ ≤ c * (k * z + c' * z) := Nat.mul_le_mul_left c h'.le
        _ = c * (k * z) + c * c' * z := by ring
        _ ≤ c * (k * z) + k * z := Nat.add_le_add_left (Nat.mul_le_mul_right z hc) _
        _ = k * ((c + 1) * z) := by ring
    calc k * z ≤ k * y + c' * z := h'.ge
      _ ≤ k * x + c * y + c' * z := Nat.add_le_add_right h.ge _
      _ ≤ k * x + (c + 1) * z + c' * z := by omega
      _ = k * x + (c + c' + 1) * z := by ring

theorem roundQuotient {n d m : Nat} (hd : 0 < d) (h : Close c k n (m * d)) (hc : 2 * c * m < k) :
    roundQuotient n d = m := by
  have hk : 0 < k := Nat.zero_lt_of_lt hc
  have hpart : 2 * (c * (m * d)) < k * d := by
    calc 2 * (c * (m * d)) = 2 * c * m * d := by ring
      _ < k * d := Nat.mul_lt_mul_of_pos_right hc hd
  apply roundQuotient_eq hd
  · apply Nat.lt_of_mul_lt_mul_left (a := k)
    calc k * (2 * n) = 2 * (k * n) := by ring
      _ ≤ 2 * (k * (m * d) + c * (m * d)) := Nat.mul_le_mul_left 2 h.le
      _ = 2 * (k * (m * d)) + 2 * (c * (m * d)) := by ring
      _ < 2 * (k * (m * d)) + k * d := Nat.add_lt_add_left hpart _
      _ = k * (2 * (m * d) + d) := by ring
  · apply Nat.lt_of_mul_lt_mul_left (a := k)
    calc k * (2 * (m * d)) = 2 * (k * (m * d)) := by ring
      _ ≤ 2 * (k * n + c * (m * d)) := Nat.mul_le_mul_left 2 h.ge
      _ = 2 * (k * n) + 2 * (c * (m * d)) := by ring
      _ < 2 * (k * n) + k * d := Nat.add_lt_add_left hpart _
      _ = k * (2 * n + d) := by ring

theorem le_two_mul (hc : 2 * c ≤ k) (hk : 0 < k) (h : Close c k x y) : y ≤ 2 * x := by
  apply Nat.le_of_mul_le_mul_left _ hk
  have hpart : 2 * (c * y) ≤ k * y := by
    calc 2 * (c * y) = 2 * c * y := by ring
      _ ≤ k * y := Nat.mul_le_mul_right y hc
  calc k * y ≤ k * x + k * x := by have := h.ge; omega
    _ = k * (2 * x) := by ring

theorem le_two_mul' (hc : c ≤ k) (hk : 0 < k) (h : Close c k x y) : x ≤ 2 * y := by
  apply Nat.le_of_mul_le_mul_left _ hk
  calc k * x ≤ k * y + c * y := h.le
    _ ≤ k * y + k * y := Nat.add_le_add_left (Nat.mul_le_mul_right y hc) _
    _ = k * (2 * y) := by ring

end Close

theorem close_roundDigits {b p k n d : Nat} (hb : 1 < b) (hp : 0 < p) (hk : b ^ (p - 1) = k)
    (hd : 0 < d) (hn : k * d ≤ n) :
    Close 1 (2 * k) ((roundDigits b p n d).1 * b ^ (roundDigits b p n d).2 * d) n := by
  subst hk
  obtain ⟨hle, hge⟩ := roundDigits_error hb hp hd hn
  exact ⟨by rwa [Nat.one_mul], by rwa [Nat.one_mul]⟩

/-! ## Doubles -/

namespace Binary64

/-- The double for a quotient of units, `none` where it is not finite. -/
def nearest (negative : Bool) (n d : Nat) (hd : 0 < d) : Option Binary64 := (round negative n d hd).1

def ofNat (n : Nat) : Option Binary64 := nearest false (n * binary64Units) 1 Nat.one_pos

def ofInt (i : Int) : Option Binary64 :=
  nearest (decide (i < 0)) (i.natAbs * binary64Units) 1 Nat.one_pos

/-- A quotient, `none` as well for a division by zero. -/
def div (x y : Binary64) : Option Binary64 :=
  if h : 0 < y.magnitude then
    nearest (x.negative != y.negative) (x.magnitude * binary64Units) y.magnitude h
  else none

theorem nearest_eq {negative : Bool} {n d : Nat} {hd : 0 < d}
    (h : (roundDigits 2 53 n d).2 ≤ binary64MaxExponent) : ∃ x, nearest negative n d hd = some x ∧
      x.negative = negative ∧
      x.magnitude = (roundDigits 2 53 n d).1 * 2 ^ (roundDigits 2 53 n d).2 := by
  rw [nearest, round, dif_pos h]
  exact ⟨_, rfl, rfl, rfl⟩

theorem exists_units : ∃ u, binary64Units = 2 ^ u ∧ 52 ≤ u ∧ u ≤ binary64MaxExponent :=
  ⟨1074, by rw [binary64Units], by decide, by decide⟩

theorem exists_normal {n : Nat} (hn : n < 2 ^ 53) : ∃ m e, Normal 2 53 m e ∧
    n * binary64Units = m * 2 ^ e ∧ e ≤ binary64MaxExponent := by
  rcases Nat.eq_zero_or_pos n with rfl | hpos
  · refine ⟨0, 0, ⟨by decide, .inl rfl⟩, ?_, Nat.zero_le _⟩
    rw [Nat.zero_mul, Nat.zero_mul]
  · have hlog : Nat.log 2 n ≤ 52 := Nat.le_of_lt_succ (Nat.log_lt_of_lt_pow hpos.ne' hn)
    have hlow := Nat.pow_log_le_self 2 hpos.ne'
    have hhigh := Nat.lt_pow_succ_log_self (b := 2) (by decide) n
    obtain ⟨k, hk⟩ := Nat.exists_eq_add_of_le hlog
    have hdigits : Normal 2 53 (n * 2 ^ k) 0 ∧ 2 ^ (53 - 1) ≤ n * 2 ^ k := by
      have hsum : Nat.log 2 n + 1 + k = 53 := by omega
      refine ⟨⟨?_, .inl rfl⟩, ?_⟩
      · rw [← hsum, Nat.pow_add]
        exact Nat.mul_lt_mul_of_pos_right hhigh (Nat.two_pow_pos k)
      · rw [Nat.sub_eq_of_eq_add (hsum.symm.trans (Nat.add_right_comm _ _ _)), Nat.pow_add]
        exact Nat.mul_le_mul_right _ hlow
    obtain ⟨u, hu, hle, hmax⟩ := exists_units
    have hku : k + (u - k) = u := Nat.add_sub_of_le ((hk ▸ Nat.le_add_left k _).trans hle)
    refine ⟨n * 2 ^ k, u - k, ⟨hdigits.1.lt, .inr hdigits.2⟩, ?_, (Nat.sub_le _ _).trans hmax⟩
    rw [hu, Nat.mul_assoc, ← Nat.pow_add, hku]

theorem nearest_whole (negative : Bool) {n : Nat} (hn : n < 2 ^ 53) :
    ∃ x, nearest negative (n * binary64Units) 1 Nat.one_pos = some x ∧ x.negative = negative ∧
      x.magnitude = n * binary64Units := by
  obtain ⟨m, e, hnormal, hvalue, he⟩ := exists_normal hn
  have hdigits : roundDigits 2 53 (n * binary64Units) 1 = (m, e) := by
    have hself := roundDigits_self (by decide) (by decide) Nat.one_pos hnormal
    rwa [Nat.mul_one, ← hvalue] at hself
  obtain ⟨x, hx, hnegative, hmagnitude⟩ :=
    @nearest_eq negative (n * binary64Units) 1 Nat.one_pos (by rwa [hdigits])
  refine ⟨x, hx, hnegative, ?_⟩
  rw [hmagnitude, hdigits, hvalue]

theorem ofNat_eq {n : Nat} (hn : n < 2 ^ 53) : ∃ x, ofNat n = some x ∧ x.negative = false ∧
    x.magnitude = n * binary64Units := nearest_whole false hn

theorem ofInt_eq {i : Int} (hi : i.natAbs < 2 ^ 53) : ∃ x, ofInt i = some x ∧
    x.negative = decide (i < 0) ∧ x.magnitude = i.natAbs * binary64Units := nearest_whole _ hi

theorem exponent_le_of_le {m e : Nat} (h : Normal 2 53 m e) {x : Binary64}
    (hle : m * 2 ^ e ≤ x.magnitude) : e ≤ binary64MaxExponent := by
  rcases h.le with rfl | hm
  · exact Nat.zero_le _
  · by_contra hlt
    rw [Nat.not_le] at hlt
    have hpow : 2 ^ (x.exponent + 1) ≤ 2 ^ e :=
      Nat.pow_le_pow_right (by decide) (x.exponent_le.trans_lt hlt)
    have hlarge : 2 ^ 53 * 2 ^ x.exponent ≤ x.significand * 2 ^ x.exponent := by
      calc 2 ^ 53 * 2 ^ x.exponent = 2 ^ (53 - 1) * 2 ^ (x.exponent + 1) := by
            rw [Nat.pow_succ 2 x.exponent]; ring
        _ ≤ m * 2 ^ e := Nat.mul_le_mul hm hpow
        _ ≤ x.significand * 2 ^ x.exponent := hle
    exact Nat.not_lt.mpr (Nat.le_of_mul_le_mul_right hlarge (Nat.two_pow_pos _)) x.normal.lt

/-- A quotient with 53 digits has a relative error of one half of the last of them.  The divisor is at
least two, so nothing overflows. -/
theorem div_eq {x y : Binary64} (hy : 2 * binary64Units ≤ y.magnitude)
    (hx : x.magnitude = 0 ∨ 2 ^ 52 * y.magnitude ≤ x.magnitude * binary64Units) :
    ∃ z, x.div y = some z ∧ z.negative = (x.negative != y.negative) ∧
      Close 1 (2 ^ 53) (z.magnitude * y.magnitude) (x.magnitude * binary64Units) := by
  have hunits := binary64Units_pos
  have hpos : 0 < y.magnitude := by omega
  have hnormal : Normal 2 53 (roundDigits 2 53 (x.magnitude * binary64Units) y.magnitude).1
      (roundDigits 2 53 (x.magnitude * binary64Units) y.magnitude).2 :=
    normal_roundDigits (by decide) (by decide) hpos
  have hclose : Close 1 (2 ^ 53)
      ((roundDigits 2 53 (x.magnitude * binary64Units) y.magnitude).1 *
        2 ^ (roundDigits 2 53 (x.magnitude * binary64Units) y.magnitude).2 * y.magnitude)
      (x.magnitude * binary64Units) := by
    rcases hx with hx | hx
    · rw [hx, Nat.zero_mul, roundDigits_zero (by decide) (by decide) hpos, Nat.zero_mul, Nat.zero_mul]
      exact .refl _ _ _
    · exact close_roundDigits (b := 2) (p := 53) (k := 2 ^ 52) (by decide) (by decide) rfl hpos hx
  have hle : (roundDigits 2 53 (x.magnitude * binary64Units) y.magnitude).1 *
      2 ^ (roundDigits 2 53 (x.magnitude * binary64Units) y.magnitude).2 ≤ x.magnitude := by
    have htwice := hclose.le_two_mul' (by decide) (by decide)
    apply Nat.le_of_mul_le_mul_right _ hpos
    refine htwice.trans ?_
    calc 2 * (x.magnitude * binary64Units) = x.magnitude * (2 * binary64Units) := by ring
      _ ≤ x.magnitude * y.magnitude := Nat.mul_le_mul_left _ hy
  obtain ⟨z, hz, hnegative, hmagnitude⟩ :=
    @nearest_eq (x.negative != y.negative) _ _ hpos (exponent_le_of_le hnormal hle)
  refine ⟨z, ?_, hnegative, ?_⟩
  · rw [div, dif_pos hpos]
    exact hz
  · rwa [hmagnitude]

end Binary64

theorem decimal_mul_pow {n : Nat} (hn : 0 < n) (k : Nat) :
    decimal (n * 10 ^ k) = decimal n ++ List.replicate k 48 := by
  induction k with
  | zero => rw [Nat.pow_zero, Nat.mul_one, List.replicate_zero, List.append_nil]
  | succ k ih =>
    have hpos : 0 < n * 10 ^ k := Nat.mul_pos hn (Nat.pow_pos (by decide))
    have hdigits := Nat.toDigits_append_toDigits (b := 10) (by decide) hpos (by decide : 0 < 10)
    have hvalue : n * 10 ^ (k + 1) = 10 * (n * 10 ^ k) + 0 := by ring
    rw [hvalue, decimal, ← hdigits, List.map_append, List.replicate_succ', ← List.append_assoc, ← ih]
    rfl

theorem Binary64.printG_whole {x : Binary64} {q n : Nat} (hq : 0 < q) (hn : n < 10 ^ q)
    (hx : x.magnitude = n * binary64Units) : x.printG q = signPart x.negative ++ decimal n := by
  rcases Nat.eq_zero_or_pos n with rfl | hpos
  · rw [Nat.zero_mul, magnitude, Nat.mul_eq_zero] at hx
    rw [printG_zero (hx.resolve_right (Nat.pow_pos (by decide)).ne')]
    rfl
  · obtain ⟨l, hlow, hhigh⟩ : ∃ l, 10 ^ l ≤ n ∧ n < 10 ^ (l + 1) :=
      ⟨Nat.log 10 n, Nat.pow_log_le_self 10 hpos.ne', Nat.lt_pow_succ_log_self (by decide) n⟩
    have hl : l < q := (Nat.pow_lt_pow_iff_right (by decide)).mp (hlow.trans_lt hn)
    obtain ⟨k, rfl⟩ : ∃ k, q = l + 1 + k := ⟨q - (l + 1), by omega⟩
    have hsignificand : x.significand ≠ 0 := by
      intro hzero
      rw [magnitude, hzero, Nat.zero_mul] at hx
      exact (Nat.mul_pos hpos binary64Units_pos).ne hx
    have hnormal : Normal 10 (l + 1 + k) (n * 10 ^ k) (l + 324) := by
      refine ⟨?_, .inr ?_⟩
      · rw [Nat.pow_add]
        exact Nat.mul_lt_mul_of_pos_right hhigh (Nat.pow_pos (by decide))
      · rw [Nat.add_right_comm, Nat.add_sub_cancel, Nat.pow_add]
        exact Nat.mul_le_mul_right _ hlow
    have hscaled : x.magnitude * 10 ^ (l + 1 + k + 323) =
        n * 10 ^ k * 10 ^ (l + 324) * binary64Units := by
      have hexponent : l + 1 + k + 323 = k + (l + 324) := by omega
      rw [hx, hexponent, Nat.pow_add]
      generalize 10 ^ (l + 324) = p
      ring
    have hdigits : x.significant (l + 1 + k) = (n * 10 ^ k, l + 324) := by
      rw [significant, hscaled]
      exact roundDigits_self (by decide) hq binary64Units_pos hnormal
    have hexponent : x.decimalExponent (l + 1 + k) = l := by
      rw [decimalExponent, hdigits]
      push_cast
      omega
    have hlength : (decimal n).length = l + 1 :=
      length_decimal (Nat.succ_pos l) hlow hhigh
    have hzeros : pointed (decimal n) (List.replicate k 48) = decimal n := by
      have hdrop : (List.replicate k (48 : Byte)).rdropWhile (· = 48) = [] :=
        List.rdropWhile_eq_nil_iff.mpr fun c hc => by rw [List.eq_of_mem_replicate hc]; rfl
      rw [pointed, if_pos hdrop]
    rw [printG, if_neg hsignificand, hexponent, hdigits, if_neg (by omega), if_neg (by omega),
      decimal_mul_pow hpos, show ((l : Int) + 1).toNat = (decimal n).length by omega,
      List.take_left, List.drop_left, hzeros]

/-! ## Floats -/

/-- How often the least float is in one. -/
def binary32Units : Nat := 2 ^ 149

def binary32MaxExponent : Nat := 253

/-- How often the least double is in the least float. -/
def unitsPerBinary32 : Nat := 2 ^ 925

/-- A finite float, counted in units of the least of them. -/
structure Binary32 where
  negative : Bool
  significand : Nat
  exponent : Nat
  normal : Normal 2 24 significand exponent
  exponent_le : exponent ≤ binary32MaxExponent
  deriving DecidableEq

def Binary32.magnitude (x : Binary32) : Nat := x.significand * 2 ^ x.exponent

theorem unitsPerBinary32_pos : 0 < unitsPerBinary32 := by
  unfold unitsPerBinary32
  positivity

theorem binary32Units_pos : 0 < binary32Units := by
  unfold binary32Units
  positivity

theorem binary64Units_eq : binary64Units = unitsPerBinary32 * binary32Units := by
  unfold binary64Units unitsPerBinary32 binary32Units
  rw [← Nat.pow_add]

/-- A double as a float, `none` where it is too large. -/
def Binary64.toBinary32 (x : Binary64) : Option Binary32 :=
  if h : (roundDigits 2 24 x.magnitude unitsPerBinary32).2 ≤ binary32MaxExponent then
    some ⟨x.negative, _, _, normal_roundDigits (by decide) (by decide) unitsPerBinary32_pos, h⟩
  else none

theorem Binary64.toBinary32_eq {x : Binary64}
    (hx : x.magnitude = 0 ∨ 2 ^ 23 * unitsPerBinary32 ≤ x.magnitude)
    (hlt : x.magnitude ≤ 2 ^ 100 * binary64Units) : ∃ y, x.toBinary32 = some y ∧
      y.negative = x.negative ∧
      Close 1 (2 ^ 24) (y.magnitude * unitsPerBinary32) x.magnitude := by
  have hpos := unitsPerBinary32_pos
  have hnormal : Normal 2 24 (roundDigits 2 24 x.magnitude unitsPerBinary32).1
      (roundDigits 2 24 x.magnitude unitsPerBinary32).2 :=
    normal_roundDigits (by decide) (by decide) hpos
  have hclose : Close 1 (2 ^ 24) ((roundDigits 2 24 x.magnitude unitsPerBinary32).1 *
      2 ^ (roundDigits 2 24 x.magnitude unitsPerBinary32).2 * unitsPerBinary32) x.magnitude := by
    rcases hx with hx | hx
    · rw [hx, roundDigits_zero (by decide) (by decide) hpos, Nat.zero_mul, Nat.zero_mul]
      exact .refl _ _ _
    · exact close_roundDigits (b := 2) (p := 24) (k := 2 ^ 23) (by decide) (by decide) rfl hpos hx
  have hexponent : (roundDigits 2 24 x.magnitude unitsPerBinary32).2 ≤ binary32MaxExponent := by
    rcases hnormal.le with hzero | hlow
    · rw [hzero]
      exact Nat.zero_le _
    · have htwice := hclose.le_two_mul' (by decide) (by decide)
      have hunits : 2 * (2 ^ 100 * binary64Units) = 2 ^ 101 * binary32Units * unitsPerBinary32 := by
        rw [binary64Units_eq]
        ring
      have hle := Nat.le_of_mul_le_mul_right
        ((htwice.trans (Nat.mul_le_mul_left 2 hlt)).trans_eq hunits) hpos
      have hpow : 2 ^ (roundDigits 2 24 x.magnitude unitsPerBinary32).2 ≤ 2 ^ binary32MaxExponent :=
        calc 2 ^ (roundDigits 2 24 x.magnitude unitsPerBinary32).2
            ≤ (roundDigits 2 24 x.magnitude unitsPerBinary32).1 *
              2 ^ (roundDigits 2 24 x.magnitude unitsPerBinary32).2 :=
              Nat.le_mul_of_pos_left _ (Nat.lt_of_lt_of_le (by decide) hlow)
          _ ≤ 2 ^ 101 * binary32Units := hle
          _ ≤ 2 ^ binary32MaxExponent := by decide +kernel
      exact (Nat.pow_le_pow_iff_right (by decide)).mp hpow
  refine ⟨_, by rw [toBinary32, dif_pos hexponent], rfl, ?_⟩
  simp only [Binary32.magnitude]
  exact hclose

/-! ## Printing -/

/-- `n` over a power of ten, with `k` digits behind the point. -/
def fixed (k n : Nat) : List Byte :=
  decimal (n / 10 ^ k) ++
    if k = 0 then []
    else 46 :: (List.replicate (k - (decimal (n % 10 ^ k)).length) 48 ++ decimal (n % 10 ^ k))

/-- What the conversion `f` writes with a precision of `k`, for `n` over `d`. -/
def printF (k : Nat) (negative : Bool) (n d : Nat) : List Byte :=
  signPart negative ++ fixed k (roundQuotient (n * 10 ^ k) d)

def Binary64.printF (k : Nat) (x : Binary64) : List Byte :=
  Lib.printF k x.negative x.magnitude binary64Units

/-- A float is a double where it is an argument. -/
def Binary32.printF (k : Nat) (x : Binary32) : List Byte :=
  Lib.printF k x.negative x.magnitude binary32Units

theorem fixed_parts (k n : Nat) : ∃ int fraction frac, fixed k n = int ++ fraction ∧ int ≠ [] ∧
    (∀ c ∈ int, isDecimal c = true) ∧ FractionText fraction frac ∧ frac.length = k ∧
    decimalValue (int ++ frac) = n := by
  have hint : ∀ c ∈ decimal (n / 10 ^ k), isDecimal c = true := fun _ => isDecimal_of_mem_decimal
  rcases Nat.eq_zero_or_pos k with rfl | hk
  · refine ⟨decimal (n / 10 ^ 0), [], [], rfl, decimal_ne_nil _, hint, .none, rfl, ?_⟩
    rw [List.append_nil, decimalValue_decimal, Nat.pow_zero, Nat.div_one]
  · have hlt : n % 10 ^ k < 10 ^ k := Nat.mod_lt n (Nat.pow_pos (by decide))
    have hlength : (decimal (n % 10 ^ k)).length ≤ k := by
      rw [decimal, List.length_map]
      exact (Nat.length_toDigits_le_iff (by decide) hk).mpr hlt
    have hfrac : (List.replicate (k - (decimal (n % 10 ^ k)).length) 48 ++
        decimal (n % 10 ^ k)).length = k := by
      rw [List.length_append, List.length_replicate]
      omega
    refine ⟨decimal (n / 10 ^ k), _, _, by rw [fixed, if_neg hk.ne'], decimal_ne_nil _, hint,
      .some (List.append_ne_nil_of_right_ne_nil _ (decimal_ne_nil _)) ?_, hfrac, ?_⟩
    · refine List.forall_mem_append.mpr ⟨fun c hc => ?_, fun _ => isDecimal_of_mem_decimal⟩
      rw [List.eq_of_mem_replicate hc]
      rfl
    · rw [decimalValue_append, hfrac, decimalValue_decimal, decimalValue_append,
        decimalValue_replicate, Nat.zero_mul, Nat.zero_add, decimalValue_decimal, Nat.mul_comm]
      exact Nat.div_add_mod n (10 ^ k)

theorem FractionText.inj {fraction frac frac' : List Byte} (h : FractionText fraction frac)
    (h' : FractionText fraction frac') : frac = frac' := by
  cases h with
  | none =>
    cases h'
    rfl
  | some _ _ =>
    cases h'
    rfl

theorem takeWhile_fraction {int fraction frac : List Byte} (hint : ∀ c ∈ int, isDecimal c = true)
    (h : FractionText fraction frac) : (int ++ fraction).takeWhile isDecimal = int := by
  rw [List.takeWhile_append_of_pos hint]
  cases h with
  | none => exact List.append_nil _
  | some _ _ =>
    rw [List.takeWhile_cons_of_neg (by decide)]
    exact List.append_nil _

theorem fixed_inj {k k' n n' : Nat} (h : fixed k n = fixed k' n') : k = k' ∧ n = n' := by
  obtain ⟨int, fraction, frac, htext, -, hint, hfrac, hlength, hvalue⟩ := fixed_parts k n
  obtain ⟨int', fraction', frac', htext', -, hint', hfrac', hlength', hvalue'⟩ := fixed_parts k' n'
  rw [htext, htext'] at h
  have hints : int = int' := by
    rw [← takeWhile_fraction hint hfrac, h, takeWhile_fraction hint' hfrac']
  subst hints
  obtain rfl : fraction = fraction' := List.append_cancel_left h
  obtain rfl := hfrac.inj hfrac'
  exact ⟨hlength.symm.trans hlength', hvalue.symm.trans hvalue'⟩

theorem signPart_inj {negative negative' : Bool} {s s' : List Byte}
    (hs : ∃ c ∈ s.head?, isDecimal c = true) (hs' : ∃ c ∈ s'.head?, isDecimal c = true)
    (h : signPart negative ++ s = signPart negative' ++ s') : negative = negative' ∧ s = s' := by
  obtain ⟨c, hc, hdigit⟩ := hs
  obtain ⟨c', hc', hdigit'⟩ := hs'
  have hminus : isDecimal 45 = false := rfl
  cases negative with
  | true =>
    cases negative' with
    | true => exact ⟨rfl, List.append_cancel_left h⟩
    | false =>
      have hhead : (signPart true ++ s).head? = s'.head? := congrArg List.head? h
      rw [hc', show (signPart true ++ s).head? = some 45 from rfl, Option.some.injEq] at hhead
      rw [← hhead, hminus] at hdigit'
      cases hdigit'
  | false =>
    cases negative' with
    | true =>
      have hhead : s.head? = (signPart true ++ s').head? := congrArg List.head? h
      rw [hc, show (signPart true ++ s').head? = some 45 from rfl, Option.some.injEq] at hhead
      rw [hhead, hminus] at hdigit
      cases hdigit
    | false => exact ⟨rfl, h⟩

theorem head_decimal_digit (n : Nat) : ∃ c ∈ (decimal n).head?, isDecimal c = true := by
  obtain ⟨c, s, hs⟩ := List.exists_cons_of_ne_nil (decimal_ne_nil n)
  have hc : c ∈ decimal n := hs ▸ List.mem_cons_self
  exact ⟨c, by rw [hs]; rfl, isDecimal_of_mem_decimal hc⟩

theorem head_fixed_digit (k n : Nat) : ∃ c ∈ (fixed k n).head?, isDecimal c = true := by
  obtain ⟨c, hc, hdigit⟩ := head_decimal_digit (n / 10 ^ k)
  refine ⟨c, ?_, hdigit⟩
  rw [fixed, List.head?_append_of_ne_nil _ (decimal_ne_nil _)]
  exact hc

end PCom.Lib
