import Mathlib.Data.List.DropRight
import PCom.Lib.Strtod

/-! Doubles as `printf` writes them with the conversion `g`, and that enough digits are read as the
double that was written. -/

namespace PCom.Lib

theorem decimalValue_append (as bs : List Byte) :
    decimalValue (as ++ bs) = decimalValue as * 10 ^ bs.length + decimalValue bs := by
  have hfold (bs : List Byte) (n : Nat) : bs.foldl (fun n (b : Byte) => 10 * n + (b.toNat - 48)) n =
      n * 10 ^ bs.length + decimalValue bs := by
    rw [decimalValue]
    induction bs generalizing n with
    | nil => simp
    | cons b bs ih =>
      rw [List.foldl_cons, List.foldl_cons, ih, ih (10 * 0 + _), List.length_cons, Nat.pow_succ]
      ring
  rw [decimalValue, List.foldl_append, hfold]
  rfl

@[simp] theorem decimalValue_replicate (z : Nat) : decimalValue (List.replicate z 48) = 0 := by
  induction z with
  | zero => rfl
  | succ z ih =>
    rw [List.replicate_succ', decimalValue_append, ih]
    rfl

theorem decimalValue_lt {ds : List Byte} (h : ∀ c ∈ ds, isDecimal c = true) :
    decimalValue ds < 10 ^ ds.length := by
  induction ds with
  | nil => decide
  | cons d ds ih =>
    obtain ⟨hd, hds⟩ := List.forall_mem_cons.mp h
    have hlt := ih hds
    have hdigit : decimalValue [d] ≤ 9 := by
      clear hlt h
      revert d
      set_option maxRecDepth 10000 in
      decide
    have happend : decimalValue (d :: ds) = decimalValue [d] * 10 ^ ds.length + decimalValue ds :=
      decimalValue_append [d] ds
    rw [happend, List.length_cons, Nat.pow_succ]
    nlinarith

theorem length_decimal {q n : Nat} (hq : 0 < q) (hlow : 10 ^ (q - 1) ≤ n) (hhigh : n < 10 ^ q) :
    (decimal n).length = q := by
  rw [decimal, List.length_map]
  have hle := (Nat.length_toDigits_le_iff (by decide) hq).mpr hhigh
  by_cases hone : q = 1
  · have hpos := Nat.length_toDigits_pos (b := 10) (n := n)
    omega
  · have hnot := mt (Nat.length_toDigits_le_iff (b := 10) (n := n) (k := q - 1) (by decide)
      (by omega)).mp (by omega)
    omega

theorem head_decimal {q n : Nat} (hq : 0 < q) (hlow : 10 ^ (q - 1) ≤ n) (hhigh : n < 10 ^ q) :
    (decimal n).head? ≠ some 48 := by
  intro hhead
  have hlength := length_decimal hq hlow hhigh
  have hshape := List.eq_cons_of_mem_head? hhead
  have hdigits : ∀ c ∈ (decimal n).tail, isDecimal c = true := fun c hc =>
    isDecimal_of_mem_decimal (List.mem_of_mem_tail hc)
  have hvalue : decimalValue (decimal n) = decimalValue (decimal n).tail := by
    conv_lhs => rw [hshape]
    rfl
  have hlt := decimalValue_lt hdigits
  rw [← hvalue, decimalValue_decimal, List.length_tail, hlength] at hlt
  omega

def pointed (int frac : List Byte) : List Byte :=
  if frac.rdropWhile (· = 48) = [] then int else int ++ 46 :: frac.rdropWhile (· = 48)

/-- An exponent of at least two digits. -/
def exponentPart (x : Int) : List Byte :=
  101 :: (if x < 0 then 45 else 43) ::
    (if x.natAbs < 10 then 48 :: decimal x.natAbs else decimal x.natAbs)

def signPart (negative : Bool) : List Byte := if negative then [45] else []

namespace Binary64

/-- A double to `q` significant digits, as an integer and a power of ten, in units of
`10 ^ -(q + 323)`. -/
def significant (q : Nat) (x : Binary64) : Nat × Nat :=
  roundDigits 10 q (x.magnitude * 10 ^ (q + 323)) binary64Units

def decimalExponent (q : Nat) (x : Binary64) : Int := (x.significant q).2 - 324

/-- What the conversion `g` writes with a precision of `q`. -/
def printG (q : Nat) (x : Binary64) : List Byte :=
  let digits := decimal (x.significant q).1
  let e := x.decimalExponent q
  signPart x.negative ++
    if x.significand = 0 then [48]
    else if e < -4 ∨ q ≤ e then pointed (digits.take 1) (digits.drop 1) ++ exponentPart e
    else if e < 0 then pointed [48] (List.replicate (-e - 1).toNat 48 ++ digits)
    else pointed (digits.take (e + 1).toNat) (digits.drop (e + 1).toNat)

end Binary64

/-! ## Parts of what is printed -/

theorem exists_zeros (ds : List Byte) :
    ∃ z, ds = ds.rdropWhile (· = 48) ++ List.replicate z 48 := by
  induction ds using List.reverseRecOn with
  | nil => exact ⟨0, rfl⟩
  | append_singleton ds d ih =>
    by_cases hd : d = 48
    · obtain ⟨z, hz⟩ := ih
      subst hd
      refine ⟨z + 1, ?_⟩
      rw [List.rdropWhile_concat_pos _ _ _ (by decide), List.replicate_succ', ← List.append_assoc,
        ← hz]
    · refine ⟨0, ?_⟩
      rw [List.rdropWhile_concat_neg _ _ _ (by simpa using hd), List.replicate_zero, List.append_nil]

theorem exists_fraction (int : List Byte) {frac : List Byte} (h : ∀ c ∈ frac, isDecimal c = true) :
    ∃ fraction frac' z, pointed int frac = int ++ fraction ∧ FractionText fraction frac' ∧
      frac = frac' ++ List.replicate z 48 ∧ fraction.length ≤ frac.length + 1 := by
  obtain ⟨z, hz⟩ := exists_zeros frac
  have hdigits : ∀ c ∈ frac.rdropWhile (· = 48), isDecimal c = true := fun c hc =>
    h c (hz ▸ List.mem_append_left _ hc)
  rw [pointed]
  split
  next hnil =>
    rw [hnil] at hz
    exact ⟨[], [], z, (List.append_nil _).symm, .none, hz, Nat.zero_le _⟩
  next hne =>
    refine ⟨_, _, z, rfl, .some hne hdigits, hz, ?_⟩
    exact Nat.succ_le_succ (List.rdropWhile_prefix _ _).length_le

structure Parts (n : Nat) (j : Int) (int fraction frac exp : List Byte) (k : Int) : Prop where
  ne : int ≠ []
  digits : ∀ c ∈ int, isDecimal c = true
  zero : int = [48] ∧ exp = [] ∨ int.head? ≠ some 48
  fraction : FractionText fraction frac
  exponent : ExponentText exp k
  value : ∃ z : Nat, decimalValue (int ++ frac) * 10 ^ z = n ∧ k - frac.length = j + z

theorem exists_parts (int frac exp : List Byte) {k : Int} {n : Nat} (j : Int) (hne : int ≠ [])
    (hint : ∀ c ∈ int, isDecimal c = true) (hzero : int = [48] ∧ exp = [] ∨ int.head? ≠ some 48)
    (hfrac : ∀ c ∈ frac, isDecimal c = true) (hexp : ExponentText exp k)
    (hn : decimalValue (int ++ frac) = n) (hj : k - frac.length = j) :
    ∃ fraction frac', pointed int frac = int ++ fraction ∧
      Parts n j int fraction frac' exp k ∧ fraction.length ≤ frac.length + 1 := by
  obtain ⟨fraction, frac', z, htext, hfraction, rfl, hlength⟩ := exists_fraction int hfrac
  refine ⟨fraction, frac', htext, ⟨hne, hint, hzero, hfraction, hexp, z, ?_, ?_⟩, hlength⟩
  · rw [← hn, ← List.append_assoc, decimalValue_append (int ++ frac'), decimalValue_replicate,
      List.length_replicate, Nat.add_zero]
  · rw [← hj, List.length_append, List.length_replicate]
    omega

theorem exponentText_exponentPart (x : Int) : ExponentText (exponentPart x) x := by
  have hdigits : ∀ n : Nat, ∃ digits, (if n < 10 then 48 :: decimal n else decimal n) = digits ∧
      digits ≠ [] ∧ (∀ c ∈ digits, isDecimal c = true) ∧ decimalValue digits = n := by
    intro n
    refine ⟨_, rfl, ?_⟩
    split
    next =>
      refine ⟨List.cons_ne_nil _ _, List.forall_mem_cons.mpr ⟨rfl, fun _ => isDecimal_of_mem_decimal⟩,
        ?_⟩
      exact decimalValue_decimal n
    next => exact ⟨decimal_ne_nil n, fun _ => isDecimal_of_mem_decimal, decimalValue_decimal n⟩
  obtain ⟨digits, hshape, hne, hall, hvalue⟩ := hdigits x.natAbs
  rw [exponentPart, hshape]
  by_cases hx : x < 0
  · have hminus := ExponentText.minus (e := 101) rfl hne hall
    rw [hvalue] at hminus
    rw [if_pos hx]
    convert hminus using 1
    omega
  · have hplus := ExponentText.plus (e := 101) rfl hne hall
    rw [hvalue] at hplus
    rw [if_neg hx]
    convert hplus using 1
    omega

theorem length_exponentPart {x : Int} (hx : x.natAbs < 1000) : (exponentPart x).length ≤ 5 := by
  have hlength {n : Nat} (hn : n < 1000) :
      (if n < 10 then 48 :: decimal n else decimal n).length ≤ 3 := by
    have hle : (decimal n).length ≤ 3 := by
      rw [decimal, List.length_map]
      exact (Nat.length_toDigits_le_iff (by decide) (by decide)).mpr hn
    split
    next hone =>
      have hle : (decimal n).length ≤ 1 := by
        rw [decimal, List.length_map]
        exact (Nat.length_toDigits_le_iff (by decide) (by decide)).mpr hone
      rw [List.length_cons]
      omega
    next => exact hle
  have hle := hlength hx
  rw [exponentPart, List.length_cons, List.length_cons]
  omega

namespace Binary64

variable {q : Nat} {x : Binary64}

theorem magnitude_pos (hx : x.significand ≠ 0) : 0 < x.magnitude :=
  Nat.mul_pos (Nat.pos_of_ne_zero hx) (Nat.pow_pos (by decide))

theorem binary64Units_pos : 0 < binary64Units := by
  unfold binary64Units
  positivity

theorem binary64Units_le : binary64Units ≤ 10 ^ 324 := by
  decide +kernel

/-- The digits in front of the point of the largest double. -/
def binary64Digits : Nat := 309

theorem magnitude_lt (x : Binary64) : x.magnitude < 10 ^ binary64Digits * binary64Units := by
  have hlarge : 2 ^ 53 * 2 ^ binary64MaxExponent ≤ 10 ^ binary64Digits * binary64Units := by
    decide +kernel
  have hpow : 2 ^ x.exponent ≤ 2 ^ binary64MaxExponent :=
    Nat.pow_le_pow_right (by decide) x.exponent_le
  calc x.significand * 2 ^ x.exponent < 2 ^ 53 * 2 ^ x.exponent :=
        Nat.mul_lt_mul_of_pos_right x.normal.lt (Nat.pow_pos (by decide))
    _ ≤ 2 ^ 53 * 2 ^ binary64MaxExponent := Nat.mul_le_mul_left _ hpow
    _ ≤ 10 ^ binary64Digits * binary64Units := hlarge

theorem le_scaled (hq : 0 < q) (hx : x.significand ≠ 0) :
    10 ^ (q - 1) * binary64Units ≤ x.magnitude * 10 ^ (q + 323) :=
  calc 10 ^ (q - 1) * binary64Units ≤ 10 ^ (q - 1) * 10 ^ 324 :=
        Nat.mul_le_mul_left _ binary64Units_le
    _ = 10 ^ (q + 323) := by rw [← Nat.pow_add]; congr 1; omega
    _ ≤ x.magnitude * 10 ^ (q + 323) := Nat.le_mul_of_pos_left _ (magnitude_pos hx)

theorem significant_bounds (hq : 0 < q) (hx : x.significand ≠ 0) :
    10 ^ (q - 1) ≤ (x.significant q).1 ∧ (x.significant q).1 < 10 ^ q :=
  roundDigits_bounds (by decide) hq binary64Units_pos (le_scaled hq hx)

theorem natAbs_decimalExponent (hq : 0 < q) : (x.decimalExponent q).natAbs < 1000 := by
  have hlt : x.magnitude * 10 ^ (q + 323) / binary64Units < 10 ^ (q + 323 + binary64Digits) := by
    rw [Nat.div_lt_iff_lt_mul binary64Units_pos]
    calc x.magnitude * 10 ^ (q + 323) < 10 ^ binary64Digits * binary64Units * 10 ^ (q + 323) :=
          Nat.mul_lt_mul_of_pos_right x.magnitude_lt (by positivity)
      _ = 10 ^ (q + 323 + binary64Digits) * binary64Units := by
          rw [Nat.pow_add 10 (q + 323), Nat.mul_right_comm, Nat.mul_comm (10 ^ binary64Digits)]
  have hlog : Nat.log 10 (x.magnitude * 10 ^ (q + 323) / binary64Units) < q + 323 + binary64Digits :=
    Nat.log_lt_of_lt_pow' (by omega) hlt
  have hle : (x.significant q).2 ≤
      Nat.log 10 (x.magnitude * 10 ^ (q + 323) / binary64Units) + 1 - q + 1 := by
    rw [significant, roundDigits]
    split
    next => exact Nat.le_refl _
    next => exact Nat.le_succ _
  have hdigits : binary64Digits = 309 := rfl
  rw [decimalExponent]
  omega

theorem printG_parts (hq : 0 < q) (hx : x.significand ≠ 0) : ∃ int fraction frac exp k,
    x.printG q = signPart x.negative ++ (int ++ (fraction ++ exp)) ∧
      Parts (x.significant q).1 (x.decimalExponent q + 1 - q) int fraction frac exp k ∧
      (int ++ (fraction ++ exp)).length ≤ q + 6 := by
  obtain ⟨hlow, hhigh⟩ := significant_bounds hq hx
  have hlength := length_decimal hq hlow hhigh
  have hhead := head_decimal hq hlow hhigh
  have hvalue := decimalValue_decimal (x.significant q).1
  have hall : ∀ c ∈ decimal (x.significant q).1, isDecimal c = true :=
    fun _ => isDecimal_of_mem_decimal
  have hlarge := natAbs_decimalExponent (x := x) hq
  rw [printG, if_neg hx]
  generalize decimal (x.significant q).1 = ds at *
  generalize x.decimalExponent q = e at *
  have hne : ds ≠ [] := List.ne_nil_of_length_pos (by omega)
  have htake {i : Nat} (hi : 0 < i) : ds.take i ≠ [] ∧ (ds.take i).head? ≠ some 48 := by
    obtain ⟨d, ds', rfl⟩ := List.exists_cons_of_ne_nil hne
    obtain ⟨i, rfl⟩ := Nat.exists_eq_succ_of_ne_zero hi.ne'
    exact ⟨List.cons_ne_nil _ _, hhead⟩
  have hsplit (i : Nat) : decimalValue (ds.take i ++ ds.drop i) = (x.significant q).1 := by
    rw [List.take_append_drop, hvalue]
  have htake_all (i : Nat) : ∀ c ∈ ds.take i, isDecimal c = true := fun c hc =>
    hall c (List.mem_of_mem_take hc)
  have hdrop_all (i : Nat) : ∀ c ∈ ds.drop i, isDecimal c = true := fun c hc =>
    hall c (List.mem_of_mem_drop hc)
  split
  next =>
    obtain ⟨htake_ne, htake_head⟩ := htake Nat.one_pos
    obtain ⟨fraction, frac, htext, hparts, hle⟩ := exists_parts (ds.take 1) (ds.drop 1)
      (exponentPart e) (e + 1 - q) htake_ne (htake_all 1) (.inr htake_head) (hdrop_all 1)
      (exponentText_exponentPart e) (hsplit 1) (by rw [List.length_drop]; omega)
    refine ⟨_, _, _, _, _, by rw [htext, List.append_assoc], hparts, ?_⟩
    have hexp := length_exponentPart hlarge
    simp only [List.length_append, List.length_take, List.length_drop] at hle ⊢
    omega
  next hform =>
    rw [not_or] at hform
    split
    next hneg =>
      have hfrac : ∀ c ∈ List.replicate (-e - 1).toNat 48 ++ ds, isDecimal c = true := by
        refine List.forall_mem_append.mpr ⟨fun c hc => ?_, hall⟩
        rw [List.eq_of_mem_replicate hc]
        rfl
      have hfrac_value : decimalValue ([48] ++ (List.replicate (-e - 1).toNat 48 ++ ds)) =
          (x.significant q).1 := by
        have hzeros (m : Nat) : decimalValue ([48] ++ List.replicate m 48) = 0 :=
          decimalValue_replicate (m + 1)
        rw [← List.append_assoc, decimalValue_append, hvalue, hzeros, Nat.zero_mul, Nat.zero_add]
      obtain ⟨fraction, frac, htext, hparts, hle⟩ := exists_parts [48]
        (List.replicate (-e - 1).toNat 48 ++ ds) [] (e + 1 - q) (List.cons_ne_nil _ _) (by decide)
        (.inl ⟨rfl, rfl⟩) hfrac .none hfrac_value (by
          rw [List.length_append, List.length_replicate]
          omega)
      refine ⟨_, _, _, _, _, by rw [htext, List.append_nil], hparts, ?_⟩
      simp only [List.length_append, List.length_replicate, List.length_cons, List.length_nil]
        at hle ⊢
      omega
    next hpos =>
      have hcut : 0 < (e + 1).toNat := by omega
      obtain ⟨htake_ne, htake_head⟩ := htake hcut
      obtain ⟨fraction, frac, htext, hparts, hle⟩ := exists_parts (ds.take (e + 1).toNat)
        (ds.drop (e + 1).toNat) [] (e + 1 - q) htake_ne (htake_all _) (.inr htake_head)
        (hdrop_all _) .none (hsplit _) (by rw [List.length_drop]; omega)
      refine ⟨_, _, _, _, _, by rw [htext, List.append_nil], hparts, ?_⟩
      simp only [List.length_append, List.length_take, List.length_drop, List.length_nil] at hle ⊢
      omega

/-! ## Reading -/

theorem signText_signPart (negative : Bool) : SignText (signPart negative) negative := by
  cases negative with
  | true => exact .minus
  | false => exact .none

theorem exists_scanned (hq : 0 < q) (hx : x.significand ≠ 0) : ∃ digits j,
    Scanner.numeral (x.printG q) = some ((x.negative, .decimal digits j), []) ∧
      decimalValue digits * 10 ^ j.toNat * binary64Units * 10 ^ (q + 323) =
        (x.significant q).1 * 10 ^ (x.significant q).2 * binary64Units * 10 ^ (-j).toNat := by
  obtain ⟨int, fraction, frac, exp, k, htext, hparts, -⟩ := printG_parts hq hx
  have hscan := Scanner.numeral_append (signText_signPart x.negative) hparts.ne hparts.digits
    hparts.fraction hparts.exponent endsNumeral_nil
  rw [List.append_nil, ← htext] at hscan
  refine ⟨_, _, hscan, ?_⟩
  obtain ⟨z, hz, hj⟩ := hparts.value
  rw [decimalExponent] at hj
  generalize k - (frac.length : Int) = j at *
  have hexp : j.toNat + (q + 323) = z + (x.significant q).2 + (-j).toNat := by omega
  have hpow : 10 ^ j.toNat * 10 ^ (q + 323) =
      10 ^ z * 10 ^ (x.significant q).2 * 10 ^ (-j).toNat := by
    rw [← Nat.pow_add, hexp, Nat.pow_add, Nat.pow_add]
  calc decimalValue (int ++ frac) * 10 ^ j.toNat * binary64Units * 10 ^ (q + 323)
      = decimalValue (int ++ frac) * (10 ^ j.toNat * 10 ^ (q + 323)) * binary64Units := by
        rw [Nat.mul_right_comm, Nat.mul_assoc (decimalValue _)]
    _ = decimalValue (int ++ frac) * 10 ^ z * 10 ^ (x.significant q).2 * binary64Units *
        10 ^ (-j).toNat := by rw [hpow]; ring
    _ = _ := by rw [hz]

/-- A quotient of units that was printed with at least 17 digits is nearer to the double than half of
a last digit of 53, even below the numbers with that many digits. -/
theorem round_eq {n d : Nat} (hd : 0 < d)
    (hlt : 2 ^ 54 * n < 2 ^ 54 * (x.magnitude * d) + x.magnitude * d)
    (hgt : 2 ^ 54 * (x.magnitude * d) < 2 ^ 54 * n + x.magnitude * d)
    (hinexact : x.significand < 2 ^ 52 → x.magnitude * d ≠ n) :
    Binary64.round x.negative n d hd = (some x, decide (x.significand < 2 ^ 52)) := by
  have hdigits : roundDigits 2 53 n d = (x.significand, x.exponent) :=
    roundDigits_eq (by decide) hd x.normal hlt hgt
  have htiny : (decide (roundQuotient (2 * n) d < 2 ^ 53) && decide (x.magnitude * d ≠ n)) =
      decide (x.significand < 2 ^ 52) := by
    by_cases hsub : x.significand < 2 ^ 52
    · have hexp : x.exponent = 0 := x.normal.le.resolve_right (Nat.not_le.mpr hsub)
      have hmag : x.magnitude = x.significand := by rw [magnitude, hexp, Nat.pow_zero, Nat.mul_one]
      have hle : roundQuotient (2 * n) d ≤ 2 ^ 53 - 1 := by
        apply roundQuotient_le hd
        have hle : x.magnitude * d ≤ (2 ^ 52 - 1) * d := Nat.mul_le_mul_right d (by omega)
        omega
      rw [decide_eq_true hsub, decide_eq_true (hinexact hsub), decide_eq_true (by omega)]
      rfl
    · have hge : 2 ^ 52 ≤ x.magnitude :=
        (Nat.not_lt.mp hsub).trans (Nat.le_mul_of_pos_right _ (Nat.pow_pos (by decide)))
      have hle : 2 ^ 53 ≤ roundQuotient (2 * n) d := by
        apply le_roundQuotient_of_lt hd
        rcases Nat.eq_or_lt_of_le hge with heq | hlt'
        · rw [← heq] at hgt
          omega
        · have hle : (2 ^ 52 + 1) * d ≤ x.magnitude * d := Nat.mul_le_mul_right d hlt'
          omega
      rw [decide_eq_false hsub, decide_eq_false (by omega)]
      rfl
  rw [Binary64.round, dif_pos (by rw [hdigits]; exact x.exponent_le)]
  rw [magnitude] at htiny
  simp only [hdigits, htiny]

theorem two_pow_dvd {v m a c : Nat} (h : v * 10 ^ a = m * 2 ^ (a + c)) : 2 ^ c ∣ v := by
  have hcancel : v * 5 ^ a = m * 2 ^ c := by
    apply Nat.eq_of_mul_eq_mul_right (Nat.two_pow_pos a)
    calc v * 5 ^ a * 2 ^ a = v * (2 * 5) ^ a := by rw [Nat.mul_pow]; ring
      _ = m * 2 ^ c * 2 ^ a := by rw [h, Nat.pow_add]; ring
  have hcoprime : Nat.Coprime (2 ^ c) (5 ^ a) := Nat.Coprime.pow _ _ (by decide)
  exact hcoprime.dvd_of_dvd_mul_right (hcancel ▸ Nat.dvd_mul_left _ _)

/-- A double below those with 53 digits has too many factors two in its denominator to be printed
exactly. -/
theorem inexact {n d : Nat} (hq : q ≤ 600) (hx : x.significand ≠ 0)
    (hsub : x.significand < 2 ^ 52) (hd : 0 < d)
    (hread : n * 10 ^ (q + 323) = (x.significant q).1 * 10 ^ (x.significant q).2 * binary64Units * d) :
    x.magnitude * d ≠ n := by
  rintro rfl
  obtain ⟨c, hc⟩ : ∃ c, q + 323 + (c + 53) = 1074 := ⟨1074 - (q + 323) - 53, by omega⟩
  have hexact : x.magnitude * 10 ^ (q + 323) =
      (x.significant q).1 * 10 ^ (x.significant q).2 * 2 ^ (q + 323 + (c + 53)) := by
    apply Nat.eq_of_mul_eq_mul_right hd
    rw [hc, Nat.mul_right_comm]
    exact hread
  have hle : 2 ^ (c + 53) ≤ x.magnitude := Nat.le_of_dvd (magnitude_pos hx) (two_pow_dvd hexact)
  have hexp : x.exponent = 0 := x.normal.le.resolve_right (Nat.not_le.mpr hsub)
  have hpow : 2 ^ 53 ≤ 2 ^ (c + 53) := Nat.pow_le_pow_right (by decide) (by omega)
  rw [magnitude, hexp, Nat.pow_zero, Nat.mul_one] at hle
  omega

theorem printG_zero (hx : x.significand = 0) : x.printG q = signPart x.negative ++ [48] := by
  rw [printG, if_pos hx]

theorem eq_of_significand_eq_zero (hx : x.significand = 0) :
    x = { zero with negative := x.negative } := by
  obtain ⟨negative, significand, exponent, normal, hle⟩ := x
  obtain rfl : significand = 0 := hx
  obtain rfl : exponent = 0 := normal.le.resolve_right (by decide)
  rfl

theorem round_zero (negative : Bool) {d : Nat} (hd : 0 < d) :
    Binary64.round negative 0 d hd = (some { zero with negative := negative }, false) := by
  have hdigits := roundDigits_zero (b := 2) (p := 53) (by decide) (by decide) hd
  rw [Binary64.round, dif_pos (by rw [hdigits]; exact Nat.zero_le _)]
  simp only [hdigits, zero, Nat.zero_mul, ne_eq, not_true_eq_false, decide_false, Bool.and_false]

/-- `strtod` on what was printed: the double, with `ERANGE` where it has less than 53 digits. -/
theorem strtod_printG (hq : 17 ≤ q) (hq' : q ≤ 600) (x : Binary64) : strtod (x.printG q) =
    ⟨some x, (x.printG q).length, decide (x.significand ≠ 0 ∧ x.significand < 2 ^ 52)⟩ := by
  by_cases hx : x.significand = 0
  · have hscan := Scanner.numeral_append (signText_signPart x.negative) (List.cons_ne_nil 48 [])
      (by decide) .none .none endsNumeral_nil
    have hround : (Scanned.decimal [48] 0).value x.negative = (some x, false) := by
      have hzero : decimalValue [48] * 10 ^ (0 : Int).toNat * binary64Units = 0 := by
        rw [show decimalValue [48] = 0 from rfl, Nat.zero_mul, Nat.zero_mul]
      simp only [Scanned.value, hzero, round_zero]
      rw [← eq_of_significand_eq_zero hx]
    simp only [List.append_nil, List.length_nil, Nat.cast_zero, sub_zero] at hscan
    rw [printG_zero hx, strtod, hscan]
    simp only [hround, hx, List.length_nil, Nat.sub_zero, ne_eq, not_true_eq_false, false_and,
      decide_false]
  · obtain ⟨digits, j, hscan, hread⟩ := exists_scanned (q := q) (by omega) hx
    have hdigits : 2 ^ 53 < 10 ^ (q - 1) :=
      Nat.lt_of_lt_of_le (by decide : 2 ^ 53 < 10 ^ 16)
        (Nat.pow_le_pow_right (by decide) (by omega))
    have hd : 0 < 10 ^ (-j).toNat := Nat.pow_pos (by decide)
    obtain ⟨hlt, hgt⟩ := error_lt (by decide) (by omega) hdigits (magnitude_pos hx)
      (Nat.pow_pos (by decide)) binary64Units_pos (le_scaled (by omega) hx) hd hread
    have hround := round_eq hd hlt hgt fun hsub => inexact hq' hx hsub hd hread
    rw [strtod, hscan]
    simp only [Scanned.value, hround, List.length_nil, Nat.sub_zero, ne_eq, hx, not_false_eq_true,
      true_and]

end Binary64

end PCom.Lib
