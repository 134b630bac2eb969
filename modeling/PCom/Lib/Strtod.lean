import PCom.Lib.Rounding
import PCom.Lib.Scanning
import PCom.Lib.Text
import PCom.Lib.Utf8

/-! The doubles of IEEE 754, and `strtod` in the C locale, with the errors that it reports where
tininess is detected after rounding. -/

namespace PCom.Lib

/-- How often the least double is in one. -/
def binary64Units : Nat := 2 ^ 1074

def binary64MaxExponent : Nat := 2045

/-- A finite double, counted in units of the least of them. -/
structure Binary64 where
  negative : Bool
  significand : Nat
  exponent : Nat
  normal : Normal 2 53 significand exponent
  exponent_le : exponent ≤ binary64MaxExponent
  deriving DecidableEq

namespace Binary64

def magnitude (x : Binary64) : Nat := x.significand * 2 ^ x.exponent

def zero : Binary64 where
  negative := false
  significand := 0
  exponent := 0
  normal := ⟨by decide, .inl rfl⟩
  exponent_le := by decide

end Binary64

/-- What `strtod` returns, `none` for what is not finite, where it stops, and whether it sets
`errno`. -/
structure Conversion (ν : Type) where
  number : Option ν
  length : Nat
  errno : Bool

namespace Scanner

variable {α : Type}

def signed (f : Bool → Scanner α) : Scanner α :=
  ((one (· = 45)).bind fun _ => f true).orElse
    (((one (· = 43)).bind fun _ => f false).orElse (f false))

/-- Digits with a point before, behind or between them. -/
def mantissa (digit : Byte → Bool) : Scanner (List Byte × List Byte) :=
  ((run1 digit).bind fun int =>
      (((one (· = 46)).bind fun _ => run digit).orElse (pure [])).bind fun frac => pure (int, frac))
    |>.orElse ((one (· = 46)).bind fun _ => (run1 digit).bind fun frac => pure ([], frac))

def exponent (mark : Byte) : Scanner Int :=
  ((one (toLower · = mark)).bind fun _ => signed fun negative => (run1 isDecimal).bind fun digits =>
      pure (if negative then -(decimalValue digits : Int) else decimalValue digits))
    |>.orElse (pure 0)

def word (w : String) : Scanner Unit := each ((ascii w).map fun c b => toLower b = c)

end Scanner

inductive Scanned
  | infinity
  | nan
  | decimal (digits : List Byte) (exponent : Int)
  | hexadecimal (digits : List Byte) (exponent : Int)

namespace Scanner

def infinity : Scanner Scanned :=
  (word "inf").bind fun _ => ((word "inity").orElse (pure ())).bind fun _ => pure .infinity

def nan : Scanner Scanned :=
  (word "nan").bind fun _ =>
    (((one (· = 40)).bind fun _ =>
        (run fun c => isDecimal c || (97 ≤ (toLower c).toNat && (toLower c).toNat ≤ 122) || c = 95).bind
          fun _ => (one (· = 41)).bind fun _ => pure ()).orElse (pure ())).bind fun _ => pure .nan

def hexadecimal : Scanner Scanned :=
  (word "0x").bind fun _ => (mantissa fun c => (hexValue c).isSome).bind fun digits =>
    (exponent 112).bind fun e =>
      pure (.hexadecimal (digits.1 ++ digits.2) (e - 4 * digits.2.length))

def decimal : Scanner Scanned :=
  (mantissa isDecimal).bind fun digits =>
    (exponent 101).bind fun e => pure (.decimal (digits.1 ++ digits.2) (e - digits.2.length))

def numeral : Scanner (Bool × Scanned) :=
  signed fun negative =>
    (infinity.orElse (nan.orElse (hexadecimal.orElse decimal))).bind fun scanned =>
      pure (negative, scanned)

end Scanner

/-- A double for a quotient of units, and whether `errno` is set to `ERANGE`: where there is none, or
where the quotient is tiny and the double is not exact. -/
def Binary64.round (negative : Bool) (n d : Nat) (hd : 0 < d) : Option Binary64 × Bool :=
  if h : (roundDigits 2 53 n d).2 ≤ binary64MaxExponent then
    (some ⟨negative, _, _, normal_roundDigits (by decide) (by decide) hd, h⟩,
      roundQuotient (2 * n) d < 2 ^ 53 &&
        (roundDigits 2 53 n d).1 * 2 ^ (roundDigits 2 53 n d).2 * d ≠ n)
  else (none, true)

def hexadecimalValue (digits : List Byte) : Nat :=
  digits.foldl (fun n c => 16 * n + (hexValue c).getD 0) 0

def Scanned.value (negative : Bool) : Scanned → Option Binary64 × Bool
  | infinity => (none, false)
  | nan => (none, false)
  | decimal digits e =>
    Binary64.round negative (decimalValue digits * 10 ^ e.toNat * binary64Units) (10 ^ (-e).toNat)
      (Nat.pow_pos (by decide))
  | hexadecimal digits e =>
    Binary64.round negative (hexadecimalValue digits * 2 ^ (e + 1074).toNat) (2 ^ (-(e + 1074)).toNat)
      (Nat.pow_pos (by decide))

/-- `strtod` on a string without white space in front. -/
def strtod (s : List Byte) : Conversion Binary64 :=
  match Scanner.numeral s with
  | none => ⟨some .zero, 0, false⟩
  | some ((negative, scanned), rest) =>
    ⟨(scanned.value negative).1, s.length - rest.length, (scanned.value negative).2⟩

/-! ## What is scanned -/

namespace Scanner

variable {α : Type}

theorem local_signed {f : Bool → Scanner α} (h : ∀ b, Local (f b)) (hup : ∀ b, Upward (f b)) :
    Local (signed f) :=
  ((local_one _).bind fun _ => h true).orElse
    (((local_one _).bind fun _ => h false).orElse (h false) (upward_one_bind fun _ => hup false))
    (upward_one_bind fun _ => hup true)

theorem upward_signed {f : Bool → Scanner α} (h : ∀ b, Upward (f b)) : Upward (signed f) :=
  (upward_one_bind fun _ => h true).orElse
    ((upward_one_bind fun _ => h false).orElse (h false))

theorem local_mantissa (digit : Byte → Bool) : Local (mantissa digit) := by
  refine ((local_run1 digit).bind fun _ => Local.bind (.orElse ?_ (local_pure _) ?_) fun _ =>
    local_pure _).orElse ?_ ?_
  · exact (local_one _).bind fun _ => local_run digit
  · exact upward_bind_of_some (upward_one _) fun _ _ => Option.some_ne_none _
  · exact (local_one _).bind fun _ => (local_run1 digit).bind fun _ => local_pure _
  · exact upward_bind_of_some (upward_run1 digit) fun _ s =>
      bind_ne_none (orElse_pure_ne_none _ _ s) fun _ _ => Option.some_ne_none _

theorem upward_mantissa (digit : Byte → Bool) : Upward (mantissa digit) := by
  refine Upward.orElse ?_ ?_
  · exact upward_bind_of_some (upward_run1 digit) fun _ s =>
      bind_ne_none (orElse_pure_ne_none _ _ s) fun _ _ => Option.some_ne_none _
  · exact upward_one_bind fun _ =>
      upward_bind_of_some (upward_run1 digit) fun _ _ => Option.some_ne_none _

theorem local_exponent (mark : Byte) : Local (exponent mark) := by
  have hup {f : List Byte → Int} : Upward ((run1 isDecimal).bind fun digits => pure (f digits)) :=
    upward_bind_of_some (upward_run1 _) fun _ _ => Option.some_ne_none _
  refine ((local_one _).bind fun _ => local_signed (fun _ => ?_) fun _ => hup).orElse (local_pure _)
    (upward_one_bind fun _ => upward_signed fun _ => hup)
  exact (local_run1 _).bind fun _ => local_pure _

theorem local_word (w : String) : Local (word w) := local_each _

theorem upward_word (w : String) : Upward (word w) := upward_each _

theorem local_infinity : Local infinity :=
  (local_word _).bind fun _ =>
    ((local_word _).orElse (local_pure _) (upward_word _)).bind fun _ => local_pure _

theorem upward_infinity : Upward infinity :=
  upward_bind_of_some (upward_word _) fun _ s =>
    bind_ne_none (orElse_pure_ne_none _ _ s) fun _ _ => Option.some_ne_none _

theorem local_nan : Local nan := by
  refine (local_word _).bind fun _ => Local.bind (.orElse ?_ (local_pure _) ?_) fun _ => local_pure _
  · exact (local_one _).bind fun _ => (local_run _).bind fun _ =>
      (local_one _).bind fun _ => local_pure _
  · exact upward_one_bind fun _ => upward_run_one_bind fun _ =>
      upward_of_some fun _ => Option.some_ne_none _

theorem upward_nan : Upward nan :=
  upward_bind_of_some (upward_word _) fun _ s =>
    bind_ne_none (orElse_pure_ne_none _ _ s) fun _ _ => Option.some_ne_none _

theorem exponent_ne_none (mark : Byte) (s : List Byte) : exponent mark s ≠ none :=
  orElse_pure_ne_none _ _ s

theorem local_hexadecimal : Local hexadecimal :=
  (local_word _).bind fun _ => (local_mantissa _).bind fun _ => (local_exponent _).bind fun _ =>
    local_pure _

theorem upward_hexadecimal : Upward hexadecimal :=
  upward_each_bind (upward_bind_of_some (upward_mantissa _) fun _ s =>
    bind_ne_none (exponent_ne_none _ s) fun _ _ => Option.some_ne_none _) _

theorem local_decimal : Local decimal :=
  (local_mantissa _).bind fun _ => (local_exponent _).bind fun _ => local_pure _

theorem upward_decimal : Upward decimal :=
  upward_bind_of_some (upward_mantissa _) fun _ s =>
    bind_ne_none (exponent_ne_none _ s) fun _ _ => Option.some_ne_none _

theorem local_numeral : Local numeral := by
  refine local_signed (fun _ => Local.bind ?_ fun _ => local_pure _) fun _ =>
    upward_bind_of_some ?_ fun _ _ => Option.some_ne_none _
  · exact local_infinity.orElse (local_nan.orElse (local_hexadecimal.orElse local_decimal
      upward_hexadecimal) upward_nan) upward_infinity
  · exact upward_infinity.orElse (upward_nan.orElse (upward_hexadecimal.orElse upward_decimal))

end Scanner

theorem length_strtod (s : List Byte) : (strtod s).length ≤ s.length := by
  rw [strtod]
  split
  next => exact Nat.zero_le _
  next => exact Nat.sub_le _ _

theorem strtod_take (s : List Byte) : strtod (s.take (strtod s).length) = strtod s := by
  cases h : Scanner.numeral s with
  | none =>
    have hnone : strtod s = ⟨some .zero, 0, false⟩ := by rw [strtod, h]
    rw [hnone]
    rfl
  | some r =>
    obtain ⟨⟨negative, scanned⟩, rest⟩ := r
    obtain ⟨hle, htake⟩ := Scanner.local_numeral.take h
    have hsome : strtod s = ⟨(scanned.value negative).1, s.length - rest.length,
        (scanned.value negative).2⟩ := by rw [strtod, h]
    rw [hsome, strtod, htake]
    simp only [List.length_take, List.length_nil, Nat.sub_zero, Conversion.mk.injEq, and_true,
      true_and]
    omega

/-! ## Decimal numerals -/

inductive SignText : List Byte → Bool → Prop
  | none : SignText [] false
  | minus : SignText [45] true

inductive FractionText : List Byte → List Byte → Prop
  | none : FractionText [] []
  | some {digits : List Byte} : digits ≠ [] → (∀ c ∈ digits, isDecimal c = true) →
    FractionText (46 :: digits) digits

inductive ExponentText : List Byte → Int → Prop
  | none : ExponentText [] 0
  | unsigned {e : Byte} {digits : List Byte} : toLower e = 101 → digits ≠ [] →
    (∀ c ∈ digits, isDecimal c = true) → ExponentText (e :: digits) (decimalValue digits)
  | plus {e : Byte} {digits : List Byte} : toLower e = 101 → digits ≠ [] →
    (∀ c ∈ digits, isDecimal c = true) → ExponentText (e :: 43 :: digits) (decimalValue digits)
  | minus {e : Byte} {digits : List Byte} : toLower e = 101 → digits ≠ [] →
    (∀ c ∈ digits, isDecimal c = true) → ExponentText (e :: 45 :: digits) (-(decimalValue digits : Int))

/-- What can stand behind a numeral: nothing that would go on with it. -/
def EndsNumeral (rest : List Byte) : Prop :=
  ∀ c ∈ rest.head?, isDecimal c = false ∧ c ∉ [46, 69, 88, 101, 120]

theorem endsNumeral_nil : EndsNumeral [] := by
  intro c hc
  cases hc

namespace Scanner

theorem character_cases (c : Byte) :
    (isDecimal c = true → c ≠ 43 ∧ c ≠ 45 ∧ toLower c ≠ 105 ∧ toLower c ≠ 110 ∧ toLower c ≠ 120) ∧
      (toLower c = 101 → isDecimal c = false ∧ c ≠ 46) ∧
      (c ∉ [46, 69, 88, 101, 120] → toLower c ≠ 101 ∧ toLower c ≠ 120) := by
  revert c
  set_option maxRecDepth 10000 in
  decide

theorem ne_of_isDecimal {c : Byte} (h : isDecimal c = true) : c ≠ 43 ∧ c ≠ 45 ∧
    toLower c ≠ 105 ∧ toLower c ≠ 110 ∧ toLower c ≠ 120 :=
  (character_cases c).1 h

theorem not_isDecimal_of_toLower {c : Byte} (h : toLower c = 101) :
    isDecimal c = false ∧ c ≠ 46 :=
  (character_cases c).2.1 h

theorem toLower_of_ends {c : Byte} (h : c ∉ [46, 69, 88, 101, 120]) : toLower c ≠ 101 ∧
    toLower c ≠ 120 :=
  (character_cases c).2.2 h

section Signed

variable {α : Type} {f : Bool → Scanner α} {s : List Byte}

theorem signed_digit (h : ∀ c ∈ s.head?, isDecimal c = true) : signed f s = f false s := by
  rw [signed, orElse_of_none, orElse_of_none]
  · exact bind_of_none (one_eq_none fun c hc => decide_eq_false (ne_of_isDecimal (h c hc)).1)
  · exact bind_of_none (one_eq_none fun c hc => decide_eq_false (ne_of_isDecimal (h c hc)).2.1)

theorem signed_plus {r : α × List Byte} (h : f false s = some r) : signed f (43 :: s) = some r := by
  rw [signed, orElse_of_none (bind_of_none rfl)]
  exact orElse_of_some h

theorem signed_minus {r : α × List Byte} (h : f true s = some r) : signed f (45 :: s) = some r :=
  orElse_of_some h

end Signed

section Append

variable {int frac fraction exp rest : List Byte} {k : Int}

theorem head_append {s : List Byte} {c : Byte} (h : c ∈ (s ++ rest).head?) :
    c ∈ s.head? ∨ c ∈ rest.head? := by
  cases s with
  | nil => exact .inr h
  | cons d s => exact .inl h

theorem head_digits {digits : List Byte} (hne : digits ≠ []) (h : ∀ c ∈ digits, isDecimal c = true) :
    ∀ c ∈ (digits ++ rest).head?, isDecimal c = true := by
  obtain ⟨d, digits, rfl⟩ := List.exists_cons_of_ne_nil hne
  intro c hc
  cases hc
  exact h d List.mem_cons_self

theorem exponent_append (h : ExponentText exp k) (hrest : EndsNumeral rest) :
    exponent 101 (exp ++ rest) = some (k, rest) := by
  have hdigits {digits : List Byte} (hne : digits ≠ []) (hall : ∀ c ∈ digits, isDecimal c = true) :
      run1 isDecimal (digits ++ rest) = some (digits, rest) :=
    run1_append hne hall fun c hc => (hrest c hc).1
  rw [exponent]
  cases h with
  | none =>
    rw [List.nil_append, orElse_of_none]
    · rfl
    · exact bind_of_none
        (one_eq_none fun c hc => decide_eq_false (toLower_of_ends (hrest c hc).2).1)
  | unsigned he hne hall =>
    rw [List.cons_append]
    refine orElse_of_some ?_
    rw [bind_of_some (one_cons (decide_eq_true he) _), signed_digit (head_digits hne hall),
      bind_of_some (hdigits hne hall)]
    rfl
  | plus he hne hall =>
    rw [List.cons_append, List.cons_append]
    refine orElse_of_some ?_
    rw [bind_of_some (one_cons (decide_eq_true he) _)]
    refine signed_plus ?_
    rw [bind_of_some (hdigits hne hall)]
    rfl
  | minus he hne hall =>
    rw [List.cons_append, List.cons_append]
    refine orElse_of_some ?_
    rw [bind_of_some (one_cons (decide_eq_true he) _)]
    refine signed_minus ?_
    rw [bind_of_some (hdigits hne hall)]
    rfl

theorem head_exponent (h : ExponentText exp k) (hrest : EndsNumeral rest) :
    ∀ c ∈ (exp ++ rest).head?, isDecimal c = false ∧ c ≠ 46 ∧ toLower c ≠ 120 := by
  have hmark {e : Byte} (he : toLower e = 101) : isDecimal e = false ∧ e ≠ 46 ∧ toLower e ≠ 120 :=
    ⟨(not_isDecimal_of_toLower he).1, (not_isDecimal_of_toLower he).2, by rw [he]; decide⟩
  intro c hc
  cases h with
  | none =>
    obtain ⟨hdigit, hends⟩ := hrest c hc
    exact ⟨hdigit, fun h => hends (h ▸ List.mem_cons_self), (toLower_of_ends hends).2⟩
  | unsigned he | plus he | minus he =>
    cases hc
    exact hmark he

theorem head_fraction (h : FractionText fraction frac) (hexp : ExponentText exp k)
    (hrest : EndsNumeral rest) : ∀ c ∈ (fraction ++ (exp ++ rest)).head?,
      isDecimal c = false ∧ toLower c ≠ 120 := by
  intro c hc
  cases h with
  | none =>
    obtain ⟨hdigit, -, hx⟩ := head_exponent hexp hrest c hc
    exact ⟨hdigit, hx⟩
  | some =>
    cases hc
    decide

theorem mantissa_append (hne : int ≠ []) (hint : ∀ c ∈ int, isDecimal c = true)
    (hfrac : FractionText fraction frac) (hexp : ExponentText exp k) (hrest : EndsNumeral rest) :
    mantissa isDecimal (int ++ (fraction ++ (exp ++ rest))) = some ((int, frac), exp ++ rest) := by
  have hfraction := head_fraction hfrac hexp hrest
  have hexponent := head_exponent hexp hrest
  refine orElse_of_some ?_
  rw [bind_of_some (run1_append hne hint fun c hc => (hfraction c hc).1)]
  cases hfrac with
  | none =>
    rw [List.nil_append, bind_of_some (orElse_of_none (bind_of_none (one_eq_none fun c hc =>
      decide_eq_false (hexponent c hc).2.1)))]
    rfl
  | some _ hall =>
    have hrun : run isDecimal (frac ++ (exp ++ rest)) = some (frac, exp ++ rest) :=
      run_append hall fun c hc => (hexponent c hc).1
    rw [List.cons_append, bind_of_some (orElse_of_some ((bind_of_some (one_cons rfl _)).trans hrun))]
    rfl

theorem numeral_append {sign : List Byte} {negative : Bool} (hsign : SignText sign negative)
    (hne : int ≠ []) (hint : ∀ c ∈ int, isDecimal c = true) (hfrac : FractionText fraction frac)
    (hexp : ExponentText exp k) (hrest : EndsNumeral rest) :
    numeral (sign ++ (int ++ (fraction ++ (exp ++ rest)))) =
      some ((negative, .decimal (int ++ frac) (k - frac.length)), rest) := by
  have hdecimal : decimal (int ++ (fraction ++ (exp ++ rest))) =
      some (.decimal (int ++ frac) (k - frac.length), rest) := by
    rw [decimal, bind_of_some (mantissa_append hne hint hfrac hexp hrest),
      bind_of_some (exponent_append hexp hrest)]
    rfl
  have hword {w : String} {b : Byte} (hw : (ascii w).head? = some b)
      (hb : ∀ c, isDecimal c = true → toLower c ≠ b) :
      word w (int ++ (fraction ++ (exp ++ rest))) = none := by
    obtain ⟨ps, hps⟩ : ∃ ps, ascii w = b :: ps := ⟨_, List.eq_cons_of_mem_head? hw⟩
    rw [word, hps, List.map_cons, each]
    exact bind_of_none (one_eq_none fun c hc =>
      decide_eq_false (hb c (head_digits hne hint c hc)))
  have hhex : hexadecimal (int ++ (fraction ++ (exp ++ rest))) = none := by
    obtain ⟨c, int, rfl⟩ := List.exists_cons_of_ne_nil hne
    have hx : ∀ d ∈ (int ++ (fraction ++ (exp ++ rest))).head?, toLower d ≠ 120 := by
      intro d hd
      rcases head_append hd with hd | hd
      · exact (ne_of_isDecimal (hint d (List.mem_cons_of_mem _ (List.mem_of_mem_head? hd)))).2.2.2.2
      · exact (head_fraction hfrac hexp hrest d hd).2
    refine bind_of_none ?_
    rw [word, show ascii "0x" = [48, 120] from rfl, List.map_cons, each, List.cons_append]
    cases hc : decide (toLower c = 48) with
    | false => exact bind_of_none (if_neg (Bool.eq_false_iff.mp hc))
    | true =>
      rw [bind_of_some (one_cons hc _), List.map_cons, each]
      exact bind_of_none (one_eq_none fun d hd => decide_eq_false (hx d hd))
  have hscanned (negative : Bool) : ((infinity.orElse (nan.orElse (hexadecimal.orElse decimal))).bind
      fun scanned => pure (negative, scanned)) (int ++ (fraction ++ (exp ++ rest))) =
        some ((negative, .decimal (int ++ frac) (k - frac.length)), rest) := by
    have hinfinity : infinity (int ++ (fraction ++ (exp ++ rest))) = none :=
      bind_of_none (hword (w := "inf") rfl fun c hc => (ne_of_isDecimal hc).2.2.1)
    have hnan : nan (int ++ (fraction ++ (exp ++ rest))) = none :=
      bind_of_none (hword (w := "nan") rfl fun c hc => (ne_of_isDecimal hc).2.2.2.1)
    refine (bind_of_some ?_).trans rfl
    rw [orElse_of_none hinfinity, orElse_of_none hnan, orElse_of_none hhex, hdecimal]
  rw [numeral]
  cases hsign with
  | none =>
    rw [List.nil_append, signed_digit (head_digits hne hint)]
    exact hscanned false
  | minus => exact signed_minus (hscanned true)

end Append

end Scanner

end PCom.Lib
