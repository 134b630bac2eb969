import PCom.Lib.PrintDouble
import PCom.Library.Json.Parser

/-! The numbers of `parson.c` are doubles: its numerals are those that `printf` writes and `strtod`
reads. -/

namespace PCom.Library.Json

open Lib

theorem Numeral.parts {t : Str} (h : Numeral t) : ∃ sign int fraction frac exp negative k,
    t = sign ++ (int ++ (fraction ++ exp)) ∧ SignText sign negative ∧ int ≠ [] ∧
      (∀ c ∈ int, Lib.isDecimal c = true) ∧ FractionText fraction frac ∧ ExponentText exp k := by
  cases h with
  | @mk sign int fraction exp hsign hint hfrac hexp =>
    have hint : int ≠ [] ∧ ∀ c ∈ int, Lib.isDecimal c = true := by
      rcases hint with rfl | ⟨hne, -, hdigits⟩
      · exact ⟨List.cons_ne_nil _ _, by decide⟩
      · exact ⟨hne, hdigits⟩
    obtain ⟨negative, hsign⟩ : ∃ negative, SignText sign negative := by
      rcases hsign with rfl | rfl
      · exact ⟨false, .none⟩
      · exact ⟨true, .minus⟩
    obtain ⟨frac, hfrac⟩ : ∃ frac, FractionText fraction frac := by
      rcases hfrac with rfl | ⟨digits, rfl, hne, hdigits⟩
      · exact ⟨[], .none⟩
      · exact ⟨digits, .some hne hdigits⟩
    obtain ⟨k, hexp⟩ : ∃ k, ExponentText exp k := by
      rcases hexp with rfl | ⟨e, sign, digits, rfl, he, hsign, hne, hdigits⟩
      · exact ⟨0, .none⟩
      · have hmark : toLower e = 101 := by rcases he with rfl | rfl <;> rfl
        rcases hsign with rfl | rfl | rfl
        · exact ⟨_, .unsigned hmark hne hdigits⟩
        · exact ⟨_, .plus hmark hne hdigits⟩
        · exact ⟨_, .minus hmark hne hdigits⟩
    exact ⟨sign, int, fraction, frac, exp, negative, k, by simp only [List.append_assoc], hsign,
      hint.1, hint.2, hfrac, hexp⟩

theorem numeral_of_parts {sign int fraction frac exp : Str} {negative : Bool} {k : Int}
    (hsign : SignText sign negative) (hne : int ≠ []) (hint : ∀ c ∈ int, Lib.isDecimal c = true)
    (hzero : int = [48] ∨ int.head? ≠ some 48) (hfrac : FractionText fraction frac)
    (hexp : ExponentText exp k) : Numeral (sign ++ (int ++ (fraction ++ exp))) := by
  have hmark {e : Byte} (he : toLower e = 101) : e = 101 ∨ e = 69 := by
    revert e
    set_option maxRecDepth 10000 in
    decide
  rw [← List.append_assoc, ← List.append_assoc]
  refine .mk ?_ ?_ ?_ ?_
  · cases hsign with
    | none => exact .inl rfl
    | minus => exact .inr rfl
  · exact hzero.imp_right fun hhead => ⟨hne, hhead, hint⟩
  · cases hfrac with
    | none => exact .inl rfl
    | some hne hdigits => exact .inr ⟨_, rfl, hne, hdigits⟩
  · cases hexp with
    | none => exact .inl rfl
    | unsigned he hne hdigits => exact .inr ⟨_, [], _, rfl, hmark he, .inl rfl, hne, hdigits⟩
    | plus he hne hdigits => exact .inr ⟨_, [43], _, rfl, hmark he, .inr (.inl rfl), hne, hdigits⟩
    | minus he hne hdigits => exact .inr ⟨_, [45], _, rfl, hmark he, .inr (.inr rfl), hne, hdigits⟩

theorem Numeral.scanned {t : Str} (h : Numeral t) : ∃ r, ∀ rest, EndsNumeral rest →
    Scanner.numeral (t ++ rest) = some (r, rest) := by
  obtain ⟨sign, int, fraction, frac, exp, negative, k, rfl, hsign, hne, hint, hfrac, hexp⟩ := h.parts
  refine ⟨(negative, .decimal (int ++ frac) (k - frac.length)), fun rest hrest => ?_⟩
  simp only [List.append_assoc]
  exact Scanner.numeral_append hsign hne hint hfrac hexp hrest

theorem strtod_append {t rest : Str} (h : Numeral t) (hrest : EndsNumeral rest) :
    strtod (t ++ rest) = strtod t := by
  obtain ⟨r, hr⟩ := h.scanned
  have hwhole := hr [] endsNumeral_nil
  rw [List.append_nil] at hwhole
  rw [strtod, strtod, hr rest hrest, hwhole]
  simp

theorem strtod_numeral {t : Str} (h : Numeral t) : (strtod t).length = t.length := by
  obtain ⟨r, hr⟩ := h.scanned
  have hwhole := hr [] endsNumeral_nil
  rw [List.append_nil] at hwhole
  rw [strtod, hwhole]
  rfl

theorem not_x_of_parts {sign int fraction frac exp : Str} {negative : Bool} {k : Int}
    (hsign : SignText sign negative) (hint : ∀ c ∈ int, Lib.isDecimal c = true)
    (hfrac : FractionText fraction frac) (hexp : ExponentText exp k) :
    ∀ c ∈ sign ++ (int ++ (fraction ++ exp)), c ≠ 120 ∧ c ≠ 88 := by
  have hdigit {c : Byte} (hc : Lib.isDecimal c = true) : c ≠ 120 ∧ c ≠ 88 := by
    revert c
    set_option maxRecDepth 10000 in
    decide
  have hmark {c : Byte} (hc : toLower c = 101) : c ≠ 120 ∧ c ≠ 88 := by
    revert c
    set_option maxRecDepth 10000 in
    decide
  simp only [List.forall_mem_append]
  refine ⟨?_, fun c hc => hdigit (hint c hc), ?_, ?_⟩
  · cases hsign with
    | none => exact List.forall_mem_nil _
    | minus => decide
  · cases hfrac with
    | none => exact List.forall_mem_nil _
    | some _ hdigits => exact List.forall_mem_cons.mpr ⟨by decide, fun c hc => hdigit (hdigits c hc)⟩
  · cases hexp with
    | none => exact List.forall_mem_nil _
    | unsigned he _ hdigits =>
      exact List.forall_mem_cons.mpr ⟨hmark he, fun c hc => hdigit (hdigits c hc)⟩
    | plus he _ hdigits | minus he _ hdigits =>
      exact List.forall_mem_cons.mpr ⟨hmark he,
        List.forall_mem_cons.mpr ⟨by decide, fun c hc => hdigit (hdigits c hc)⟩⟩

theorem isDecimal_of_parts {sign int fraction frac exp : Str} {negative : Bool} {k : Int}
    (hsign : SignText sign negative) (hne : int ≠ []) (hint : ∀ c ∈ int, Lib.isDecimal c = true)
    (hzero : int = [48] ∧ exp = [] ∨ int.head? ≠ some 48) (hfrac : FractionText fraction frac)
    (hexp : ExponentText exp k) : isDecimal (sign ++ (int ++ (fraction ++ exp))) = true := by
  have hx : ((sign ++ (int ++ (fraction ++ exp))).any fun c => c = 120 || c = 88) = false := by
    rw [List.any_eq_false]
    intro c hc
    simpa using not_x_of_parts hsign hint hfrac hexp c hc
  obtain ⟨c, int, rfl⟩ := List.exists_cons_of_ne_nil hne
  have hminus : c ≠ 45 := (Scanner.ne_of_isDecimal (hint c List.mem_cons_self)).2.1
  rw [isDecimal, if_neg, if_neg, hx]
  · rfl
  · rintro ⟨hlength, htake, hthird⟩
    cases hsign with
    | none => exact hminus (List.cons.inj htake).1
    | minus =>
      obtain rfl : c = 48 := (List.cons.inj (List.cons.inj htake).2).1
      obtain ⟨hint, rfl⟩ := hzero.resolve_right fun hhead => hhead rfl
      obtain rfl := (List.cons.inj hint).2
      cases hfrac with
      | none => exact absurd hlength (by decide)
      | some => exact hthird rfl
  · rintro ⟨hlength, hfirst, hsecond⟩
    cases hsign with
    | none =>
      obtain rfl : c = 48 := hfirst
      obtain ⟨hint, rfl⟩ := hzero.resolve_right fun hhead => hhead rfl
      obtain rfl := (List.cons.inj hint).2
      cases hfrac with
      | none => exact absurd hlength (by decide)
      | some => exact hsecond rfl
    | minus => exact absurd (show (45 : Byte) = 48 from hfirst) (by decide)

theorem exists_parts_printG (x : Binary64) : ∃ sign int fraction frac exp negative k,
    x.printG 17 = sign ++ (int ++ (fraction ++ exp)) ∧ SignText sign negative ∧ int ≠ [] ∧
      (∀ c ∈ int, Lib.isDecimal c = true) ∧ (int = [48] ∧ exp = [] ∨ int.head? ≠ some 48) ∧
      FractionText fraction frac ∧ ExponentText exp k ∧
      (sign ++ (int ++ (fraction ++ exp))).length ≤ 24 := by
  have hlength : (signPart x.negative).length ≤ 1 := by
    cases x.negative <;> decide
  by_cases hx : x.significand = 0
  · refine ⟨_, [48], [], [], [], _, 0, ?_, Binary64.signText_signPart x.negative,
      List.cons_ne_nil _ _, by decide, .inl ⟨rfl, rfl⟩, .none, .none, ?_⟩
    · rw [Binary64.printG_zero hx, List.nil_append, List.append_nil]
    · rw [List.length_append]
      exact Nat.add_le_add hlength (by decide : _ ≤ 23)
  · obtain ⟨int, fraction, frac, exp, k, htext, hparts, hle⟩ :=
      Binary64.printG_parts (q := 17) (by decide) hx
    refine ⟨_, int, fraction, frac, exp, _, k, htext, Binary64.signText_signPart x.negative,
      hparts.ne, hparts.digits, hparts.zero, hparts.fraction, hparts.exponent, ?_⟩
    rw [List.length_append]
    exact Nat.add_le_add hlength hle

theorem length_printG (x : Binary64) : (x.printG 17).length ≤ 24 := by
  obtain ⟨sign, int, fraction, frac, exp, negative, k, htext, -, -, -, -, -, -, hle⟩ :=
    exists_parts_printG x
  rw [htext]
  exact hle

/-- The C library, with `FLOAT_FORMAT`. -/
def binary64 : Doubles Binary64 where
  sprintf := Binary64.printG 17
  strtod := strtod
  numeral_sprintf := fun x => by
    obtain ⟨sign, int, fraction, frac, exp, negative, k, htext, hsign, hne, hint, hzero, hfrac, hexp,
      -⟩ := exists_parts_printG x
    rw [htext]
    exact numeral_of_parts hsign hne hint (hzero.imp_left And.left) hfrac hexp
  isDecimal_sprintf := fun x => by
    obtain ⟨sign, int, fraction, frac, exp, negative, k, htext, hsign, hne, hint, hzero, hfrac, hexp,
      -⟩ := exists_parts_printG x
    rw [htext]
    exact isDecimal_of_parts hsign hne hint hzero hfrac hexp
  length_sprintf := fun x => Nat.lt_of_le_of_lt (length_printG x) (by decide)
  length_strtod := length_strtod
  strtod_take := strtod_take
  strtod_numeral := fun _ => strtod_numeral
  strtod_append := fun _ _ => strtod_append

def threeHalves : Binary64 where
  negative := false
  significand := 3 * 2 ^ 51
  exponent := 1022
  normal := ⟨by decide, .inr (by decide)⟩
  exponent_le := by decide

theorem read_threeHalves : binary64.read (ascii "1.5") = some threeHalves := by decide +kernel

theorem numeral_threeHalves : Numeral (ascii "1.5") :=
  @Numeral.mk [] (ascii "1") (ascii ".5") [] (.inl rfl) (.inr ⟨by decide, by decide, by decide⟩)
    (.inr ⟨ascii "5", rfl, by decide, by decide⟩) (.inl rfl)

end PCom.Library.Json
