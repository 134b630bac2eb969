import PCom.Lib.Bytes

namespace PCom.Lib

def ascii (s : String) : List Byte := s.toList.map fun c => BitVec.ofNat 8 c.toNat

def crlf : List Byte := [13, 10]

def toLower (b : Byte) : Byte := if 65 ≤ b.toNat ∧ b.toNat ≤ 90 then b + 32 else b

def strstr (pat : List Byte) : List Byte → Option (List Byte)
  | [] => if pat = [] then some [] else none
  | c :: s => if pat.isPrefixOf (c :: s) then some (c :: s) else strstr pat s

/-- A number as `printf` writes it. -/
def decimal (n : Nat) : List Byte := (Nat.toDigits 10 n).map fun c => BitVec.ofNat 8 c.toNat

def intDecimal : Int → List Byte
  | .ofNat n => decimal n
  | .negSucc n => ascii "-" ++ decimal (n + 1)

def lines (ls : List (List Byte)) : List Byte := ls.flatMap (· ++ crlf)

theorem lines_snoc (ls : List (List Byte)) (line : List Byte) :
    lines (ls ++ [line]) = lines ls ++ line ++ crlf := by
  simp [lines]

def isDecimal (b : Byte) : Bool := 48 ≤ b.toNat && b.toNat ≤ 57

def decimalValue (bs : List Byte) : Nat := bs.foldl (fun n b => 10 * n + (b.toNat - 48)) 0

theorem toNat_ofChar {c : Char} (h : c.isDigit = true) : (BitVec.ofNat 8 c.toNat).toNat = c.toNat := by
  have hle : c.toNat ≤ 57 := by
    simp only [Char.isDigit, Bool.and_eq_true, decide_eq_true_eq] at h
    exact h.2
  rw [BitVec.toNat_ofNat]
  exact Nat.mod_eq_of_lt (by omega)

theorem isDecimal_of_mem_decimal {n : Nat} {b : Byte} (h : b ∈ decimal n) : isDecimal b = true := by
  obtain ⟨c, hc, rfl⟩ := List.mem_map.mp h
  have hdigit : c.isDigit = true := Nat.isDigit_of_mem_toDigits (by omega) (by omega) hc
  rw [isDecimal, toNat_ofChar hdigit]
  simpa [Char.isDigit, UInt32.le_iff_toNat_le] using hdigit

theorem decimal_ne_nil (n : Nat) : decimal n ≠ [] := by
  simp [decimal]

@[simp] theorem decimalValue_decimal (n : Nat) : decimalValue (decimal n) = n := by
  have hfold (cs : List Char) (hcs : ∀ c ∈ cs, c.isDigit = true) (acc : Nat) :
      (cs.map fun c => BitVec.ofNat 8 c.toNat).foldl (fun n (b : Byte) => 10 * n + (b.toNat - 48)) acc
        = Nat.ofDigitChars 10 cs acc := by
    induction cs generalizing acc with
    | nil => simp
    | cons c cs ih =>
      obtain ⟨hc, hcs⟩ := List.forall_mem_cons.mp hcs
      rw [List.map_cons, List.foldl_cons, toNat_ofChar hc, ih hcs, Nat.ofDigitChars_cons]
      rfl
  rw [decimalValue, decimal, hfold _ fun c hc => Nat.isDigit_of_mem_toDigits (by omega) (by omega) hc]
  exact Nat.ofDigitChars_ten_toDigits

section Separators

variable {α : Type*} [DecidableEq α]

/-- What stands before the first occurrence of `pat`, and what behind it. -/
def breakAt (pat : List α) : List α → Option (List α × List α)
  | [] => if pat = [] then some ([], []) else none
  | c :: s =>
    if pat.isPrefixOf (c :: s) then some ([], (c :: s).drop pat.length)
    else (breakAt pat s).map fun r => (c :: r.1, r.2)

theorem eq_of_breakAt {pat s before after : List α} (h : breakAt pat s = some (before, after)) :
    s = before ++ (pat ++ after) := by
  induction s generalizing before with
  | nil =>
    rw [breakAt] at h
    split at h
    next hpat =>
      cases h
      simp [hpat]
    next => cases h
  | cons c s ih =>
    rw [breakAt] at h
    split at h
    next hpat =>
      cases h
      exact (List.prefix_iff_eq_append.mp (List.isPrefixOf_iff_prefix.mp hpat)).symm
    next hpat =>
      obtain ⟨r, hr, hbefore⟩ := Option.map_eq_some_iff.mp h
      cases hbefore
      rw [List.cons_append, ← ih hr]

theorem breakAt_append_of_not_mem {p : α} (ps : List α) {l : List α} (h : p ∉ l) (s : List α) :
    breakAt (p :: ps) (l ++ s) = (breakAt (p :: ps) s).map fun r => (l ++ r.1, r.2) := by
  induction l with
  | nil => simp
  | cons c l ih =>
    rw [List.mem_cons, not_or] at h
    rw [List.cons_append, breakAt, if_neg (by simp [h.1]), ih h.2, Option.map_map]
    rfl

theorem breakAt_append {p : α} (ps : List α) {l : List α} (h : p ∉ l) (s : List α) :
    breakAt (p :: ps) (l ++ (p :: ps ++ s)) = some (l, s) := by
  rw [breakAt_append_of_not_mem ps h, List.cons_append, breakAt, if_pos (by simp)]
  simp

def position (pat s : List α) : Option Nat :=
  (List.range (s.length + 1)).find? fun i => pat.isPrefixOf (s.drop i)

theorem position_eq_some {pat s : List α} {i : Nat} :
    position pat s = some i ↔ i ≤ s.length ∧ pat <+: s.drop i ∧ ∀ k < i, ¬ pat <+: s.drop k := by
  rw [position, List.find?_range_eq_some]
  simp only [List.isPrefixOf_iff_prefix, List.mem_range, Nat.lt_succ_iff, Bool.not_eq_true',
    Bool.eq_false_iff, ne_eq]
  tauto

theorem position_eq_none {pat s : List α} :
    position pat s = none ↔ ∀ i ≤ s.length, ¬ pat <+: s.drop i := by
  rw [position, List.find?_eq_none]
  simp only [List.isPrefixOf_iff_prefix, List.mem_range, Nat.lt_succ_iff]

theorem position_of_breakAt {pat s before after : List α} (h : breakAt pat s = some (before, after)) :
    position pat s = some before.length := by
  rw [position_eq_some]
  induction s generalizing before with
  | nil =>
    rw [breakAt] at h
    split at h
    next hpat =>
      cases h
      simp [hpat]
    next => cases h
  | cons c s ih =>
    rw [breakAt] at h
    split at h
    next hpat =>
      cases h
      exact ⟨Nat.zero_le _, List.isPrefixOf_iff_prefix.mp hpat, fun k hk => absurd hk (Nat.not_lt_zero k)⟩
    next hpat =>
      obtain ⟨r, hr, hbefore⟩ := Option.map_eq_some_iff.mp h
      cases hbefore
      obtain ⟨hle, hocc, hfirst⟩ := ih hr
      refine ⟨Nat.succ_le_succ hle, hocc, fun k hk => ?_⟩
      cases k with
      | zero => exact mt List.isPrefixOf_iff_prefix.mpr hpat
      | succ k => exact hfirst k (Nat.lt_of_succ_lt_succ hk)

theorem position_append {pat s : List α} {i : Nat} (h : position pat s = some i) (t : List α) :
    position pat (s ++ t) = some i := by
  obtain ⟨hle, hocc, hfirst⟩ := position_eq_some.mp h
  have hdrop (k : Nat) : s.drop k <+: (s ++ t).drop k := (List.prefix_append s t).drop k
  refine position_eq_some.mpr ⟨?_, hocc.trans (hdrop i), fun k hk hocc' => hfirst k hk ?_⟩
  · rw [List.length_append]
    omega
  · have hfits := hocc.length_le
    refine List.prefix_of_prefix_length_le hocc' (hdrop k) ?_
    rw [List.length_drop] at hfits ⊢
    omega

theorem position_append_cons {pat l s : List α} {a : α} {i : Nat} (ha : a ∉ pat)
    (hl : ¬ pat <:+: l) (h : position pat s = some i) :
    position pat (l ++ a :: s) = some (l.length + 1 + i) := by
  obtain ⟨hle, hocc, hfirst⟩ := position_eq_some.mp h
  have hbehind (k : Nat) : (l ++ a :: s).drop (l.length + 1 + k) = s.drop k := by
    rw [Nat.add_assoc, List.drop_length_add_append, Nat.add_comm 1 k, List.drop_succ_cons]
  refine position_eq_some.mpr ⟨?_, hbehind i ▸ hocc, fun k hk hocc' => ?_⟩
  · rw [List.length_append, List.length_cons]
    omega
  · rcases Nat.lt_or_ge l.length k with hlk | hkl
    · obtain ⟨k, rfl⟩ := Nat.exists_eq_add_of_lt hlk
      rw [Nat.add_right_comm, hbehind] at hocc'
      exact hfirst k (by omega) hocc'
    · rw [List.drop_append_of_le_length hkl] at hocc'
      rcases Nat.lt_or_ge (l.drop k).length pat.length with hlong | hshort
      · have hover : l.drop k ++ [a] <+: pat := by
          refine List.prefix_of_prefix_length_le ?_ hocc' ?_
          · exact (List.prefix_append_right_inj _).mpr ⟨s, rfl⟩
          · rw [List.length_append]
            exact hlong
        exact ha (hover.subset (List.mem_append_right _ List.mem_cons_self))
      · have hinside := List.prefix_of_prefix_length_le hocc' (List.prefix_append _ _) hshort
        exact hl (hinside.isInfix.trans (List.drop_suffix k l).isInfix)

theorem position_of_prefix {pat s t : List α} {i : Nat} (h : position pat t = some i) (hst : s <+: t) :
    position pat s = if i + pat.length ≤ s.length then some i else none := by
  obtain ⟨hle, hocc, hfirst⟩ := position_eq_some.mp h
  have hdrop (k : Nat) : s.drop k <+: t.drop k := hst.drop k
  split
  next hlen =>
    have hpat : pat.length ≤ (s.drop i).length := by
      rw [List.length_drop]
      omega
    refine position_eq_some.mpr ⟨by omega, ?_, fun k hk hk' => hfirst k hk (hk'.trans (hdrop k))⟩
    exact List.prefix_of_prefix_length_le hocc (hdrop i) hpat
  next hlen =>
    refine position_eq_none.mpr fun k hk hocc' => ?_
    have hki : i ≤ k := Nat.le_of_not_lt fun hki => hfirst k hki (hocc'.trans (hdrop k))
    have hpat := hocc'.length_le
    rw [List.length_drop] at hpat
    omega

theorem position_append_of_not_mem {p : α} {ps l s : List α} (hp : p ∉ l) (h : p :: ps <+: s) :
    position (p :: ps) (l ++ s) = some l.length := by
  obtain ⟨t, rfl⟩ := h
  exact position_of_breakAt (breakAt_append ps hp t)

theorem exists_position_le {pat s : List α} {k : Nat} (hk : k ≤ s.length) (h : pat <+: s.drop k) :
    ∃ i ≤ k, position pat s = some i := by
  cases hs : position pat s with
  | none => exact absurd h (position_eq_none.mp hs k hk)
  | some i => exact ⟨i, Nat.le_of_not_lt fun hlt => (position_eq_some.mp hs).2.2 k hlt h, rfl⟩

/-- The pieces between the places where `a` stands and then `b`. -/
def splitPair (a b : α) : List α → List (List α)
  | [] => [[]]
  | [c] => [[c]]
  | c :: d :: s =>
    if c = a ∧ d = b then [] :: splitPair a b s
    else (splitPair a b (d :: s)).modifyHead (c :: ·)

theorem splitPair_ne_nil (a b : α) (l : List α) : splitPair a b l ≠ [] := by
  induction l using splitPair.induct a b with
  | case1 => simp [splitPair]
  | case2 c => simp [splitPair]
  | case3 c d s h => simp [splitPair, h]
  | case4 c d s h ih =>
    rw [splitPair, if_neg h]
    simpa using ih

theorem splitPair_append {a b : α} (hab : a ≠ b) (l s : List α) :
    splitPair a b (l ++ a :: b :: s) = splitPair a b l ++ splitPair a b s := by
  induction l using splitPair.induct a b with
  | case1 => simp [splitPair]
  | case2 c => simp [splitPair, hab]
  | case3 c d t h ih => simp [splitPair, h, ih]
  | case4 c d t h ih =>
    obtain ⟨first, rest, hsplit⟩ := List.exists_cons_of_ne_nil (splitPair_ne_nil a b (d :: t))
    simp only [List.cons_append] at ih
    simp only [List.cons_append, splitPair, if_neg h, ih, hsplit]
    rfl

theorem splitPair_of_not_mem {a : α} (b : α) {l : List α} (h : a ∉ l) : splitPair a b l = [l] := by
  induction l using splitPair.induct a b with
  | case1 => rfl
  | case2 c => rfl
  | case3 c d s hcd => exact absurd (hcd.1 ▸ List.mem_cons_self) h
  | case4 c d s hcd ih =>
    rw [List.mem_cons, not_or] at h
    rw [splitPair, if_neg hcd, ih h.2]
    rfl

theorem dropLast_flatMap {α : Type*} (c : α) (pieces : List (List α)) :
    (pieces.flatMap (· ++ [c])).dropLast = [c].intercalate pieces := by
  induction pieces with
  | nil => rfl
  | cons piece pieces ih =>
    cases pieces with
    | nil => simp [List.intercalate]
    | cons piece' pieces =>
      have hnil : (piece' :: pieces).flatMap (· ++ [c]) ≠ [] := by simp
      rw [List.flatMap_cons, List.dropLast_append_of_ne_nil hnil, ih]
      simp [List.intercalate]

end Separators

theorem position_lines_append {pat s : List Byte} (hcr : 13 ∉ pat) (hlf : 10 ∉ pat) (hne : pat ≠ [])
    {ls : List (List Byte)} (hls : ∀ line ∈ ls, ¬ pat <:+: line) {k : Nat}
    (h : position pat s = some k) : position pat (lines ls ++ s) = some ((lines ls).length + k) := by
  induction ls with
  | nil => simpa [lines] using h
  | cons line ls ih =>
    obtain ⟨hline, hls⟩ := List.forall_mem_cons.mp hls
    have hshape : lines (line :: ls) ++ s = line ++ 13 :: ([] ++ 10 :: (lines ls ++ s)) := by
      simp [lines, crlf]
    have hnil : ¬ pat <:+: [] := fun hpat => hne (List.infix_nil.mp hpat)
    rw [hshape, position_append_cons hcr hline (position_append_cons hlf hnil (ih hls))]
    congr 1
    simp only [lines, List.flatMap_cons, List.length_append, List.length_nil, crlf, List.length_cons]
    omega

theorem position_lines {pat s : List Byte} (hcr : 13 ∉ pat) (hlf : 10 ∉ pat) (hne : pat ≠ [])
    {ls : List (List Byte)} (hls : ∀ line ∈ ls, ¬ pat <:+: line) (h : pat <+: s) :
    position pat (lines ls ++ s) = some (lines ls).length :=
  position_lines_append hcr hlf hne hls <|
    position_eq_some.mpr ⟨Nat.zero_le _, h, fun k hk => absurd hk (Nat.not_lt_zero k)⟩

theorem exists_drop_of_infix {pat line s : List Byte} {ls : List (List Byte)} (hline : line ∈ ls)
    (h : pat <:+: line) : ∃ k < (lines ls).length, pat <+: (lines ls ++ s).drop k := by
  obtain ⟨before, after, rfl⟩ := List.append_of_mem hline
  obtain ⟨front, back, rfl⟩ := h
  refine ⟨(lines before).length + front.length, ?_, ?_⟩
  · simp only [lines, List.flatMap_append, List.flatMap_cons, List.length_append, crlf,
      List.length_cons]
    omega
  · have hshape : lines (before ++ (front ++ pat ++ back) :: after) ++ s =
        (lines before ++ front) ++ (pat ++ (back ++ crlf ++ lines after ++ s)) := by
      simp [lines]
    rw [hshape, ← List.length_append, List.drop_left]
    exact List.prefix_append _ _

theorem strstr_eq_map_position (pat s : List Byte) :
    strstr pat s = (position pat s).map fun i => s.drop i := by
  induction s with
  | nil =>
    rw [strstr]
    split
    next hpat =>
      subst hpat
      rfl
    next hpat =>
      have hnone : position pat [] = none :=
        position_eq_none.mpr fun i hi hocc => hpat (by simpa using hocc)
      rw [hnone, Option.map_none]
  | cons c s ih =>
    rw [strstr]
    split
    next hpat =>
      have hfirst : position pat (c :: s) = some 0 := position_eq_some.mpr
        ⟨Nat.zero_le _, List.isPrefixOf_iff_prefix.mp hpat, fun k hk => absurd hk (Nat.not_lt_zero k)⟩
      rw [hfirst]
      rfl
    next hpat =>
      have hhead : ¬ pat <+: c :: s := mt List.isPrefixOf_iff_prefix.mpr hpat
      rw [ih]
      cases hs : position pat s with
      | none =>
        have hnone : position pat (c :: s) = none := by
          refine position_eq_none.mpr fun i hi hocc => ?_
          cases i with
          | zero => exact hhead hocc
          | succ i => exact position_eq_none.mp hs i (Nat.le_of_succ_le_succ hi) hocc
        rw [hnone, Option.map_none, Option.map_none]
      | some i =>
        obtain ⟨hle, hocc, hfirst⟩ := position_eq_some.mp hs
        have hsome : position pat (c :: s) = some (i + 1) := by
          refine position_eq_some.mpr ⟨Nat.succ_le_succ hle, hocc, fun k hk => ?_⟩
          cases k with
          | zero => exact hhead
          | succ k => exact hfirst k (Nat.lt_of_succ_lt_succ hk)
        rw [hsome]
        rfl

theorem strstr_eq_none_iff {pat s : List Byte} : strstr pat s = none ↔ ¬ pat <:+: s := by
  rw [strstr_eq_map_position, Option.map_eq_none_iff, position_eq_none]
  constructor
  · rintro h ⟨front, back, rfl⟩
    refine h front.length ?_ ?_
    · rw [List.append_assoc, List.length_append]
      exact Nat.le_add_right _ _
    · rw [List.append_assoc, List.drop_left]
      exact List.prefix_append _ _
  · exact fun h i _ hocc => h (hocc.isInfix.trans (List.drop_suffix i s).isInfix)

theorem strstr_append_eq_iff {pat l s : List Byte} {a : Byte} (ha : a ∉ pat) (hne : pat ≠ []) :
    strstr pat (l ++ [a] ++ s) = some s ↔ pat <+: s ∧ ¬ pat <:+: l ++ [a] := by
  rw [strstr_eq_map_position, Option.map_eq_some_iff]
  constructor
  · rintro ⟨i, hi, hdrop⟩
    obtain ⟨hle, hocc, hfirst⟩ := position_eq_some.mp hi
    refine ⟨hdrop ▸ hocc, fun ⟨front, back, hhead⟩ => ?_⟩
    have hlen := congrArg List.length hdrop
    have hlen' := congrArg List.length hhead
    have hpos := List.length_pos_iff.mpr hne
    rw [List.length_drop, List.length_append] at hlen
    simp only [List.length_append] at hlen' hle hlen
    refine hfirst front.length (by omega) ?_
    rw [← hhead, List.append_assoc, List.append_assoc, List.drop_left]
    exact List.prefix_append _ _
  · rintro ⟨hocc, hhead⟩
    have hl : ¬ pat <:+: l := fun hl => hhead (hl.trans (List.prefix_append _ _).isInfix)
    have hs : position pat s = some 0 :=
      position_eq_some.mpr ⟨Nat.zero_le _, hocc, fun k hk => absurd hk (Nat.not_lt_zero k)⟩
    refine ⟨l.length + 1, ?_, ?_⟩
    · rw [List.append_assoc]
      exact position_append_cons ha hl hs
    · have hlength : (l ++ [a]).length = l.length + 1 := List.length_append
      rw [← hlength, List.drop_left]

theorem map_toLower_lines (ls : List (List Byte)) :
    (lines ls).map toLower = lines (ls.map (·.map toLower)) := by
  have hcrlf : crlf.map toLower = crlf := rfl
  simp only [lines, List.map_flatMap, List.flatMap_map, List.map_append, hcrlf]

end PCom.Lib
