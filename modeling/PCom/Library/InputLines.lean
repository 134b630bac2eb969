import PCom.Library.Console

/-! The lines of the input as commands and their fields. -/

namespace PCom.Library

open Lib

/-- A line of the input, and whether a newline ends it. -/
structure Line where
  text : Str
  ended : Bool
  deriving DecidableEq

def linesOf : Str → List Line
  | [] => []
  | c :: s =>
    if c = 10 then ⟨[], true⟩ :: linesOf s
    else
      match linesOf s with
      | [] => [⟨[c], false⟩]
      | line :: ls => ⟨c :: line.text, line.ended⟩ :: ls

/-- The lines up to the command `exit`, if there is one, where the first `k` lines are fields. -/
def untilExit : Nat → List Line → Option (List Line)
  | _, [] => none
  | k + 1, line :: ls => (untilExit k ls).map (line :: ·)
  | 0, line :: ls =>
    if line.text = ascii "exit" then some [line]
    else (untilExit (textPrompts line.text) ls).map (line :: ·)

def usedLines (k : Nat) (ls : List Line) : List Line := (untilExit k ls).getD ls

/-- The line has a newline, goes into `line_buf` with it, and is a C string. -/
structure Line.Fits (line : Line) : Prop where
  ended : line.ended = true
  short : line.text.length + 1 < lineLen
  no_nul : (0 : Byte) ∉ line.text

instance (line : Line) : Decidable line.Fits :=
  decidable_of_iff (line.ended = true ∧ line.text.length + 1 < lineLen ∧ (0 : Byte) ∉ line.text)
    ⟨fun h => ⟨h.1, h.2.1, h.2.2⟩, fun h => ⟨h.ended, h.short, h.no_nul⟩⟩

def Entry.values (e : Entry) : List Str := e.cmd :: e.fields

/-- The command `exit` is there, and all lines up to it fit. -/
def Orderly (k : Nat) (ls : List Line) : Prop :=
  ∃ used, untilExit k ls = some used ∧ ∀ line ∈ used, line.Fits

theorem linesOf_eq_nil {s : Str} (h : linesOf s = []) : s = [] := by
  cases s with
  | nil => rfl
  | cons c s =>
    rw [linesOf] at h
    split at h
    next => cases h
    next => split at h <;> cases h

theorem eq_of_linesOf {s : Str} {line : Line} {ls : List Line} (h : linesOf s = line :: ls) :
    ∃ rest, linesOf rest = ls ∧ (10 : Byte) ∉ line.text ∧
      (line.ended = true ∧ s = line.text ++ 10 :: rest ∨
        line.ended = false ∧ line.text ≠ [] ∧ rest = [] ∧ s = line.text) := by
  induction s generalizing line ls with
  | nil => cases h
  | cons c s ih =>
    rw [linesOf] at h
    split at h
    next hc =>
      cases h
      exact ⟨s, rfl, List.not_mem_nil, .inl ⟨rfl, by rw [hc]; rfl⟩⟩
    next hc =>
      split at h
      next hs =>
        cases h
        refine ⟨[], rfl, ?_, .inr ⟨rfl, List.cons_ne_nil _ _, rfl, ?_⟩⟩
        · rw [List.mem_singleton]
          exact Ne.symm hc
        · rw [linesOf_eq_nil hs]
      next line' ls' hs =>
        cases h
        obtain ⟨rest, hrest, hlf, hshape⟩ := ih hs
        refine ⟨rest, hrest, ?_, ?_⟩
        · rw [List.mem_cons, not_or]
          exact ⟨Ne.symm hc, hlf⟩
        · rcases hshape with ⟨hended, hs⟩ | ⟨hended, -, hnil, hs⟩
          · exact .inl ⟨hended, congrArg (c :: ·) hs⟩
          · exact .inr ⟨hended, List.cons_ne_nil _ _, hnil, congrArg (c :: ·) hs⟩

theorem takeLine_ended {t : Str} (ht : (10 : Byte) ∉ t) {n : Nat} (hn : t.length < n) (rest : Str) :
    takeLine n (t ++ 10 :: rest) = t ++ [10] := by
  induction t generalizing n with
  | nil =>
    obtain ⟨n, rfl⟩ := Nat.exists_eq_succ_of_ne_zero (Nat.ne_of_gt hn)
    rw [List.nil_append, takeLine, if_pos rfl]
    rfl
  | cons c t ih =>
    rw [List.mem_cons, not_or] at ht
    obtain ⟨n, rfl⟩ := Nat.exists_eq_succ_of_ne_zero (Nat.ne_zero_of_lt hn)
    rw [List.cons_append, takeLine, if_neg (Ne.symm ht.1), ih ht.2 (Nat.lt_of_succ_lt_succ hn)]
    rfl

theorem length_takeLine_le (n : Nat) (s : Str) :
    (takeLine n s).length ≤ n ∧ (takeLine n s).length ≤ s.length := by
  induction n, s using takeLine.induct with
  | case1 n s => simp [takeLine]
  | case2 n c s hc ih =>
    rw [takeLine, if_neg hc, List.length_cons, List.length_cons]
    exact ⟨Nat.succ_le_succ ih.1, Nat.succ_le_succ ih.2⟩
  | case3 n s h =>
    rw [takeLine]
    · exact ⟨Nat.zero_le _, Nat.zero_le _⟩
    · exact h

namespace Console

variable {c : Console} {line : Line} {ls : List Line}

theorem fgets_eq (h : linesOf c.stdin = line :: ls) : c.fgets =
    ⟨takeLine (lineLen - 1) c.stdin, c.stdin.drop (takeLine (lineLen - 1) c.stdin).length⟩ := by
  have hne : c.stdin ≠ [] := by
    intro hnil
    rw [hnil] at h
    cases h
  rw [fgets, if_neg hne]

theorem readLine_fits (h : linesOf c.stdin = line :: ls) (hfits : line.Fits) :
    c.readLine.1 = line.text ∧ linesOf c.readLine.2.stdin = ls := by
  obtain ⟨rest, hrest, hlf, ⟨-, hs⟩ | ⟨hended, -⟩⟩ := eq_of_linesOf h
  · have htake : takeLine (lineLen - 1) c.stdin = line.text ++ [10] := by
      rw [hs]
      exact takeLine_ended hlf (Nat.lt_sub_of_add_lt hfits.short) rest
    have hnul : (0 : Byte) ∉ line.text ++ [10] := by
      rw [List.mem_append, not_or]
      exact ⟨hfits.no_nul, by decide⟩
    have hsplit : c.stdin = line.text ++ [10] ++ rest := by
      rw [hs, List.append_assoc]
      rfl
    rw [readLine, fgets_eq h, htake, copy, cstr_of_not_mem hnul, List.dropLast_concat]
    refine ⟨rfl, ?_⟩
    dsimp only
    rw [hsplit, List.drop_left]
    exact hrest
  · rw [hfits.ended] at hended
    cases hended

theorem fits_of_readLine (h : linesOf c.stdin = line :: ls) (hread : c.readLine.1 = line.text) :
    line.Fits := by
  obtain ⟨rest, -, hlf, hshape⟩ := eq_of_linesOf h
  have hlength : strlen (takeLine (lineLen - 1) c.stdin) - 1 = line.text.length := by
    rw [readLine, fgets_eq h, copy] at hread
    rw [strlen, ← List.length_dropLast]
    exact congrArg List.length hread
  have hle := strlen_le (takeLine (lineLen - 1) c.stdin)
  obtain ⟨hmax, hinput⟩ := length_takeLine_le (lineLen - 1) c.stdin
  rcases hshape with ⟨hended, hs⟩ | ⟨-, hne, -, hs⟩
  · have hshort : line.text.length < lineLen - 1 := by
      have hpos : 1 < lineLen := by decide
      omega
    refine ⟨hended, Nat.add_lt_of_lt_sub hshort, fun hnul => ?_⟩
    rw [hs, takeLine_ended hlf hshort, strlen, cstr_append_of_mem hnul] at hlength
    have hpos := List.length_pos_of_mem hnul
    have hshorter := strlen_le line.text
    rw [strlen] at hshorter
    omega
  · have hpos := List.length_pos_of_ne_nil hne
    rw [hs] at hinput hle hlength
    omega

end Console

section Used

variable {k : Nat} {line : Line} {ls : List Line}

@[simp] theorem usedLines_nil (k : Nat) : usedLines k [] = [] := by
  cases k <;> rfl

@[simp] theorem usedLines_succ : usedLines (k + 1) (line :: ls) = line :: usedLines k ls := by
  rw [usedLines, usedLines, untilExit]
  cases untilExit k ls <;> rfl

theorem usedLines_exit (h : line.text = ascii "exit") : usedLines 0 (line :: ls) = [line] := by
  rw [usedLines, untilExit, if_pos h, Option.getD_some]

theorem usedLines_command (h : line.text ≠ ascii "exit") :
    usedLines 0 (line :: ls) = line :: usedLines (textPrompts line.text) ls := by
  rw [usedLines, usedLines, untilExit, if_neg h]
  cases untilExit (textPrompts line.text) ls <;> rfl

theorem head_of_usedLines {value : Str} {values : List Str}
    (h : value :: values = (usedLines 0 (line :: ls)).map Line.text) : value = line.text := by
  by_cases hexit : line.text = ascii "exit"
  · rw [usedLines_exit hexit] at h
    exact (List.cons.inj h).1
  · rw [usedLines_command hexit] at h
    exact (List.cons.inj h).1

theorem not_orderly_nil : ¬ Orderly k [] := by
  rintro ⟨used, hused, -⟩
  cases k <;> cases hused

theorem orderly_map {o : Option (List Line)} :
    (∃ used, o.map (line :: ·) = some used ∧ ∀ line ∈ used, line.Fits) ↔
      line.Fits ∧ ∃ used, o = some used ∧ ∀ line ∈ used, line.Fits := by
  constructor
  · rintro ⟨used, hused, hfits⟩
    obtain ⟨used, rfl, rfl⟩ := Option.map_eq_some_iff.mp hused
    obtain ⟨hline, hused⟩ := List.forall_mem_cons.mp hfits
    exact ⟨hline, used, rfl, hused⟩
  · rintro ⟨hline, used, rfl, hused⟩
    exact ⟨line :: used, rfl, List.forall_mem_cons.mpr ⟨hline, hused⟩⟩

theorem orderly_succ : Orderly (k + 1) (line :: ls) ↔ line.Fits ∧ Orderly k ls :=
  orderly_map

theorem orderly_exit (h : line.text = ascii "exit") : Orderly 0 (line :: ls) ↔ line.Fits := by
  rw [Orderly, untilExit, if_pos h]
  constructor
  · rintro ⟨used, hused, hfits⟩
    cases hused
    exact hfits line List.mem_cons_self
  · exact fun hline => ⟨[line], rfl, List.forall_mem_singleton.mpr hline⟩

theorem orderly_command (h : line.text ≠ ascii "exit") :
    Orderly 0 (line :: ls) ↔ line.Fits ∧ Orderly (textPrompts line.text) ls := by
  rw [Orderly, untilExit, if_neg h]
  exact orderly_map

end Used

namespace Console

variable {c : Console}

theorem readLines_orderly {k : Nat} (h : Orderly k (linesOf c.stdin)) :
    Orderly 0 (linesOf (c.readLines k).2.stdin) ∧
    (usedLines k (linesOf c.stdin)).map Line.text
      = (c.readLines k).1 ++ (usedLines 0 (linesOf (c.readLines k).2.stdin)).map Line.text ∧
    (linesOf (c.readLines k).2.stdin).length ≤ (linesOf c.stdin).length := by
  induction k generalizing c with
  | zero => exact ⟨h, rfl, le_rfl⟩
  | succ k ih =>
    cases hlines : linesOf c.stdin with
    | nil => exact absurd (hlines ▸ h) not_orderly_nil
    | cons line ls =>
      rw [hlines] at h
      obtain ⟨hfits, h⟩ := orderly_succ.mp h
      obtain ⟨hread, hrest⟩ := readLine_fits hlines hfits
      rw [← hrest] at h
      obtain ⟨horderly, hvalues, hlength⟩ := ih h
      refine ⟨horderly, ?_, ?_⟩
      · rw [usedLines_succ, List.map_cons, ← hread, ← hrest, hvalues]
        rfl
      · rw [List.length_cons, ← hrest]
        exact Nat.le_succ_of_le hlength

theorem orderly_of_readLines {k : Nat} {values : List Str}
    (h : (c.readLines k).1 ++ values = (usedLines k (linesOf c.stdin)).map Line.text) :
    values = (usedLines 0 (linesOf (c.readLines k).2.stdin)).map Line.text ∧
      (Orderly 0 (linesOf (c.readLines k).2.stdin) → Orderly k (linesOf c.stdin)) := by
  induction k generalizing c with
  | zero => exact ⟨h, id⟩
  | succ k ih =>
    cases hlines : linesOf c.stdin with
    | nil =>
      rw [hlines, usedLines_nil] at h
      cases h
    | cons line ls =>
      rw [hlines, usedLines_succ] at h
      obtain ⟨hread, h⟩ := List.cons.inj h
      have hfits := fits_of_readLine hlines hread
      have hrest := (readLine_fits hlines hfits).2
      rw [← hrest] at h
      obtain ⟨hvalues, horderly⟩ := ih h
      refine ⟨hvalues, fun ho => orderly_succ.mpr ⟨hfits, ?_⟩⟩
      rw [← hrest]
      exact horderly ho

theorem readEntry_of_text (h : asksNumber c.readLine.1 = false) : c.readEntry =
    (⟨c.readLine.1, (c.readLine.2.readLines (textPrompts c.readLine.1)).1, none⟩,
      (c.readLine.2.readLines (textPrompts c.readLine.1)).2) := by
  rw [readEntry]
  simp [h]

end Console

end PCom.Library
