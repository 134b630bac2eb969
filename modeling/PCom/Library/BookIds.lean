import PCom.Library.Console
import PCom.Library.Credentials

/-! Which book a user gets or deletes. -/

namespace PCom.Library

open Lib

structure IsNumber (digits rest : Str) : Prop where
  ne_nil : digits ≠ []
  digits : ∀ d ∈ digits, isDecimal d = true
  ends : ∀ c ∈ rest.head?, isDecimal c = false

inductive BeginsWithInt : Str → Int → Prop
  | plain {spaces digits rest : Str} : (∀ c ∈ spaces, isSpace c = true) → IsNumber digits rest →
      BeginsWithInt (spaces ++ (digits ++ rest)) (decimalValue digits)
  | plus {spaces digits rest : Str} : (∀ c ∈ spaces, isSpace c = true) → IsNumber digits rest →
      BeginsWithInt (spaces ++ 43 :: (digits ++ rest)) (decimalValue digits)
  | minus {spaces digits rest : Str} : (∀ c ∈ spaces, isSpace c = true) → IsNumber digits rest →
      BeginsWithInt (spaces ++ 45 :: (digits ++ rest)) (-decimalValue digits)

/-- The request for a book, and the line that its message begins with. -/
structure AsksFor (cmd : Str) (n : Int) (r : Request) : Prop where
  url : r.url = booksPath ++ ascii "/" ++ intDecimal n
  method : r.method = if cmd = ascii "get_book" then .get else .delete
  sent : ∀ host m, r.message host = .ok m →
    (if cmd = ascii "get_book" then ascii "GET " else ascii "DELETE ") ++
      (booksPath ++ ascii "/" ++ intDecimal n) ++ ascii " HTTP/1.1" ++ crlf <+: m

/-- Whatever the variable holds that the number is to be read into, the client sends the request for
the book whose number the input begins with, and without one it sends nothing. -/
def IdFromUser (p : Parson) (c : Client) (k : Console) : Prop :=
  ∀ u v, IsInt u → IsInt v → ∃ sent,
    c.request p (k.readEntry.1.command u) = sent ∧ c.request p (k.readEntry.1.command v) = sent ∧
      (∀ n, IsInt n → BeginsWithInt k.readLine.2.stdin n →
        ∃ r, sent = some r ∧ AsksFor k.readEntry.1.cmd n r) ∧
      ((∀ n, IsInt n → ¬ BeginsWithInt k.readLine.2.stdin n) → sent = none)

namespace IsNumber

variable {digits rest : Str}

theorem takeWhile_eq (h : IsNumber digits rest) : (digits ++ rest).takeWhile isDecimal = digits := by
  rw [List.takeWhile_append_of_pos h.digits]
  cases rest with
  | nil => exact List.append_nil _
  | cons c rest =>
    have hc := h.ends c rfl
    rw [List.takeWhile_cons_of_neg (by simp [hc]), List.append_nil]

theorem exists_cons (h : IsNumber digits rest) : ∃ d ds, digits = d :: ds ∧ isSpace d = false ∧
    d ≠ 45 ∧ d ≠ 43 := by
  obtain ⟨d, ds, rfl⟩ := List.exists_cons_of_ne_nil h.ne_nil
  have hd := h.digits d List.mem_cons_self
  simp only [isDecimal, Bool.and_eq_true, decide_eq_true_eq] at hd
  refine ⟨d, ds, rfl, ?_, fun h45 => absurd hd (by rw [h45]; decide),
    fun h43 => absurd hd (by rw [h43]; decide)⟩
  simp only [isSpace, Bool.or_eq_false_iff, Bool.and_eq_false_iff, decide_eq_false_iff_not]
  omega

end IsNumber

theorem dropWhile_spaces {spaces s : Str} {c : Byte} (hspaces : ∀ b ∈ spaces, isSpace b = true)
    (hc : isSpace c = false) : (spaces ++ c :: s).dropWhile isSpace = c :: s := by
  rw [List.dropWhile_append_of_pos hspaces, List.dropWhile_cons_of_neg (by simp [hc])]

theorem scanInt_of_beginsWithInt {s : Str} {n : Int} (h : BeginsWithInt s n) :
    (scanInt s).1 = some (asInt (toLong n)) := by
  cases h with
  | @plain spaces digits rest hspaces hnumber =>
    obtain ⟨d, ds, rfl, hd, hminus, hplus⟩ := hnumber.exists_cons
    have htake := hnumber.takeWhile_eq
    rw [List.cons_append] at htake ⊢
    rw [scanInt, dropWhile_spaces hspaces hd, readSign, if_neg hminus, if_neg hplus]
    simp only [htake, List.cons_ne_nil, if_false, Bool.false_eq_true]
  | @plus spaces digits rest hspaces hnumber =>
    rw [scanInt, dropWhile_spaces hspaces (by decide), readSign, if_neg (by decide), if_pos rfl]
    simp only [hnumber.takeWhile_eq, hnumber.ne_nil, if_false, Bool.false_eq_true]
  | @minus spaces digits rest hspaces hnumber =>
    rw [scanInt, dropWhile_spaces hspaces (by decide), readSign, if_pos rfl]
    simp only [hnumber.takeWhile_eq, hnumber.ne_nil, if_false, if_true]

theorem isNumber_takeWhile {s : Str} (h : s.takeWhile isDecimal ≠ []) :
    IsNumber (s.takeWhile isDecimal) (s.dropWhile isDecimal) := by
  refine ⟨h, fun d hd => List.mem_takeWhile_imp hd, fun c hc => ?_⟩
  have hnot := List.head?_dropWhile_not isDecimal s
  rw [Option.mem_def.mp hc] at hnot
  exact hnot

theorem digits_of_scanInt {s : Str} (h : (scanInt s).1 ≠ none) :
    (readSign (s.dropWhile isSpace)).2.takeWhile isDecimal ≠ [] := by
  intro hnil
  refine h ?_
  rw [scanInt]
  simp only [hnil, if_true]

theorem exists_beginsWithInt {s : Str} (h : (scanInt s).1 ≠ none) : ∃ n, BeginsWithInt s n := by
  have hspaces : ∀ c ∈ s.takeWhile isSpace, isSpace c = true := fun c hc => List.mem_takeWhile_imp hc
  have hdigits {t : Str} (ht : t.takeWhile isDecimal ≠ []) :
      t = t.takeWhile isDecimal ++ t.dropWhile isDecimal := List.takeWhile_append_dropWhile.symm
  have hs : s = s.takeWhile isSpace ++ s.dropWhile isSpace := List.takeWhile_append_dropWhile.symm
  have hne := digits_of_scanInt h
  cases ht : s.dropWhile isSpace with
  | nil =>
    rw [ht] at hne
    exact absurd rfl hne
  | cons c t =>
    rw [ht] at hs hne
    rw [readSign] at hne
    by_cases hminus : c = 45
    · rw [if_pos hminus] at hne
      dsimp only at hne
      rw [hs, hminus, hdigits hne]
      exact ⟨_, .minus hspaces (isNumber_takeWhile hne)⟩
    rw [if_neg hminus] at hne
    by_cases hplus : c = 43
    · rw [if_pos hplus] at hne
      dsimp only at hne
      rw [hs, hplus, hdigits hne]
      exact ⟨_, .plus hspaces (isNumber_takeWhile hne)⟩
    · rw [if_neg hplus] at hne
      dsimp only at hne
      rw [hs, hdigits hne]
      exact ⟨_, .plain hspaces (isNumber_takeWhile hne)⟩

theorem toLong_of_isInt {n : Int} (h : IsInt n) : asInt (toLong n) = n := by
  obtain ⟨hlo, hhi⟩ := h
  have hlong : toLong n = n := by
    rw [toLong]
    omega
  rw [hlong]
  exact asInt_of_bounds hlo hhi

theorem Console.readEntry_number {k : Console}
    (hcmd : k.readLine.1 = ascii "get_book" ∨ k.readLine.1 = ascii "delete_book") :
    k.readEntry.1.cmd = k.readLine.1 ∧ k.readEntry.1.number = (scanInt k.readLine.2.stdin).1 := by
  have hprompts : textPrompts k.readLine.1 = 0 := by
    rcases hcmd with h | h <;> rw [h] <;> decide
  have hasks : asksNumber k.readLine.1 = true := by
    rcases hcmd with h | h <;> rw [h] <;> decide
  simp only [readEntry, hprompts, readLines, hasks, if_true, and_self]

theorem Request.message_begins {r : Request} {host m : Str} (h : r.message host = .ok m) :
    r.firstLine ++ crlf <+: m := by
  obtain ⟨content, body, -, rfl⟩ := message_ok h
  simp only [startLines, List.cons_append, lines, List.flatMap_cons]
  exact List.prefix_append _ _

theorem request_id {p : Parson} {c : Client} {k : Console}
    (hcmd : k.readLine.1 = ascii "get_book" ∨ k.readLine.1 = ascii "delete_book") (u : Int) :
    ∃ r, c.request p (k.readEntry.1.command u) = some r ∧
      AsksFor k.readEntry.1.cmd ((scanInt k.readLine.2.stdin).1.getD u) r := by
  obtain ⟨hentry, hnumber⟩ := Console.readEntry_number hcmd
  rw [← hnumber, hentry]
  rcases hcmd with h | h
  · have hcommand : k.readEntry.1.command u = .getBook (k.readEntry.1.number.getD u) := by
      rw [Entry.command, hentry, h]
      rfl
    rw [hcommand, h]
    refine ⟨_, rfl, rfl, (if_pos rfl).symm, fun _ _ hm => ?_⟩
    rw [if_pos rfl]
    exact Request.message_begins hm
  · have hcommand : k.readEntry.1.command u = .deleteBook (k.readEntry.1.number.getD u) := by
      rw [Entry.command, hentry, h]
      rfl
    rw [hcommand, h]
    refine ⟨_, rfl, rfl, (if_neg (by decide)).symm, fun _ _ hm => ?_⟩
    rw [if_neg (by decide)]
    exact Request.message_begins hm

theorem Entry.command_of_number {e : Entry} {n : Int} (h : e.number = some n) (u v : Int) :
    e.command u = e.command v := by
  rw [Entry.command, Entry.command, h]
  rfl

/-- The book is the one that the user has asked for exactly if the input begins with its number. -/
theorem idFromUser_iff (p : Parson) (c : Client) (k : Console)
    (hcmd : k.readEntry.1.cmd = ascii "get_book" ∨ k.readEntry.1.cmd = ascii "delete_book") :
    IdFromUser p c k ↔ ∃ n, IsInt n ∧ BeginsWithInt k.readLine.2.stdin n := by
  rw [Console.readEntry_cmd] at hcmd
  constructor
  · intro h
    by_contra hnot
    have hnone : ∀ n, IsInt n → ¬ BeginsWithInt k.readLine.2.stdin n :=
      fun n hint hn => hnot ⟨n, hint, hn⟩
    obtain ⟨sent, hsent, -, -, hnothing⟩ := h 0 0 (by decide) (by decide)
    obtain ⟨r, hr, -⟩ := @request_id p c k hcmd 0
    rw [hr, hnothing hnone] at hsent
    cases hsent
  · rintro ⟨n, hint, hn⟩ u v - -
    have hscan := scanInt_of_beginsWithInt hn
    rw [toLong_of_isInt hint] at hscan
    have hnumber := (Console.readEntry_number hcmd).2.trans hscan
    obtain ⟨r, hr, hasks⟩ := @request_id p c k hcmd u
    refine ⟨some r, hr, ?_, ?_, ?_⟩
    · rw [← hr, Entry.command_of_number hnumber v u]
    · intro n' hint' hn'
      have hscan' := scanInt_of_beginsWithInt hn'
      rw [toLong_of_isInt hint'] at hscan'
      rw [hscan', Option.getD_some] at hasks
      exact ⟨r, rfl, hasks⟩
    · exact fun hall => absurd hn (hall n hint)

def deleteConsole (input : Str) : Console := ⟨[], ascii "delete_book\n" ++ input⟩

theorem deleteConsole_cmd :
    (deleteConsole (ascii "7\n")).readEntry.1.cmd = ascii "delete_book" ∧
      (deleteConsole (ascii "seven\n")).readEntry.1.cmd = ascii "delete_book" := by
  decide +kernel

theorem idFromUser_iff_seven :
    (deleteConsole (ascii "7\n")).readEntry.1.cmd = ascii "delete_book" ∧
      (IdFromUser Client.plainParson Client.start (deleteConsole (ascii "7\n")) ↔
        ∃ n, IsInt n ∧ BeginsWithInt (deleteConsole (ascii "7\n")).readLine.2.stdin n) :=
  ⟨deleteConsole_cmd.1,
    idFromUser_iff Client.plainParson Client.start _ (.inr deleteConsole_cmd.1)⟩

/-- Whatever book the variable happens to name is deleted. -/
theorem word_deletes :
    (deleteConsole (ascii "seven\n")).readEntry.1.command 3 = .deleteBook 3 ∧
      (deleteConsole (ascii "seven\n")).readEntry.1.command 4 = .deleteBook 4 ∧
      ¬ IdFromUser Client.plainParson Client.start (deleteConsole (ascii "seven\n")) := by
  have hthree : (deleteConsole (ascii "seven\n")).readEntry.1.command 3 = .deleteBook 3 := by
    decide +kernel
  have hfour : (deleteConsole (ascii "seven\n")).readEntry.1.command 4 = .deleteBook 4 := by
    decide +kernel
  refine ⟨hthree, hfour, fun h => ?_⟩
  obtain ⟨sent, hsent, hsent', -⟩ := h 3 4 (by decide) (by decide)
  rw [hthree] at hsent
  rw [hfour] at hsent'
  have hurl := congrArg (Option.map Request.url) (hsent.trans hsent'.symm)
  have hbook : some (bookPath 3) = some (bookPath 4) := hurl
  exact absurd hbook (by decide)

end PCom.Library
