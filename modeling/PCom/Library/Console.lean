import PCom.Library.Client
import PCom.Library.Receive

/-! What `client.c` reads from the standard input. -/

namespace PCom.Library

open Lib

/-- What the last `fgets` has put into `line_buf`, and what is left to read. -/
structure Console where
  lineBuf : Str
  stdin : Str
  deriving DecidableEq

/-- The next line with its end, or its first `n` bytes. -/
def takeLine : Nat → Str → Str
  | n + 1, c :: s => if c = 10 then [c] else c :: takeLine n s
  | _, _ => []

namespace Console

/-- `fgets(line_buf, LINELEN, stdin)`, which leaves the buffer as it is at the end of the input. -/
def fgets (c : Console) : Console :=
  if c.stdin = [] then c
  else
    let line := takeLine (lineLen - 1) c.stdin
    ⟨line, c.stdin.drop line.length⟩

/-- `snprintf(.., strlen(line_buf), "%s", line_buf)`, which leaves out the last character. -/
def copy (c : Console) : Str := (cstr c.lineBuf).dropLast

def readLine (c : Console) : Str × Console := (c.fgets.copy, c.fgets)

def readLines : Nat → Console → List Str × Console
  | 0, c => ([], c)
  | n + 1, c =>
    let (line, c) := c.readLine
    let (lines, c) := c.readLines n
    (line :: lines, c)

end Console

/-- `scanf("%d", ..)`: the number, if there is one, and what is left. -/
def scanInt (s : Str) : Option Int × Str :=
  let (negative, s) := readSign (s.dropWhile isSpace)
  let digits := s.takeWhile isDecimal
  if digits = [] then (none, s)
  else
    let n : Int := decimalValue digits
    (some (asInt (toLong (if negative then -n else n))), s.dropWhile isDecimal)

/-- As a `char`, the byte 255 is `EOF`. -/
def clearStdin : Str → Str
  | [] => []
  | c :: s => if c = 10 ∨ c = 255 then s else clearStdin s

/-- What a pass of the loop reads: the command, its text fields and its number. -/
structure Entry where
  cmd : Str
  fields : List Str
  number : Option Int
  deriving DecidableEq

def textPrompts (cmd : Str) : Nat :=
  if cmd = ascii "register" ∨ cmd = ascii "login" then 2
  else if cmd = ascii "add_book" then 4
  else 0

def asksNumber (cmd : Str) : Bool :=
  cmd = ascii "get_book" ∨ cmd = ascii "add_book" ∨ cmd = ascii "delete_book"

def Console.readEntry (c : Console) : Entry × Console :=
  let (cmd, c) := c.readLine
  let (fields, c) := c.readLines (textPrompts cmd)
  if asksNumber cmd then
    let (number, s) := scanInt c.stdin
    (⟨cmd, fields, number⟩, { c with stdin := clearStdin s })
  else (⟨cmd, fields, none⟩, c)

def Entry.command (unset : Int) (e : Entry) : Command :=
  let field (i : Nat) : Str := e.fields.getD i []
  if e.cmd = ascii "register" then .register (field 0) (field 1)
  else if e.cmd = ascii "login" then .login (field 0) (field 1)
  else if e.cmd = ascii "enter_library" then .enterLibrary
  else if e.cmd = ascii "get_books" then .getBooks
  else if e.cmd = ascii "get_book" then .getBook (e.number.getD unset)
  else if e.cmd = ascii "add_book" then .addBook (field 0) (field 1) (field 2) (field 3) e.number
  else if e.cmd = ascii "delete_book" then .deleteBook (e.number.getD unset)
  else if e.cmd = ascii "logout" then .logout
  else if e.cmd = ascii "exit" then .exit
  else .unrecognized

@[simp] theorem Console.readEntry_cmd (c : Console) : c.readEntry.1.cmd = c.readLine.1 := by
  rw [readEntry]
  dsimp only
  split <;> rfl

theorem ite_ne {β : Type} {c : Prop} [Decidable c] {a b x : β} (ha : a ≠ x) (hb : b ≠ x) :
    (if c then a else b) ≠ x := by
  by_cases hc : c
  · rwa [if_pos hc]
  · rwa [if_neg hc]

theorem command_eq_exit {unset : Int} {e : Entry} :
    e.command unset = .exit ↔ e.cmd = ascii "exit" := by
  constructor
  · intro h
    by_contra hne
    refine absurd h ?_
    simp only [Entry.command, hne, if_false]
    repeat refine ite_ne nofun ?_
    exact nofun
  · intro h
    rw [Entry.command, h]
    rfl

theorem Client.keep_running {p : Parson} {c c' : Client} {response : Str} {command : Command}
    (h : c.keep p response command = .ok c') : c'.running = c.running := by
  cases command with
  | login username password =>
    obtain ⟨cookie, -, h⟩ := bind_ok h
    cases cookie <;> cases h <;> rfl
  | enterLibrary =>
    obtain ⟨token, -, h⟩ := bind_ok h
    cases token <;> cases h <;> rfl
  | _ =>
    cases h
    rfl

theorem Client.turn_running {p : Parson} {host response : Str} {c c' : Client} {unset : Int}
    {e : Entry} (h : c.turn p host (e.command unset) response = .ok c') :
    c'.running = true ↔ c.running = true ∧ e.cmd ≠ ascii "exit" := by
  rw [Ne, ← @command_eq_exit unset e]
  rw [Client.turn] at h
  split at h
  next hrequest =>
    cases h
    rw [idle]
    split
    next hexit => simp [hexit]
    next hexit => simp [hexit]
  next r hrequest =>
    have hexit : e.command unset ≠ .exit := by
      intro hexit
      rw [hexit] at hrequest
      cases hrequest
    obtain ⟨-, -, h⟩ := bind_ok h
    rw [Client.keep_running (answered_ok h).2]
    simp [hexit]

end PCom.Library
