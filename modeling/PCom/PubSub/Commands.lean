import PCom.Lib.Pieces
import PCom.Lib.Runs
import PCom.Lib.Text
import PCom.PubSub.Protocol

/-! The commands that a subscriber reads from the standard input. -/

namespace PCom.PubSub

open Lib

def isSpace (b : Byte) : Bool := b.toNat = 32 || (9 ≤ b.toNat && b.toNat ≤ 13)

/-! ## The branch for STDIN -/

/-- What was read and not used yet, what each further `read` returns, and whether the input is
closed behind that.  A stream that has failed has nothing left, so this says all about it. -/
structure Stdin where
  buffer : Str
  reads : List Str
  closed : Bool

/-- How a pass can stop inside: a word that does not fit into `buffer` is written behind it, or
there is nothing to read now and the input is open. -/
inductive Halt
  | overflow | waits

namespace Stdin

/-- The characters up to the first one without `p`, which has to be there, or the end. -/
def span (p : Byte → Bool) (s : Stdin) : Except Halt (Str × Stdin) :=
  let (taken, buffer, reads) := spanPieces p s.buffer s.reads
  if buffer = [] ∧ s.closed = false then .error .waits else .ok (taken, ⟨buffer, reads, s.closed⟩)

def readWord (s : Stdin) : Except Halt (Str × Stdin) := do
  let (_, s) ← s.span isSpace
  s.span fun c => !isSpace c

/-- `std::cin >> sf`, which leaves the variable as it is at the end of the input. -/
def readChar (unset : Byte) (s : Stdin) : Except Halt (Byte × Stdin) := do
  let (_, s) ← s.span isSpace
  match s.buffer with
  | [] => return (unset, s)
  | sf :: buffer => return (sf, { s with buffer := buffer })

/-- As a `char`, the byte 255 is `EOF`. -/
def endsClear (ch : Byte) : Bool := ch = 10 || ch = 255

def clearStdin (s : Stdin) : Except Halt Stdin := do
  let (_, s) ← s.span fun ch => !endsClear ch
  return { s with buffer := s.buffer.tail }

/-- One pass: the new `exit_status`, what `sub_unsub` sends, and what is left of the input. -/
def command (unset : Byte) (s : Stdin) : Except Halt (Bool × List (List Byte) × Stdin) := do
  let (buffer, s) ← s.readWord
  if packetLen ≤ buffer.length then .error .overflow
  else if (ascii "exit").isPrefixOf buffer then return (true, [], s)
  else if (ascii "subscribe").isPrefixOf buffer ∨ (ascii "unsubscribe").isPrefixOf buffer then
    let (topic, s) ← s.readWord
    if 50 < topic.length then return (false, [], ← s.clearStdin)
    else if (ascii "un").isPrefixOf buffer then
      let s ← s.clearStdin
      return (false, [subsRequest unsubMsg topic false], s)
    else
      let (sf, s) ← s.readChar unset
      let s ← s.clearStdin
      if sf ≠ 48 ∧ sf ≠ 49 then return (false, [], s)
      else return (false, [subsRequest subMsg topic (decide (sf ≠ 48))], s)
  else return (false, [], ← s.clearStdin)

/-- `select` returns the descriptor when a `read` on it would return, whatever was read before. -/
def ready (s : Stdin) : Bool := !s.reads.isEmpty || s.closed

def commands (unset : Byte) : Nat → Stdin → Except Halt (Bool × List (List Byte) × Stdin)
  | 0, s => .ok (false, [], s)
  | n + 1, s =>
    if s.ready then do
      let (exit, sent, s) ← s.command unset
      if exit then return (exit, sent, s)
      let (exit, more, s) ← commands unset n s
      return (exit, sent ++ more, s)
    else .error .waits

end Stdin

def readWord (stdin : Str) : Str × Str :=
  let stdin := stdin.dropWhile isSpace
  (stdin.takeWhile fun c => !isSpace c, stdin.dropWhile fun c => !isSpace c)

def readChar (unset : Byte) (stdin : Str) : Byte × Str :=
  match stdin.dropWhile isSpace with
  | [] => (unset, [])
  | sf :: stdin => (sf, stdin)

def clearStdin : Str → Str
  | [] => []
  | ch :: stdin => if ch = 10 ∨ ch = 255 then stdin else clearStdin stdin

/-- A pass that waits for nothing, which `Stdin.command` refines. -/
def command (unset : Byte) (stdin : Str) : Option (Bool × List (List Byte) × Str) :=
  let (buffer, stdin) := readWord stdin
  if packetLen ≤ buffer.length then none
  else if (ascii "exit").isPrefixOf buffer then some (true, [], stdin)
  else if (ascii "subscribe").isPrefixOf buffer ∨ (ascii "unsubscribe").isPrefixOf buffer then
    let (topic, stdin) := readWord stdin
    if 50 < topic.length then some (false, [], clearStdin stdin)
    else if (ascii "un").isPrefixOf buffer then
      some (false, [subsRequest unsubMsg topic false], clearStdin stdin)
    else
      let (sf, stdin) := readChar unset stdin
      if sf ≠ 48 ∧ sf ≠ 49 then some (false, [], clearStdin stdin)
      else some (false, [subsRequest subMsg topic (decide (sf ≠ 48))], clearStdin stdin)
  else some (false, [], clearStdin stdin)

def commands (unset : Byte) : Nat → Str → Option (Bool × List (List Byte) × Str)
  | 0, stdin => some (false, [], stdin)
  | n + 1, stdin => do
    let (exit, sent, stdin) ← command unset stdin
    if exit then return (exit, sent, stdin)
    let (exit, more, stdin) ← commands unset n stdin
    return (exit, sent ++ more, stdin)

def words (line : Str) : List Str := (line.splitOnP isSpace).filter (· ≠ [])

/-- What a line asks for on its own. -/
def requestsOf (line : Str) : List (List Byte) :=
  match words line with
  | cmd :: topic :: values =>
    if topicLen < topic.length then []
    else if cmd = ascii "unsubscribe" then [subsRequest unsubMsg topic false]
    else if cmd = ascii "subscribe" then
      if values.head? = some (ascii "0") then [subsRequest subMsg topic false]
      else if values.head? = some (ascii "1") then [subsRequest subMsg topic true]
      else []
    else []
  | _ => []

structure CommandLine where
  text : Str
  no_newline : (10 : Byte) ∉ text
  not_exit : (words text).head? ≠ some (ascii "exit")

def input (ls : List CommandLine) : Str :=
  (ls.flatMap fun l => l.text ++ [10]) ++ ascii "exit\n"

/-- A closed input makes the subscriber stop with these requests sent and this text left. -/
def Ends (unset : Byte) (stdin : Str) (sent : List (List Byte)) (left : Str) : Prop :=
  ∃ n, commands unset n stdin = some (true, sent, left)

/-- A closed input is read to the `exit`, and what is sent is what each line asks for. -/
def EndsLineByLine (unset : Byte) (ls : List CommandLine) : Prop :=
  Ends unset (input ls) (ls.flatMap fun l => requestsOf l.text) [10]

inductive Reads : Str → Str → Str → Prop
  | mk {spaces word rest : Str} : (∀ c ∈ spaces, isSpace c = true) → word ≠ [] →
      (∀ c ∈ word, isSpace c = false) → (∀ c ∈ rest.head?, isSpace c = true) →
      Reads (spaces ++ (word ++ rest)) word rest

def Blank (line : Str) : Prop := ∀ c ∈ line, isSpace c = true

def TakesTopic (cmd : Str) : Prop := ascii "subscribe" <+: cmd ∨ ascii "unsubscribe" <+: cmd

/-- A line that the subscriber reads to its end and no further, and that sends what it asks for. -/
inductive Orderly : Str → Prop
  | blank {line : Str} : Blank line → Orderly line
  | other {line cmd rest : Str} : Reads line cmd rest → cmd.length < packetLen →
      ¬ ascii "exit" <+: cmd → ¬ TakesTopic cmd → (255 : Byte) ∉ rest → Orderly line
  | longTopic {line cmd rest topic rest' : Str} : Reads line cmd rest → cmd.length < packetLen →
      TakesTopic cmd → Reads rest topic rest' → topicLen < topic.length → (255 : Byte) ∉ rest' →
      Orderly line
  | unsubscribe {line rest topic rest' : Str} : Reads line (ascii "unsubscribe") rest →
      Reads rest topic rest' → topic.length ≤ topicLen → (255 : Byte) ∉ rest' → Orderly line
  | subscribe {line rest topic rest' rest'' : Str} {sf : Byte} :
      Reads line (ascii "subscribe") rest → Reads rest topic rest' → topic.length ≤ topicLen →
      Reads rest' [sf] rest'' → sf = 48 ∨ sf = 49 → (255 : Byte) ∉ rest'' → Orderly line
  | invalidSf {line cmd rest topic rest' value rest'' : Str} {sf : Byte} : Reads line cmd rest →
      cmd.length < packetLen → ascii "subscribe" <+: cmd → Reads rest topic rest' →
      topic.length ≤ topicLen → Reads rest' (sf :: value) rest'' → sf ≠ 48 → sf ≠ 49 →
      (255 : Byte) ∉ value ++ rest'' → Orderly line

/-! ## Words -/

section Words

variable {line word rest : Str}

theorem words_append_spaces {spaces : Str} (h : Blank spaces) (line : Str) :
    words (spaces ++ line) = words line := by
  induction spaces with
  | nil => rfl
  | cons c spaces ih =>
    obtain ⟨hc, h⟩ := List.forall_mem_cons.mp h
    have hsplit := List.splitOnP_append_cons ([] : Str) (spaces ++ line) hc
    rw [words, List.cons_append, ← List.nil_append (c :: (spaces ++ line)), hsplit,
      List.splitOnP_nil, List.singleton_append, List.filter_cons_of_neg (by simp)]
    exact ih h

theorem Blank.words_eq (h : Blank line) : words line = [] := by
  rw [← List.append_nil line, words_append_spaces h]
  rfl

theorem words_append {word : Str} (hne : word ≠ []) (hword : ∀ c ∈ word, isSpace c = false)
    (hrest : ∀ c ∈ rest.head?, isSpace c = true) : words (word ++ rest) = word :: words rest := by
  cases rest with
  | nil =>
    rw [List.append_nil, words, List.splitOnP_eq_singleton hword,
      List.filter_cons_of_pos (by simpa using hne)]
    rfl
  | cons c rest =>
    have hc : isSpace c = true := hrest c rfl
    rw [words, List.splitOnP_append_cons_of_forall_mem hword c hc,
      List.filter_cons_of_pos (by simpa using hne)]
    congr 1
    exact (words_append_spaces (List.forall_mem_singleton.mpr hc) rest).symm

namespace Reads

theorem words_eq (h : Reads line word rest) : words line = word :: words rest := by
  cases h with
  | mk hspaces hne hword hrest => rw [words_append_spaces hspaces, words_append hne hword hrest]

theorem ne_nil (h : Reads line word rest) : word ≠ [] := by
  cases h with
  | mk hspaces hne hword hrest => exact hne

theorem not_mem {b : Byte} (h : Reads line word rest) (hb : b ∉ line) : b ∉ word ∧ b ∉ rest := by
  cases h with
  | mk hspaces hne hword hrest =>
    rw [List.mem_append, List.mem_append, not_or, not_or] at hb
    exact hb.2

end Reads

theorem head?_dropWhile {p : Byte → Bool} (line : Str) :
    ∀ c ∈ (line.dropWhile p).head?, p c = false := by
  intro c hc
  have hnot := List.head?_dropWhile_not p line
  rwa [Option.mem_def.mp hc] at hnot

theorem reads_of_readWord (h : readWord line = (word, rest)) (hne : word ≠ []) :
    Reads line word rest := by
  obtain ⟨rfl, rfl⟩ := Prod.mk.inj h
  have hspaces : ∀ c ∈ line.takeWhile isSpace, isSpace c = true :=
    fun c hc => List.mem_takeWhile_imp hc
  have hword : ∀ c ∈ (line.dropWhile isSpace).takeWhile fun c => !isSpace c, isSpace c = false := by
    intro c hc
    simpa using List.mem_takeWhile_imp hc
  have hrest : ∀ c ∈ ((line.dropWhile isSpace).dropWhile fun c => !isSpace c).head?,
      isSpace c = true := by
    intro c hc
    simpa using head?_dropWhile (line.dropWhile isSpace) c hc
  have hreads := Reads.mk hspaces hne hword hrest
  rwa [List.takeWhile_append_dropWhile, List.takeWhile_append_dropWhile] at hreads

theorem blank_or_reads (line : Str) : Blank line ∨ ∃ word rest, Reads line word rest := by
  by_cases hne : (readWord line).1 = []
  · refine .inl fun c hc => ?_
    have hnil : line.dropWhile isSpace = [] := by
      cases ht : line.dropWhile isSpace with
      | nil => rfl
      | cons d t =>
        have hd : isSpace d = false := head?_dropWhile line d (by rw [ht]; rfl)
        rw [readWord, ht, List.takeWhile_cons_of_pos (by simp [hd])] at hne
        exact absurd hne (List.cons_ne_nil _ _)
    exact List.dropWhile_eq_nil_iff.mp hnil c hc
  · exact .inr ⟨_, _, reads_of_readWord rfl hne⟩

end Words

section Reading

variable {line word rest : Str}

@[simp] theorem isSpace_newline : isSpace 10 = true := by decide

theorem readWord_blank (h : Blank line) (stdin : Str) :
    readWord (line ++ 10 :: stdin) = readWord stdin := by
  rw [readWord, readWord, List.dropWhile_append_of_pos h,
    List.dropWhile_cons_of_pos isSpace_newline]

theorem readChar_blank (h : Blank line) (unset : Byte) (stdin : Str) :
    readChar unset (line ++ 10 :: stdin) = readChar unset stdin := by
  rw [readChar, readChar, List.dropWhile_append_of_pos h,
    List.dropWhile_cons_of_pos isSpace_newline]

theorem dropWhile_isSpace {spaces : Str} {c : Byte} (hspaces : Blank spaces)
    (hc : isSpace c = false) (stdin : Str) :
    (spaces ++ c :: stdin).dropWhile isSpace = c :: stdin := by
  rw [List.dropWhile_append_of_pos hspaces, List.dropWhile_cons_of_neg (by simp [hc])]

theorem head?_append_newline (h : ∀ c ∈ rest.head?, isSpace c = true) (stdin : Str) :
    ∃ c t, rest ++ 10 :: stdin = c :: t ∧ isSpace c = true := by
  cases rest with
  | nil => exact ⟨10, stdin, rfl, isSpace_newline⟩
  | cons c rest => exact ⟨c, rest ++ 10 :: stdin, rfl, h c rfl⟩

namespace Reads

theorem readWord_eq (h : Reads line word rest) (stdin : Str) :
    readWord (line ++ 10 :: stdin) = (word, rest ++ 10 :: stdin) := by
  cases h with
  | mk hspaces hne hword hrest =>
    obtain ⟨c, t, hrest, hc⟩ := head?_append_newline hrest stdin
    obtain ⟨w, ws, rfl⟩ := List.exists_cons_of_ne_nil hne
    have hnot : ∀ b ∈ w :: ws, (!isSpace b) = true := fun b hb => by simp [hword b hb]
    rw [readWord, List.append_assoc, List.append_assoc, List.cons_append,
      dropWhile_isSpace hspaces (hword w List.mem_cons_self), ← List.cons_append, hrest,
      List.takeWhile_append_of_pos hnot, List.dropWhile_append_of_pos hnot,
      List.takeWhile_cons_of_neg (by simp [hc]), List.dropWhile_cons_of_neg (by simp [hc]),
      List.append_nil]

theorem readChar_eq {c : Byte} {ws : Str} (h : Reads line (c :: ws) rest) (unset : Byte)
    (stdin : Str) : readChar unset (line ++ 10 :: stdin) = (c, ws ++ rest ++ 10 :: stdin) := by
  cases h with
  | mk hspaces hne hword hrest =>
    rw [readChar, List.append_assoc, List.cons_append, List.cons_append,
      dropWhile_isSpace hspaces (hword c List.mem_cons_self), List.append_assoc]

end Reads

theorem clearStdin_append {text : Str} (hnewline : (10 : Byte) ∉ text) (heof : (255 : Byte) ∉ text)
    (stdin : Str) : clearStdin (text ++ 10 :: stdin) = stdin := by
  induction text with
  | nil => rfl
  | cons c text ih =>
    rw [List.mem_cons, not_or] at hnewline heof
    rw [List.cons_append, clearStdin, if_neg (not_or.mpr ⟨Ne.symm hnewline.1, Ne.symm heof.1⟩),
      ih hnewline.2 heof.2]

end Reading

/-! ## The branches of a pass -/

section Branches

variable {unset : Byte} {cmd stdin s topic s' s'' : Str} {sf : Byte}

theorem TakesTopic.not_exit (h : TakesTopic cmd) : (ascii "exit").isPrefixOf cmd = false := by
  rcases h with ⟨rest, rfl⟩ | ⟨rest, rfl⟩ <;> rfl

theorem un_of_unsubscribe (h : ascii "unsubscribe" <+: cmd) :
    (ascii "un").isPrefixOf cmd = true := by
  obtain ⟨rest, rfl⟩ := h
  rfl

theorem un_of_subscribe (h : ascii "subscribe" <+: cmd) : (ascii "un").isPrefixOf cmd = false := by
  obtain ⟨rest, rfl⟩ := h
  rfl

theorem command_overflow (h : readWord stdin = (cmd, s)) (hlen : packetLen ≤ cmd.length) :
    command unset stdin = none := by
  simp only [command, h, if_pos hlen]

theorem command_exit (h : readWord stdin = (cmd, s)) (hlen : cmd.length < packetLen)
    (hexit : ascii "exit" <+: cmd) : command unset stdin = some (true, [], s) := by
  simp only [command, h, if_neg (Nat.not_le.mpr hlen), List.isPrefixOf_iff_prefix.mpr hexit,
    if_true]

theorem command_other (h : readWord stdin = (cmd, s)) (hlen : cmd.length < packetLen)
    (hexit : ¬ ascii "exit" <+: cmd) (htakes : ¬ TakesTopic cmd) :
    command unset stdin = some (false, [], clearStdin s) := by
  rw [TakesTopic, ← List.isPrefixOf_iff_prefix, ← List.isPrefixOf_iff_prefix] at htakes
  rw [← List.isPrefixOf_iff_prefix] at hexit
  simp only [command, h, if_neg (Nat.not_le.mpr hlen), if_neg hexit, if_neg htakes]

theorem command_topic (h : readWord stdin = (cmd, s)) (hlen : cmd.length < packetLen)
    (htakes : TakesTopic cmd) (htopic : readWord s = (topic, s')) : command unset stdin =
      if topicLen < topic.length then some (false, [], clearStdin s')
      else if (ascii "un").isPrefixOf cmd then
        some (false, [subsRequest unsubMsg topic false], clearStdin s')
      else
        let (sf, s') := readChar unset s'
        if sf ≠ 48 ∧ sf ≠ 49 then some (false, [], clearStdin s')
        else some (false, [subsRequest subMsg topic (decide (sf ≠ 48))], clearStdin s') := by
  have hexit := htakes.not_exit
  rw [TakesTopic, ← List.isPrefixOf_iff_prefix, ← List.isPrefixOf_iff_prefix] at htakes
  simp only [command, h, if_neg (Nat.not_le.mpr hlen), hexit, Bool.false_eq_true, if_false,
    if_pos htakes, htopic]
  rfl

theorem command_longTopic (h : readWord stdin = (cmd, s)) (hlen : cmd.length < packetLen)
    (htakes : TakesTopic cmd) (htopic : readWord s = (topic, s'))
    (hlong : topicLen < topic.length) : command unset stdin = some (false, [], clearStdin s') := by
  rw [command_topic h hlen htakes htopic, if_pos hlong]

theorem command_unsubscribe (h : readWord stdin = (cmd, s)) (hlen : cmd.length < packetLen)
    (hcmd : ascii "unsubscribe" <+: cmd) (htopic : readWord s = (topic, s'))
    (hshort : topic.length ≤ topicLen) :
    command unset stdin = some (false, [subsRequest unsubMsg topic false], clearStdin s') := by
  rw [command_topic h hlen (.inr hcmd) htopic, if_neg (Nat.not_lt.mpr hshort),
    if_pos (un_of_unsubscribe hcmd)]

theorem command_invalidSf (h : readWord stdin = (cmd, s)) (hlen : cmd.length < packetLen)
    (hcmd : ascii "subscribe" <+: cmd) (htopic : readWord s = (topic, s'))
    (hshort : topic.length ≤ topicLen) (hread : readChar unset s' = (sf, s'')) (h0 : sf ≠ 48)
    (h1 : sf ≠ 49) : command unset stdin = some (false, [], clearStdin s'') := by
  rw [command_topic h hlen (.inl hcmd) htopic, if_neg (Nat.not_lt.mpr hshort),
    if_neg (by simp [un_of_subscribe hcmd]), hread]
  exact if_pos ⟨h0, h1⟩

theorem command_subscribe (h : readWord stdin = (cmd, s)) (hlen : cmd.length < packetLen)
    (hcmd : ascii "subscribe" <+: cmd) (htopic : readWord s = (topic, s'))
    (hshort : topic.length ≤ topicLen) (hread : readChar unset s' = (sf, s''))
    (hsf : sf = 48 ∨ sf = 49) : command unset stdin =
      some (false, [subsRequest subMsg topic (decide (sf ≠ 48))], clearStdin s'') := by
  rw [command_topic h hlen (.inl hcmd) htopic, if_neg (Nat.not_lt.mpr hshort),
    if_neg (by simp [un_of_subscribe hcmd]), hread]
  exact if_neg fun hnot => hsf.elim hnot.1 hnot.2

end Branches

section Requests

variable {line cmd rest topic rest' : Str}

theorem requestsOf_of_ne (h : Reads line cmd rest) (hunsub : cmd ≠ ascii "unsubscribe")
    (hsub : cmd ≠ ascii "subscribe") : requestsOf line = [] := by
  rw [requestsOf, h.words_eq]
  split
  next heq =>
    rw [← (List.cons.inj heq).1, if_neg hunsub, if_neg hsub, ite_self]
  next => rfl

theorem requestsOf_of_blank (h : Reads line cmd rest) (hblank : Blank rest) :
    requestsOf line = [] := by
  rw [requestsOf, h.words_eq, hblank.words_eq]

theorem requestsOf_topic (h : Reads line cmd rest) (htopic : Reads rest topic rest') :
    requestsOf line = if topicLen < topic.length then []
      else if cmd = ascii "unsubscribe" then [subsRequest unsubMsg topic false]
      else if cmd = ascii "subscribe" then
        if (words rest').head? = some (ascii "0") then [subsRequest subMsg topic false]
        else if (words rest').head? = some (ascii "1") then [subsRequest subMsg topic true]
        else []
      else [] := by
  rw [requestsOf, h.words_eq, htopic.words_eq]

end Requests

/-! ## Whole inputs -/

section Inputs

variable {unset : Byte} {line stdin left : Str} {out sent : List (List Byte)}

theorem not_ends_of_none (h : command unset stdin = none) : ¬ Ends unset stdin out left := by
  rintro ⟨n, hn⟩
  cases n with
  | zero => cases hn
  | succ n =>
    rw [commands, h] at hn
    cases hn

theorem ends_iff_of_exit {s : Str} (h : command unset stdin = some (true, sent, s)) :
    Ends unset stdin out left ↔ out = sent ∧ left = s := by
  constructor
  · rintro ⟨n, hn⟩
    cases n with
    | zero => cases hn
    | succ n =>
      rw [commands, h] at hn
      cases hn
      exact ⟨rfl, rfl⟩
  · rintro ⟨rfl, rfl⟩
    refine ⟨1, ?_⟩
    rw [commands, h]
    rfl

theorem ends_iff_of_command {s : Str} (h : command unset stdin = some (false, sent, s)) :
    Ends unset stdin out left ↔ ∃ more, out = sent ++ more ∧ Ends unset s more left := by
  constructor
  · rintro ⟨n, hn⟩
    cases n with
    | zero => cases hn
    | succ n =>
      rw [commands, h] at hn
      cases hrest : commands unset n s with
      | none =>
        simp [hrest] at hn
      | some r =>
        obtain ⟨exit, more, s'⟩ := r
        simp only [Option.bind_eq_bind, Option.bind_some, hrest, Bool.false_eq_true, if_false] at hn
        cases hn
        exact ⟨more, rfl, n, hrest⟩
  · rintro ⟨more, rfl, n, hn⟩
    refine ⟨n + 1, ?_⟩
    rw [commands, h]
    simp [hn]

theorem Orderly.command_eq (h : Orderly line) (hnewline : (10 : Byte) ∉ line) (unset : Byte)
    (stdin : Str) : Blank line ∨
      command unset (line ++ 10 :: stdin) = some (false, requestsOf line, stdin) := by
  cases h with
  | blank hblank => exact .inl hblank
  | @other cmd rest hcmd hlen hexit htakes heof =>
    have hrest := (hcmd.not_mem hnewline).2
    have hnone : requestsOf line = [] :=
      requestsOf_of_ne hcmd (fun h => htakes (.inr (h ▸ List.prefix_rfl)))
        (fun h => htakes (.inl (h ▸ List.prefix_rfl)))
    rw [command_other (hcmd.readWord_eq stdin) hlen hexit htakes, hnone,
      clearStdin_append hrest heof]
    exact .inr rfl
  | @longTopic cmd rest topic rest' hcmd hlen htakes htopic hlong heof =>
    have hrest := (htopic.not_mem (hcmd.not_mem hnewline).2).2
    rw [command_longTopic (hcmd.readWord_eq stdin) hlen htakes (htopic.readWord_eq stdin) hlong,
      requestsOf_topic hcmd htopic, if_pos hlong, clearStdin_append hrest heof]
    exact .inr rfl
  | @unsubscribe rest topic rest' hcmd htopic hshort heof =>
    have hrest := (htopic.not_mem (hcmd.not_mem hnewline).2).2
    rw [command_unsubscribe (hcmd.readWord_eq stdin) (by decide) List.prefix_rfl
        (htopic.readWord_eq stdin) hshort, requestsOf_topic hcmd htopic,
      if_neg (Nat.not_lt.mpr hshort), if_pos rfl, clearStdin_append hrest heof]
    exact .inr rfl
  | @subscribe rest topic rest' rest'' sf hcmd htopic hshort hvalue hsf heof =>
    have hrest := (hvalue.not_mem (htopic.not_mem (hcmd.not_mem hnewline).2).2).2
    rw [command_subscribe (hcmd.readWord_eq stdin) (by decide) List.prefix_rfl
        (htopic.readWord_eq stdin) hshort (hvalue.readChar_eq unset stdin) hsf,
      requestsOf_topic hcmd htopic, if_neg (Nat.not_lt.mpr hshort), if_neg (by decide), if_pos rfl,
      hvalue.words_eq, List.nil_append, clearStdin_append hrest heof]
    rcases hsf with rfl | rfl <;> exact .inr rfl
  | @invalidSf cmd rest topic rest' value rest'' sf hcmd hlen hsub htopic hshort hvalue h0 h1 heof
    =>
    have hlast := hvalue.not_mem (htopic.not_mem (hcmd.not_mem hnewline).2).2
    have hrest : (10 : Byte) ∉ value ++ rest'' := by
      rw [List.mem_append, not_or]
      exact ⟨fun h => hlast.1 (List.mem_cons_of_mem _ h), hlast.2⟩
    have hunsub : cmd ≠ ascii "unsubscribe" := by
      rintro rfl
      exact absurd hsub (by decide)
    have hne (c : Byte) (hc : sf ≠ c) : ¬ (words rest').head? = some [c] := by
      rw [hvalue.words_eq]
      intro h
      exact hc (List.cons.inj (Option.some.inj h)).1
    have hne0 : ¬ (words rest').head? = some (ascii "0") := hne 48 h0
    have hne1 : ¬ (words rest').head? = some (ascii "1") := hne 49 h1
    rw [command_invalidSf (hcmd.readWord_eq stdin) hlen hsub (htopic.readWord_eq stdin) hshort
        (hvalue.readChar_eq unset stdin) h0 h1, requestsOf_topic hcmd htopic,
      if_neg (Nat.not_lt.mpr hshort), if_neg hunsub, if_neg hne0,
      if_neg hne1, ite_self, clearStdin_append hrest heof]
    exact .inr rfl

@[simp] theorem input_cons (l : CommandLine) (ls : List CommandLine) :
    input (l :: ls) = l.text ++ 10 :: input ls := by
  simp [input]

theorem ends_exit (unset : Byte) : Ends unset (input []) out left ↔ out = [] ∧ left = [10] :=
  ends_iff_of_exit (by rfl)

/-- A line that shows whether the one before it has been read to its end and no further. -/
def probe : CommandLine where
  text := ascii "unsubscribe news"
  no_newline := by decide
  not_exit := by decide

def probed : List (List Byte) := [subsRequest unsubMsg (ascii "news") false]

theorem requestsOf_probe : requestsOf probe.text = probed := by decide

theorem ends_probe (unset : Byte) :
    Ends unset (input [probe]) out left ↔ out = probed ∧ left = [10] := by
  have hcommand : command unset (input [probe]) = some (false, probed, input []) := by rfl
  rw [ends_iff_of_command hcommand]
  simp [ends_exit]

theorem endsLineByLine_probe {l : CommandLine} (hnone : requestsOf l.text = [])
    (hcommand : command unset (l.text ++ 10 :: input [probe]) = some (false, sent, stdin)) :
    EndsLineByLine unset [l, probe] ↔ ∃ more, probed = sent ++ more ∧ Ends unset stdin more [10] := by
  rw [EndsLineByLine, input_cons, ends_iff_of_command hcommand, List.flatMap_cons,
    List.flatMap_singleton, requestsOf_probe, hnone, List.nil_append]

theorem not_endsLineByLine_of_swallowed {l : CommandLine} (hnone : requestsOf l.text = [])
    (hcommand : command unset (l.text ++ 10 :: input [probe]) = some (false, sent, input []))
    (hsent : sent ≠ probed) : ¬ EndsLineByLine unset [l, probe] := by
  rw [endsLineByLine_probe hnone hcommand]
  rintro ⟨more, hprobed, hmore⟩
  rw [((ends_exit unset).mp hmore).1, List.append_nil] at hprobed
  exact hsent hprobed.symm

theorem not_endsLineByLine_of_sent {l : CommandLine} {request : List Byte}
    (hnone : requestsOf l.text = [])
    (hcommand : command unset (l.text ++ 10 :: input [probe])
      = some (false, [request], input [probe])) : ¬ EndsLineByLine unset [l, probe] := by
  rw [endsLineByLine_probe hnone hcommand]
  rintro ⟨more, hprobed, hmore⟩
  rw [((ends_probe unset).mp hmore).1] at hprobed
  cases congrArg List.length hprobed

section Probe

variable {l : CommandLine} {cmd rest topic rest' : Str}

theorem orderly_of_unsubscribe (h : EndsLineByLine unset [l, probe]) (heof : (255 : Byte) ∉ rest')
    (hnewline : (10 : Byte) ∉ rest') (hcmd : Reads l.text cmd rest) (hlen : cmd.length < packetLen)
    (hunsub : ascii "unsubscribe" <+: cmd) (htopic : Reads rest topic rest')
    (hshort : topic.length ≤ topicLen) : Orderly l.text := by
  by_cases heq : cmd = ascii "unsubscribe"
  · exact .unsubscribe (heq ▸ hcmd) htopic hshort heof
  have hnone : requestsOf l.text = [] := by
    refine requestsOf_of_ne hcmd heq ?_
    rintro rfl
    exact absurd hunsub (by decide)
  have hcommand := @command_unsubscribe unset _ _ _ _ _ (hcmd.readWord_eq (input [probe])) hlen
    hunsub (htopic.readWord_eq (input [probe])) hshort
  rw [clearStdin_append hnewline heof] at hcommand
  exact absurd h (not_endsLineByLine_of_sent hnone hcommand)

theorem orderly_of_subscribe (h : EndsLineByLine unset [l, probe]) (heof : (255 : Byte) ∉ rest')
    (hnewline : (10 : Byte) ∉ rest') (hcmd : Reads l.text cmd rest) (hlen : cmd.length < packetLen)
    (hsub : ascii "subscribe" <+: cmd) (htopic : Reads rest topic rest')
    (hshort : topic.length ≤ topicLen) : Orderly l.text := by
  have hread := hcmd.readWord_eq (input [probe])
  have htopicRead := htopic.readWord_eq (input [probe])
  have hne : cmd ≠ ascii "unsubscribe" := by
    rintro rfl
    exact absurd hsub (by decide)
  rcases blank_or_reads rest' with hblank | ⟨value, rest'', hvalue⟩
  · -- The first character of the probe becomes the SF value.
    have hnone : requestsOf l.text = [] := by
      rw [requestsOf_topic hcmd htopic, hblank.words_eq, if_neg hne]
      simp
    exact absurd h (not_endsLineByLine_of_swallowed hnone (command_invalidSf hread hlen hsub htopicRead
      hshort (readChar_blank hblank unset (input [probe])) (by decide) (by decide)) (by decide))
  obtain ⟨sf, ws, rfl⟩ := List.exists_cons_of_ne_nil hvalue.ne_nil
  have hrest := hvalue.not_mem heof
  have hrest' := hvalue.not_mem hnewline
  rw [List.mem_cons, not_or] at hrest hrest'
  have htail : (255 : Byte) ∉ ws ++ rest'' := by
    rw [List.mem_append, not_or]
    exact ⟨hrest.1.2, hrest.2⟩
  have htail' : (10 : Byte) ∉ ws ++ rest'' := by
    rw [List.mem_append, not_or]
    exact ⟨hrest'.1.2, hrest'.2⟩
  by_cases hsf : sf = 48 ∨ sf = 49
  swap
  · rw [not_or] at hsf
    exact .invalidSf hcmd hlen hsub htopic hshort hvalue hsf.1 hsf.2 htail
  by_cases heq : cmd = ascii "subscribe" ∧ ws = []
  · obtain ⟨rfl, rfl⟩ := heq
    exact .subscribe hcmd htopic hshort hvalue hsf hrest.2
  have hnone : requestsOf l.text = [] := by
    rw [requestsOf_topic hcmd htopic, if_neg (Nat.not_lt.mpr hshort), if_neg hne, hvalue.words_eq]
    split
    next hcmd =>
      have hvalue (b : Byte) : ¬ ((sf :: ws) :: words rest'').head? = some [b] :=
        fun h => heq ⟨hcmd, (List.cons.inj (Option.some.inj h)).2⟩
      exact (if_neg (hvalue 48)).trans (if_neg (hvalue 49))
    next => rfl
  have hcommand := command_subscribe hread hlen hsub htopicRead hshort
    (hvalue.readChar_eq unset (input [probe])) hsf
  rw [clearStdin_append htail' htail] at hcommand
  exact absurd h (not_endsLineByLine_of_sent hnone hcommand)

/-- Without the byte 255, no line but an orderly one leaves the line behind it alone. -/
theorem orderly_of_endsLineByLine (heof : (255 : Byte) ∉ l.text) (h : EndsLineByLine unset [l, probe]) :
    Orderly l.text := by
  rcases blank_or_reads l.text with hblank | ⟨cmd, rest, hcmd⟩
  · exact .blank hblank
  have hread := hcmd.readWord_eq (input [probe])
  have hrest := (hcmd.not_mem heof).2
  have hnewline := (hcmd.not_mem l.no_newline).2
  by_cases hlen : cmd.length < packetLen
  swap
  · rw [EndsLineByLine, input_cons] at h
    exact absurd h (not_ends_of_none (command_overflow hread (Nat.not_lt.mp hlen)))
  by_cases hexit : ascii "exit" <+: cmd
  · rw [EndsLineByLine, input_cons, ends_iff_of_exit (command_exit hread hlen hexit), List.flatMap_cons,
      List.flatMap_singleton, requestsOf_probe] at h
    exact absurd (List.append_eq_nil_iff.mp h.1).2 (by decide)
  by_cases htakes : TakesTopic cmd
  swap
  · exact .other hcmd hlen hexit htakes hrest
  rcases blank_or_reads rest with hblank | ⟨topic, rest', htopic⟩
  · -- The first word of the probe becomes the topic.
    have hnone := requestsOf_of_blank hcmd hblank
    have hnext := readWord_blank hblank (input [probe])
    rcases htakes with hsub | hunsub
    · exact absurd h (not_endsLineByLine_of_swallowed hnone (command_invalidSf hread hlen hsub hnext
        (by decide) rfl (by decide) (by decide)) (by decide))
    · exact absurd h (not_endsLineByLine_of_swallowed hnone
        (command_unsubscribe hread hlen hunsub hnext (by decide)) (by decide))
  have hrest' := (htopic.not_mem hrest).2
  have hnewline' := (htopic.not_mem hnewline).2
  rcases Nat.lt_or_ge topicLen topic.length with hlong | hshort
  · exact .longTopic hcmd hlen htakes htopic hlong hrest'
  rcases htakes with hsub | hunsub
  · exact orderly_of_subscribe h hrest' hnewline' hcmd hlen hsub htopic hshort
  · exact orderly_of_unsubscribe h hrest' hnewline' hcmd hlen hunsub htopic hshort

theorem orderly_probe : Orderly probe.text :=
  .unsubscribe (reads_of_readWord (by rfl) (by decide)) (reads_of_readWord (by rfl) (by decide))
    (by decide) (by decide)

end Probe

end Inputs

end PCom.PubSub
