import Mathlib.Data.List.DropRight
import PCom.PubSub.Commands

/-! The commands as they arrive: a pass begins when `select` returns the descriptor, which does not
know of the lines that `std::cin` has read already. -/

namespace PCom.PubSub

open Lib

namespace Stdin

def text (s : Stdin) : Str := s.buffer ++ s.reads.flatten

/-- At most `n` characters of the last `read` are left, once that was made. -/
def Last (s : Stdin) (last : Str) (n : Nat) : Prop := LastPiece last n s.buffer s.reads

structure Takes (s s' : Stdin) (t : Str) : Prop where
  text_eq : s'.text = t
  closed : s'.closed = s.closed
  last : ∀ last, s.Last last last.length → s'.Last last last.length

theorem Takes.trans {s₁ s₂ s₃ : Stdin} {t t' : Str} (h : s₁.Takes s₂ t) (h' : s₂.Takes s₃ t') :
    s₁.Takes s₃ t' :=
  ⟨h'.text_eq, h'.closed.trans h.closed, fun last hlast => h'.last last (h.last last hlast)⟩

theorem Takes.left {s s' : Stdin} {t t' : Str} (h : s.Takes s' t) (hne : t' ≠ [] → t ≠ [])
    (hleft : t' ≠ [] ∨ s.closed = true) : s'.text ≠ [] ∨ s'.closed = true := by
  rw [h.text_eq, h.closed]
  exact hleft.imp_left hne

/-! ## What is taken from the text -/

theorem span_eq {p : Byte → Bool} {s : Stdin} (h : s.text.dropWhile p ≠ [] ∨ s.closed = true) :
    ∃ s', s.span p = .ok (s.text.takeWhile p, s') ∧ s.Takes s' (s.text.dropWhile p) ∧
      (s'.buffer = [] → s'.text = []) := by
  obtain ⟨htake, hdrop⟩ := spanPieces_eq p s.buffer s.reads
  have hnil : (spanPieces p s.buffer s.reads).2.1 = [] → s.text.dropWhile p = [] := by
    intro hbuffer
    rw [text, ← hdrop, hbuffer, spanPieces_nil hbuffer]
    rfl
  refine ⟨⟨_, _, s.closed⟩, ?_, ⟨hdrop, rfl, fun last hlast => hlast.spanPieces p⟩, ?_⟩
  · rw [span, text, ← htake]
    refine if_neg fun hwaits => ?_
    rcases h with h | h
    · exact h (hnil hwaits.1)
    · rw [hwaits.2] at h
      cases h
  · exact fun hbuffer => hdrop.trans (hnil hbuffer)

theorem readWord_eq {s : Stdin} {word t : Str} (h : PubSub.readWord s.text = (word, t))
    (hleft : t ≠ [] ∨ s.closed = true) :
    ∃ s', s.readWord = .ok (word, s') ∧ s.Takes s' t := by
  obtain ⟨rfl, rfl⟩ := Prod.mk.inj h
  have hspaces : s.text.dropWhile isSpace ≠ [] ∨ s.closed = true := by
    refine hleft.imp_left fun hne hnil => hne ?_
    rw [hnil, List.dropWhile_nil]
  obtain ⟨s₁, hspan₁, htakes₁, -⟩ := span_eq hspaces
  rw [← htakes₁.text_eq] at hleft ⊢
  obtain ⟨s₂, hspan₂, htakes₂, -⟩ := span_eq (hleft.imp_right htakes₁.closed.trans)
  refine ⟨s₂, ?_, htakes₁.trans htakes₂⟩
  rw [readWord, hspan₁]
  exact hspan₂

theorem readChar_eq {s : Stdin} {unset c : Byte} {t : Str}
    (h : PubSub.readChar unset s.text = (c, t)) (hleft : t ≠ [] ∨ s.closed = true) :
    ∃ s', s.readChar unset = .ok (c, s') ∧ s.Takes s' t := by
  have hspaces : s.text.dropWhile isSpace ≠ [] ∨ s.closed = true := by
    refine hleft.imp_left fun hne hnil => hne ?_
    rw [PubSub.readChar, hnil] at h
    exact (Prod.mk.inj h).2.symm
  obtain ⟨s₁, hspan, htakes, hfilled⟩ := span_eq hspaces
  rw [PubSub.readChar, ← htakes.text_eq] at h
  cases hbuffer : s₁.buffer with
  | nil =>
    rw [hfilled hbuffer] at h
    obtain ⟨rfl, rfl⟩ := Prod.mk.inj h
    refine ⟨s₁, ?_, hfilled hbuffer, htakes.closed, htakes.last⟩
    simp [readChar, hspan, hbuffer, pure_eq_ok]
  | cons sf buffer =>
    have hcons : s₁.text = sf :: (buffer ++ s₁.reads.flatten) := by
      rw [text, hbuffer, List.cons_append]
    rw [hcons] at h
    obtain ⟨rfl, rfl⟩ := Prod.mk.inj h
    refine ⟨{ s₁ with buffer := buffer }, ?_, rfl, htakes.closed, fun last hlast => ?_⟩
    · simp [readChar, hspan, hbuffer, pure_eq_ok]
    · refine (htakes.last last hlast).imp_right fun hleft => ⟨hleft.1, ?_⟩
      rw [hbuffer, List.length_cons] at hleft
      exact Nat.le_of_succ_le hleft.2

theorem clearStdin_text (t : Str) :
    PubSub.clearStdin t = (t.dropWhile fun ch => !endsClear ch).tail := by
  induction t with
  | nil => rfl
  | cons ch t ih =>
    rw [PubSub.clearStdin, List.dropWhile_cons]
    have hends : endsClear ch = true ↔ ch = 10 ∨ ch = 255 := by simp [endsClear]
    by_cases hch : ch = 10 ∨ ch = 255
    · rw [if_pos hch, if_neg (by simp [hends.mpr hch])]
      rfl
    · rw [if_neg hch, if_pos (by simpa using mt hends.mp hch), ih]

theorem clearStdin_eq {s : Stdin} {t : Str} (h : PubSub.clearStdin s.text = t)
    (hleft : t ≠ [] ∨ s.closed = true) :
    ∃ s', s.clearStdin = .ok s' ∧ s.Takes s' t ∧
      ∀ last, s.Last last last.length → s'.Last last (last.length - 1) := by
  subst h
  rw [clearStdin_text] at hleft ⊢
  have hspan : (s.text.dropWhile fun ch => !endsClear ch) ≠ [] ∨ s.closed = true := by
    refine hleft.imp_left fun hne hnil => hne ?_
    rw [hnil, List.tail_nil]
  obtain ⟨s₁, hspan, htakes, hfilled⟩ := span_eq hspan
  rw [← htakes.text_eq]
  have hlast (last : Str) (hlast : s.Last last last.length) :
      LastPiece last (last.length - 1) s₁.buffer.tail s₁.reads := by
    refine (htakes.last last hlast).imp_right fun hlen => ⟨hlen.1, ?_⟩
    rw [List.length_tail]
    exact Nat.sub_le_sub_right hlen.2 1
  refine ⟨{ s₁ with buffer := s₁.buffer.tail }, ?_, ⟨?_, htakes.closed, fun last h => ?_⟩, hlast⟩
  · simp [clearStdin, hspan, pure_eq_ok]
  · cases hbuffer : s₁.buffer with
    | nil =>
      have hnil := hfilled hbuffer
      rw [text, hbuffer, List.nil_append] at hnil
      rw [text, text, hbuffer, hnil]
      rfl
    | cons ch buffer => rw [text, text, hbuffer, List.cons_append, List.tail_cons, List.tail_cons]
  · exact (hlast last h).mono (Nat.sub_le _ _)

/-! ## A pass -/

theorem readWord_ne_nil {t word t' : Str} (h : PubSub.readWord t = (word, t')) (hne : t' ≠ []) :
    t ≠ [] := by
  rintro rfl
  exact hne (Prod.mk.inj h).2.symm

theorem readChar_ne_nil {unset c : Byte} {t t' : Str} (h : PubSub.readChar unset t = (c, t'))
    (hne : t' ≠ []) : t ≠ [] := by
  rintro rfl
  exact hne (Prod.mk.inj h).2.symm

theorem clearStdin_ne_nil {t t' : Str} (h : PubSub.clearStdin t = t') (hne : t' ≠ []) :
    t ≠ [] := by
  rintro rfl
  exact hne h.symm

/-- A pass but for the last one has used up something of the last `read`. -/
structure Passes (s s' : Stdin) (exit : Bool) (t : Str) : Prop extends Takes s s' t where
  used : exit = false → ∀ last, s.Last last last.length → s'.Last last (last.length - 1)

theorem Takes.clear {s s₁ : Stdin} {t₁ t : Str} (h : s.Takes s₁ t₁)
    (hclear : PubSub.clearStdin t₁ = t) (hleft : t ≠ [] ∨ s.closed = true) :
    ∃ s', s₁.clearStdin = .ok s' ∧ s.Passes s' false t := by
  rw [← h.text_eq] at hclear
  obtain ⟨s', hs', htakes, hused⟩ := clearStdin_eq hclear (hleft.imp_right h.closed.trans)
  exact ⟨s', hs', h.trans htakes, fun _ last hlast => hused last (h.last last hlast)⟩

theorem readWords_eq {s : Stdin} {word word' t₁ t₂ t : Str}
    (h : PubSub.readWord s.text = (word, t₁)) (h' : PubSub.readWord t₁ = (word', t₂))
    (hne : t ≠ [] → t₂ ≠ []) (hleft : t ≠ [] ∨ s.closed = true) :
    ∃ s₁ s₂, s.readWord = .ok (word, s₁) ∧ s₁.readWord = .ok (word', s₂) ∧ s.Takes s₂ t₂ := by
  have hleft₁ : t₁ ≠ [] ∨ s.closed = true :=
    hleft.imp_left fun ht => readWord_ne_nil h' (hne ht)
  obtain ⟨s₁, hread₁, htakes₁⟩ := readWord_eq h hleft₁
  rw [← htakes₁.text_eq] at h'
  obtain ⟨s₂, hread₂, htakes₂⟩ := readWord_eq h' (hleft.imp hne htakes₁.closed.trans)
  exact ⟨s₁, s₂, hread₁, hread₂, htakes₁.trans htakes₂⟩

/-- A pass takes from the text what it would take if all were there, as long as something is left
behind that, or the input is closed. -/
theorem command_eq {s : Stdin} {unset : Byte} {exit : Bool} {sent : List (List Byte)} {t : Str}
    (h : PubSub.command unset s.text = some (exit, sent, t)) (hleft : t ≠ [] ∨ s.closed = true) :
    ∃ s', s.command unset = .ok (exit, sent, s') ∧ s.Passes s' exit t := by
  rcases hword : PubSub.readWord s.text with ⟨buffer, t₁⟩
  simp only [PubSub.command, hword] at h
  split at h
  next => cases h
  next hlen =>
    split at h
    next hexit =>
      cases h
      obtain ⟨s₁, hread, htakes⟩ := readWord_eq hword hleft
      refine ⟨s₁, ?_, htakes, fun hno => Bool.noConfusion hno⟩
      simp only [command, hread, ok_bind, if_neg hlen, if_pos hexit, pure_eq_ok]
    next hexit =>
      split at h
      next htopics =>
        rcases htopic : PubSub.readWord t₁ with ⟨topic, t₂⟩
        simp only [htopic] at h
        split at h
        next hlong =>
          cases h
          obtain ⟨s₁, s₂, hread, hread', htakes⟩ :=
            readWords_eq hword htopic (clearStdin_ne_nil rfl) hleft
          obtain ⟨s', hclear, hpasses⟩ := htakes.clear rfl hleft
          refine ⟨s', ?_, hpasses⟩
          simp only [command, hread, hread', ok_bind, if_neg hlen, if_neg hexit, if_pos htopics,
            if_pos hlong, hclear, pure_eq_ok]
        next hlong =>
          split at h
          next hun =>
            cases h
            obtain ⟨s₁, s₂, hread, hread', htakes⟩ :=
              readWords_eq hword htopic (clearStdin_ne_nil rfl) hleft
            obtain ⟨s', hclear, hpasses⟩ := htakes.clear rfl hleft
            refine ⟨s', ?_, hpasses⟩
            simp only [command, hread, hread', ok_bind, if_neg hlen, if_neg hexit, if_pos htopics,
              if_neg hlong, if_pos hun, hclear, pure_eq_ok]
          next hun =>
            rcases hvalue : PubSub.readChar unset t₂ with ⟨sf, t₃⟩
            simp only [hvalue] at h
            have hresult : exit = false ∧ PubSub.clearStdin t₃ = t ∧
                sent = if sf ≠ 48 ∧ sf ≠ 49 then []
                  else [subsRequest subMsg topic (decide (sf ≠ 48))] := by
              split at h <;> cases h
              next hinvalid => exact ⟨rfl, rfl, (if_pos hinvalid).symm⟩
              next hvalid => exact ⟨rfl, rfl, (if_neg hvalid).symm⟩
            obtain ⟨rfl, hclear, rfl⟩ := hresult
            have hne : t ≠ [] → t₃ ≠ [] := clearStdin_ne_nil hclear
            obtain ⟨s₁, s₂, hread, hread', htakes⟩ :=
              readWords_eq hword htopic (fun ht => readChar_ne_nil hvalue (hne ht)) hleft
            rw [← htakes.text_eq] at hvalue
            obtain ⟨s₃, hchar, htakes₃⟩ := readChar_eq hvalue (hleft.imp hne htakes.closed.trans)
            obtain ⟨s', hclear, hpasses⟩ := (htakes.trans htakes₃).clear hclear hleft
            refine ⟨s', ?_, hpasses⟩
            simp only [command, hread, hread', hchar, ok_bind, if_neg hlen, if_neg hexit,
              if_pos htopics, if_neg hlong, if_neg hun, hclear, pure_eq_ok]
            split <;> rfl
      next htopics =>
        cases h
        obtain ⟨s₁, hread, htakes⟩ := readWord_eq hword (hleft.imp_left (clearStdin_ne_nil rfl))
        obtain ⟨s', hclear, hpasses⟩ := htakes.clear rfl hleft
        refine ⟨s', ?_, hpasses⟩
        simp only [command, hread, ok_bind, if_neg hlen, if_neg hexit, if_neg htopics, hclear,
          pure_eq_ok]

theorem command_overflow {s : Stdin} {unset : Byte} (h : PubSub.command unset s.text = none)
    (hclosed : s.closed = true) : s.command unset = .error .overflow := by
  rcases hword : PubSub.readWord s.text with ⟨buffer, t⟩
  obtain ⟨s₁, hread, -⟩ := readWord_eq hword (.inr hclosed)
  have hlen : packetLen ≤ buffer.length := by
    by_contra hlen
    simp only [PubSub.command, hword, if_neg hlen] at h
    repeat' split at h
    all_goals cases h
  simp only [command, hread, ok_bind, if_pos hlen]

/-! ## Whole inputs -/

/-- The subscriber stops with these requests sent and this text left. -/
def Stops (unset : Byte) (s : Stdin) (sent : List (List Byte)) (left : Str) : Prop :=
  ∃ n s', s.commands unset n = .ok (true, sent, s') ∧ s'.text = left

section Stops

variable {unset : Byte} {s s' : Stdin} {out sent : List (List Byte)} {left : Str}

theorem not_stops_of_not_ready (h : s.ready = false) : ¬ s.Stops unset out left := by
  rintro ⟨n, s', hn, -⟩
  cases n with
  | zero => cases hn
  | succ n =>
    rw [commands, h] at hn
    cases hn

theorem stops_iff_of_exit (hready : s.ready = true)
    (h : s.command unset = .ok (true, sent, s')) :
    s.Stops unset out left ↔ out = sent ∧ s'.text = left := by
  constructor
  · rintro ⟨n, s'', hn, hleft⟩
    cases n with
    | zero => cases hn
    | succ n =>
      rw [commands, if_pos hready, h] at hn
      cases hn
      exact ⟨rfl, hleft⟩
  · rintro ⟨rfl, hleft⟩
    refine ⟨1, s', ?_, hleft⟩
    rw [commands, if_pos hready, h]
    rfl

theorem stops_iff_of_command (hready : s.ready = true)
    (h : s.command unset = .ok (false, sent, s')) :
    s.Stops unset out left ↔ ∃ more, out = sent ++ more ∧ s'.Stops unset more left := by
  constructor
  · rintro ⟨n, s'', hn, hleft⟩
    cases n with
    | zero => cases hn
    | succ n =>
      rw [commands, if_pos hready, h, ok_bind] at hn
      obtain ⟨⟨exit, more, s₁⟩, hrest, hn⟩ := bind_ok hn
      cases hn
      exact ⟨more, rfl, n, s'', hrest, hleft⟩
  · rintro ⟨more, rfl, n, s'', hn, hleft⟩
    refine ⟨n + 1, s'', ?_, hleft⟩
    rw [commands, if_pos hready, h, ok_bind]
    simp only [Bool.false_eq_true, if_false, hn, ok_bind, pure_eq_ok]

theorem ready_of_closed (h : s.closed = true) : s.ready = true := by
  rw [ready, h, Bool.or_true]

theorem ends_of_stops (hclosed : s.closed = true) (h : s.Stops unset sent left) :
    Ends unset s.text sent left := by
  obtain ⟨n, s', hn, hleft⟩ := h
  induction n generalizing s sent with
  | zero => cases hn
  | succ n ih =>
    rw [commands, if_pos (ready_of_closed hclosed)] at hn
    cases hcommand : PubSub.command unset s.text with
    | none =>
      rw [command_overflow hcommand hclosed] at hn
      cases hn
    | some r =>
      obtain ⟨exit, first, t⟩ := r
      obtain ⟨s₁, hs₁, hpasses⟩ := command_eq hcommand (.inr hclosed)
      rw [hs₁, ok_bind] at hn
      cases exit with
      | true =>
        cases hn
        exact (ends_iff_of_exit hcommand).mpr ⟨rfl, hleft.symm.trans hpasses.text_eq⟩
      | false =>
        obtain ⟨⟨exit, more, s₂⟩, hrest, hn⟩ := bind_ok hn
        cases hn
        have hends := ih (hpasses.closed.trans hclosed) hrest
        rw [hpasses.text_eq] at hends
        exact (ends_iff_of_command hcommand).mpr ⟨more, rfl, hends⟩

theorem ready_iff {last : Str} (hne : last ≠ []) (hlast : s.Last last (last.length - 1)) :
    s.ready = true ↔ s.closed = true ∨ last.length ≤ s.text.length := by
  have hpos := List.length_pos_iff.mpr hne
  have hreads := hlast.ne_nil_iff (by omega)
  rw [text, ← hreads, ready, Bool.or_eq_true, or_comm]
  simp

end Stops

end Stdin

/-- How a text comes: what each `read` returns, and whether the input is closed behind it. -/
structure Arrival (text : Str) where
  reads : List Str
  closed : Bool
  ne_nil : ∀ r ∈ reads, r ≠ []
  flatten_eq : reads.flatten = text

def Arrival.stdin {text : Str} (a : Arrival text) : Stdin := ⟨[], a.reads, a.closed⟩

/-- The subscriber reads its input to the `exit`, and what it sends is what each line asks for. -/
def LineByLine (unset : Byte) (ls : List CommandLine) (a : Arrival (input ls)) : Prop :=
  a.stdin.Stops unset (ls.flatMap fun l => requestsOf l.text) [10]

def CommandLine.isBlank (l : CommandLine) : Bool := l.text.all isSpace

/-- The last `read` brings no line with a word but the `exit`, or the input is closed behind it, so
that `select` returns before each pass. -/
def InTime (ls : List CommandLine) (a : Arrival (input ls)) : Prop :=
  a.closed = true ∨ ∀ last ∈ a.reads.getLast?,
    last.length ≤ (input (ls.rtakeWhile CommandLine.isBlank)).length

/-! ## Lines -/

theorem command_blank {spaces : Str} (h : Blank spaces) (unset : Byte) (stdin : Str) :
    command unset (spaces ++ stdin) = command unset stdin := by
  rw [command, command, readWord, readWord, List.dropWhile_append_of_pos h]

theorem command_input_nil (unset : Byte) : command unset (input []) = some (true, [], [10]) := by
  rfl

theorem isBlank_iff {l : CommandLine} : l.isBlank = true ↔ Blank l.text := List.all_eq_true

/-- What is left before the pass that reads the `exit`, where `spaces` comes before the lines. -/
def lastText (spaces : Str) (ls : List CommandLine) : Str :=
  if ls.all CommandLine.isBlank then spaces ++ input ls
  else input (ls.rtakeWhile CommandLine.isBlank)

theorem rtakeWhile_cons {α : Type*} (p : α → Bool) (x : α) (xs : List α) :
    (x :: xs).rtakeWhile p =
      if xs.all p then if p x then x :: xs else xs else xs.rtakeWhile p := by
  rw [List.rtakeWhile, List.rtakeWhile, List.reverse_cons]
  split
  next hall =>
    have hpos : ∀ y ∈ xs.reverse, p y = true :=
      fun y hy => List.all_eq_true.mp hall y (List.mem_reverse.mp hy)
    rw [List.takeWhile_append_of_pos hpos, List.takeWhile_cons]
    split <;> simp
  next hall =>
    congr 1
    refine (span_append_of_not_all ?_ [x]).1
    rwa [List.all_reverse]

theorem lastText_start (ls : List CommandLine) :
    lastText [] ls = input (ls.rtakeWhile CommandLine.isBlank) := by
  rw [lastText]
  split
  next hall => rw [List.rtakeWhile_eq_self_iff.mpr (List.all_eq_true.mp hall), List.nil_append]
  next => rfl

theorem lastText_of_blank {l : CommandLine} (h : l.isBlank = true) (spaces : Str)
    (ls : List CommandLine) :
    lastText spaces (l :: ls) = lastText (spaces ++ (l.text ++ [10])) ls := by
  rw [lastText, lastText, List.all_cons, h, Bool.true_and, rtakeWhile_cons]
  split
  next => simp
  next hall => rfl

theorem lastText_of_not_blank {l : CommandLine} (h : ¬ l.isBlank = true) (spaces : Str)
    (ls : List CommandLine) : lastText spaces (l :: ls) = lastText [] ls := by
  rw [Bool.not_eq_true] at h
  rw [lastText, lastText, List.all_cons, h, Bool.false_and, rtakeWhile_cons, h]
  simp only [Bool.false_eq_true, if_false]
  split <;> rfl

theorem length_lastText_le (spaces : Str) (ls : List CommandLine) :
    (lastText spaces ls).length ≤ (spaces ++ input ls).length := by
  induction ls generalizing spaces with
  | nil => exact Nat.le_refl _
  | cons l ls ih =>
    by_cases hblank : l.isBlank = true
    · have := ih (spaces ++ (l.text ++ [10]))
      rw [lastText_of_blank hblank, input_cons]
      simp only [List.length_append, List.length_cons, List.length_nil] at this ⊢
      omega
    · rw [lastText_of_not_blank hblank, input_cons]
      have := ih []
      simp only [List.length_append, List.length_cons, List.nil_append] at this ⊢
      omega

/-- Orderly lines are read one by one as long as `select` returns before each pass. -/
theorem stops_iff {unset : Byte} {ls : List CommandLine} (h : ∀ l ∈ ls, Orderly l.text)
    {spaces last : Str} (hspaces : Blank spaces) {s : Stdin} (htext : s.text = spaces ++ input ls)
    (hne : last ≠ []) (hlast : s.Last last (last.length - 1)) :
    s.Stops unset (ls.flatMap fun l => requestsOf l.text) [10] ↔
      s.closed = true ∨ last.length ≤ (lastText spaces ls).length := by
  induction ls generalizing spaces s with
  | nil =>
    have hready := Stdin.ready_iff hne hlast
    have hcommand : command unset s.text = some (true, [], [10]) := by
      rw [htext, command_blank hspaces]
      exact command_input_nil unset
    rw [htext] at hready
    change _ ↔ s.closed = true ∨ last.length ≤ (spaces ++ input []).length
    rw [← hready]
    by_cases hnow : s.ready = true
    · obtain ⟨s', hs', hpasses⟩ := Stdin.command_eq hcommand (.inl (List.cons_ne_nil _ _))
      exact iff_of_true ((Stdin.stops_iff_of_exit hnow hs').mpr ⟨rfl, hpasses.text_eq⟩) hnow
    · exact iff_of_false (Stdin.not_stops_of_not_ready (Bool.eq_false_of_not_eq_true hnow)) hnow
  | cons l ls ih =>
    obtain ⟨hl, h⟩ := List.forall_mem_cons.mp h
    rw [input_cons] at htext
    by_cases hblank : l.isBlank = true
    · have hl := isBlank_iff.mp hblank
      have hnone : requestsOf l.text = [] := by rw [requestsOf, hl.words_eq]
      have hspaces' : Blank (spaces ++ (l.text ++ [10])) := by
        intro c hc
        simp only [List.mem_append, List.mem_singleton] at hc
        rcases hc with hc | hc | rfl
        · exact hspaces c hc
        · exact hl c hc
        · exact isSpace_newline
      rw [List.flatMap_cons, hnone, List.nil_append, lastText_of_blank hblank]
      exact ih h hspaces' (by simpa using htext) hlast
    have hcommand : command unset s.text = some (false, requestsOf l.text, input ls) := by
      rw [htext, command_blank hspaces]
      exact (hl.command_eq l.no_newline unset (input ls)).resolve_left (mt isBlank_iff.mpr hblank)
    have hready := Stdin.ready_iff hne hlast
    rw [lastText_of_not_blank hblank, List.flatMap_cons]
    by_cases hnow : s.ready = true
    · have hleft : input ls ≠ [] := by simp [input, ascii]
      obtain ⟨s', hs', hpasses⟩ := Stdin.command_eq hcommand (.inl hleft)
      have hnil : Blank [] := List.forall_mem_nil _
      have hrest := ih h hnil hpasses.text_eq
        (hpasses.used rfl last (hlast.mono (Nat.sub_le _ _)))
      rw [← hpasses.closed, ← hrest, Stdin.stops_iff_of_command hnow hs']
      simp
    · refine iff_of_false (Stdin.not_stops_of_not_ready (Bool.eq_false_of_not_eq_true hnow)) ?_
      rw [hready] at hnow
      refine mt (Or.imp_right fun hle => ?_) hnow
      have hlen := length_lastText_le [] ls
      rw [htext]
      simp only [List.length_append, List.length_cons, List.nil_append] at hlen ⊢
      omega

theorem lineByLine_iff {unset : Byte} {ls : List CommandLine} (h : ∀ l ∈ ls, Orderly l.text)
    (a : Arrival (input ls)) : LineByLine unset ls a ↔ InTime ls a := by
  have hreads : a.reads ≠ [] := by
    intro hnil
    have hflat := a.flatten_eq
    rw [hnil] at hflat
    simp [input, ascii] at hflat
  have htext : a.stdin.text = [] ++ input ls := a.flatten_eq
  have hlast := List.getLast?_eq_some_getLast hreads
  rw [LineByLine, stops_iff h (List.forall_mem_nil _) htext (a.ne_nil _ (List.getLast_mem hreads))
    (.inl hlast), InTime, hlast, lastText_start]
  simp only [Option.mem_some_iff, forall_eq']
  rfl

def Arrival.atOnce {text : Str} (h : text ≠ []) : Arrival text :=
  ⟨[text], true, List.forall_mem_singleton.mpr h, List.flatten_singleton⟩

theorem input_ne_nil (ls : List CommandLine) : input ls ≠ [] := by
  simp [input, ascii]

theorem endsLineByLine_of_atOnce {unset : Byte} {ls : List CommandLine}
    (h : LineByLine unset ls (.atOnce (input_ne_nil ls))) : EndsLineByLine unset ls := by
  have htext : (Arrival.atOnce (input_ne_nil ls)).stdin.text = input ls := Arrival.flatten_eq _
  have hends := Stdin.ends_of_stops rfl h
  rwa [htext] at hends

/-- Orderly lines are read one by one exactly when they come in time, whatever is in a variable that
is not set.  Without the byte 255, no line but an orderly one leaves all orderly lines behind it
alone, when these come in time. -/
theorem lineByLine_orderly (unset : Byte) :
    (∀ ls : List CommandLine, (∀ l ∈ ls, Orderly l.text) → ∀ a : Arrival (input ls),
      (LineByLine unset ls a ↔ InTime ls a)) ∧
    ∀ l : CommandLine, (255 : Byte) ∉ l.text → (Orderly l.text ↔
      ∀ ls : List CommandLine, (∀ l ∈ ls, Orderly l.text) → ∀ a : Arrival (input (l :: ls)),
        InTime (l :: ls) a → LineByLine unset (l :: ls) a) := by
  refine ⟨fun ls h a => lineByLine_iff h a, fun l heof => ⟨fun hl ls hls a => ?_, fun h => ?_⟩⟩
  · exact (lineByLine_iff (List.forall_mem_cons.mpr ⟨hl, hls⟩) a).mpr
  · have hprobe := h [probe] (List.forall_mem_singleton.mpr orderly_probe)
      (.atOnce (input_ne_nil _)) (.inl rfl)
    exact orderly_of_endsLineByLine heof (endsLineByLine_of_atOnce hprobe)

/-- What follows the SF value does not count. -/
def subscription : CommandLine where
  text := ascii "subscribe news 1 now"
  no_newline := by decide
  not_exit := by decide

theorem orderly_subscription : Orderly subscription.text :=
  .subscribe (reads_of_readWord (by rfl) (by decide)) (reads_of_readWord (by rfl) (by decide))
    (by decide) (reads_of_readWord (by rfl) (by decide)) (.inr rfl) (by decide)

/-- Three lines that are typed, and the `exit`; the second one comes in two pieces. -/
def typed : Arrival (input [subscription, probe, subscription]) where
  reads := [ascii "subscribe news 1 now\n", ascii "unsubscribe", ascii " news\n",
    ascii "subscribe news 1 now\n", ascii "exit\n"]
  closed := false
  ne_nil := by decide
  flatten_eq := by decide

theorem lineByLine_typed : LineByLine 0 [subscription, probe, subscription] typed := by
  refine ((lineByLine_orderly 0).1 _ ?_ typed).mpr (.inr (by decide))
  simp only [List.forall_mem_cons]
  exact ⟨orderly_subscription, orderly_probe, orderly_subscription, List.forall_mem_nil _⟩

def bareSubscribe : CommandLine where
  text := ascii "subscribe"
  no_newline := by decide
  not_exit := by decide

/-- The next line is taken for the topic. -/
theorem bareSubscribe_swallows :
    ¬ LineByLine 0 [bareSubscribe, probe] (.atOnce (input_ne_nil _)) := by
  have hcommand : command 0 (bareSubscribe.text ++ 10 :: input [probe])
      = some (false, [], input []) := by rfl
  exact mt endsLineByLine_of_atOnce (not_endsLineByLine_of_swallowed (by decide) hcommand (by decide))

end PCom.PubSub
