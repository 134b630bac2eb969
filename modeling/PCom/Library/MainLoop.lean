import PCom.Library.InputLines
import PCom.Library.RequestSizes
import PCom.Library.SessionCookie

/-! The `while` of `client.c`: which lines of the input it uses, and when it stops. -/

namespace PCom.Library

open Lib

/-- What becomes of a connection: `connect` fails, `write` fails, or the reads give this. -/
inductive Link
  | refused
  | broken
  | answers (reads : List ReadResult)

/-- What a pass does not find in the client: its connection, and the value of an unset `id`. -/
structure Outside where
  link : Link
  unset : Int

/-- How a pass ends the client, other than by `exit`. -/
inductive Ended
  | fault (f : Fault)
  | stop (s : Stop)
  deriving DecidableEq

namespace Link

def openConnection : Link → Except Stop Unit
  | .refused => .error .error
  | _ => .ok ()

def sendToServer : Link → Except Stop Unit
  | .answers _ => .ok ()
  | _ => .error .error

/-- The response as the string functions see it. -/
def receive : Link → Except Stop Str
  | .answers reads => (receiveFromServer reads).map fun x => cstr x.1
  | _ => .error .error

def response (link : Link) : Except Stop Str := do
  link.openConnection
  link.sendToServer
  link.receive

theorem response_ok {link : Link} {response : Str} : link.response = .ok response ↔
    link.openConnection = .ok () ∧ link.sendToServer = .ok () ∧ link.receive = .ok response := by
  cases link with
  | refused => simp [Link.response, openConnection]
  | broken => simp [Link.response, openConnection, sendToServer]
  | answers reads => simp [Link.response, openConnection, sendToServer]

end Link

structure Session where
  client : Client
  console : Console
  deriving DecidableEq

def Session.pass (p : Parson) (host : Str) (o : Outside) (s : Session) :
    Except Ended (Entry × Session) :=
  let (e, console) := s.console.readEntry
  let command := e.command o.unset
  match s.client.request p command with
  | none => .ok (e, ⟨s.client.idle command, console⟩)
  | some r => do
    o.link.openConnection.mapError .stop
    let _ ← (r.message host).mapError .fault
    o.link.sendToServer.mapError .stop
    let response ← o.link.receive.mapError .stop
    let client ← (s.client.answered p response command).mapError .fault
    return (e, ⟨client, console⟩)

/-- At most `n` passes of the `while`: what they have read, and what is left. -/
def mainLoop (p : Parson) (host : Str) : Nat → (Nat → Outside) → Session →
    Except Ended (List Entry × Session)
  | 0, _, s => .ok ([], s)
  | n + 1, outside, s =>
    if s.client.running = true then do
      let (e, s) ← s.pass p host (outside 0)
      let (es, s) ← mainLoop p host n (fun i => outside (i + 1)) s
      return (e :: es, s)
    else .ok ([], s)

/-- A response with which the client gets through the rest of a pass. -/
structure Legible (p : Parson) (command : Command) (response : Str) : Prop where
  status : ascii "HTTP/1.1" <+: response → crlf <:+: response ∧ ∀ text,
    (basicExtractJsonArrayResponse response).or (basicExtractJsonResponse response) = some text →
      p.reprint text ≠ none
  cookie : (∃ username password, command = .login username password) →
    ∀ i, position cookieField response = some i →
      ∃ j, position pathAttribute response = some j ∧ (copyOf response i j).length < lineLen
  token : command = .enterLibrary → ∀ content, basicExtractJsonResponse response = some content →
    p.getString content (ascii "token") ≠ some none

/-- The request that the next line leads to fits, and is answered with a legible response. -/
def Session.Finishes (p : Parson) (host : Str) (o : Outside) (s : Session) : Prop :=
  ∀ r, s.client.request p (s.console.readEntry.1.command o.unset) = some r →
    r.Fits host ∧ ∃ response, o.link.response = .ok response ∧
      Legible p (s.console.readEntry.1.command o.unset) response

def EveryPass (p : Parson) (host : Str) (outside : Nat → Outside) (s : Session)
    (holds : Outside → Session → Prop) : Prop :=
  ∀ n es s', mainLoop p host n outside s = .ok (es, s') → s'.client.running = true →
    holds (outside n) s'

/-- No pass comes to a prompt for a number. -/
def TextOnly (p : Parson) (host : Str) (outside : Nat → Outside) (s : Session) : Prop :=
  EveryPass p host outside s fun _ s => asksNumber s.console.readLine.1 = false

/-- The loop ends, and the commands and fields are the lines without their newlines. -/
def Consumes (p : Parson) (host : Str) (outside : Nat → Outside) (s : Session) : Prop :=
  ∃ n es s', mainLoop p host n outside s = .ok (es, s') ∧ s'.client.running = false ∧
    es.flatMap Entry.values = (usedLines 0 (linesOf s.console.stdin)).map Line.text

/-! ## One pass -/

section Response

variable {p : Parson} {command : Command} {response : Str}

theorem printResponse_eq (h : ascii "HTTP/1.1" <+: response) : printResponse response =
    match strstr crlf response with
    | none => .error .nullPointer
    | some lineEnd => .ok (.status (statusLine response lineEnd)
        ((basicExtractJsonArrayResponse response).or (basicExtractJsonResponse response))) := by
  rw [printResponse, if_pos (List.isPrefixOf_iff_prefix.mpr h)]
  cases strstr crlf response with
  | none => rfl
  | some lineEnd => cases basicExtractJsonArrayResponse response <;> rfl

theorem Shown.print_status {line : Str} {text : Option Str} :
    (Shown.status line text).print p = .ok () ↔ ∀ t, text = some t → p.reprint t ≠ none := by
  cases text with
  | none => simp [print]
  | some t => cases h : p.reprint t <;> simp [print, h]

theorem shown_iff :
    (∃ shown, printResponse response = .ok shown ∧ shown.print p = .ok ()) ↔
      (ascii "HTTP/1.1" <+: response → crlf <:+: response ∧ ∀ text,
        (basicExtractJsonArrayResponse response).or (basicExtractJsonResponse response) = some text →
          p.reprint text ≠ none) := by
  by_cases hversion : ascii "HTTP/1.1" <+: response
  · have hfound : crlf <:+: response ↔ strstr crlf response ≠ none := by
      rw [Ne, strstr_eq_none_iff, not_not]
    rw [printResponse_eq hversion, hfound]
    cases hend : strstr crlf response with
    | none => simp [hversion]
    | some lineEnd => simp [hversion, Shown.print_status]
  · refine iff_of_true ⟨.badResponse, ?_, rfl⟩ fun h => absurd h hversion
    rw [printResponse, if_neg (mt List.isPrefixOf_iff_prefix.mp hversion)]

theorem sessionCookie_iff : (∃ cookie, sessionCookie response = .ok cookie) ↔
    ∀ i, position cookieField response = some i →
      ∃ j, position pathAttribute response = some j ∧ (copyOf response i j).length < lineLen := by
  cases hi : position cookieField response with
  | none =>
    have hnone : strstr (ascii "Set-Cookie: connect.sid=") response = none := by
      rw [strstr_eq_map_position]
      exact congrArg (Option.map fun i => response.drop i) hi
    simp [sessionCookie, hnone]
  | some i =>
    rw [sessionCookie_eq hi]
    cases hj : position pathAttribute response with
    | none => simp
    | some j => by_cases hshort : (copyOf response i j).length < lineLen <;> simp [hshort]

theorem libraryToken_iff : (∃ token, libraryToken p response = .ok token) ↔
    ∀ content, basicExtractJsonResponse response = some content →
      p.getString content (ascii "token") ≠ some none := by
  rw [libraryToken]
  cases basicExtractJsonResponse response with
  | none => simp
  | some content =>
    rcases hmember : p.getString content (ascii "token") with _ | _ | token
    all_goals simp [hmember]

theorem keep_iff {c : Client} : (∃ c', c.keep p response command = .ok c') ↔
    ((∃ username password, command = .login username password) →
      ∃ cookie, sessionCookie response = .ok cookie) ∧
    (command = .enterLibrary → ∃ token, libraryToken p response = .ok token) := by
  cases command with
  | login username password =>
    cases hcookie : sessionCookie response with
    | error fault => simp [Client.keep, hcookie]
    | ok cookie => cases cookie <;> simp [Client.keep, hcookie, pure_eq_ok]
  | enterLibrary =>
    cases htoken : libraryToken p response with
    | error fault => simp [Client.keep, htoken]
    | ok token => cases token <;> simp [Client.keep, htoken, pure_eq_ok]
  | _ => simp [Client.keep]

theorem legible_iff {c : Client} : Legible p command response ↔
    ∃ c', c.answered p response command = .ok c' := by
  have hparts : (∃ c', c.answered p response command = .ok c') ↔
      (∃ shown, printResponse response = .ok shown ∧ shown.print p = .ok ()) ∧
        ∃ c', c.keep p response command = .ok c' := by
    constructor
    · rintro ⟨c', h⟩
      exact ⟨(Client.answered_ok h).1, c', (Client.answered_ok h).2⟩
    · rintro ⟨⟨shown, hshown, hprint⟩, c', hkeep⟩
      exact ⟨c', by rw [Client.answered, hshown, ok_bind, hprint, ok_bind, hkeep]⟩
  rw [hparts, shown_iff, keep_iff, sessionCookie_iff, libraryToken_iff]
  exact ⟨fun h => ⟨h.status, h.cookie, h.token⟩, fun h => ⟨h.1, h.2.1, h.2.2⟩⟩

end Response

theorem Entry.hasIntId {e : Entry} (h : asksNumber e.cmd = false) (unset : Int) :
    (e.command unset).HasIntId := by
  have hcmd : e.cmd ≠ ascii "get_book" ∧ e.cmd ≠ ascii "delete_book" := by
    constructor
    · intro hcmd
      rw [hcmd] at h
      exact absurd h (by decide)
    · intro hcmd
      rw [hcmd] at h
      exact absurd h (by decide)
  simp only [command, hcmd.1, hcmd.2, if_false]
  repeat' split
  all_goals trivial

namespace Session

variable {p : Parson} {host : Str} {o : Outside} {s s' : Session} {e : Entry}

theorem pass_ok (h : s.pass p host o = .ok (e, s')) :
    e = s.console.readEntry.1 ∧ s'.console = s.console.readEntry.2 ∧
      ∃ response, s.client.turn p host (e.command o.unset) response = .ok s'.client ∧
        ∀ r, s.client.request p (e.command o.unset) = some r → r.Builds host ∧
          o.link.response = .ok response ∧
            s.client.answered p response (e.command o.unset) = .ok s'.client := by
  rw [pass] at h
  dsimp only at h
  split at h
  next hrequest =>
    cases h
    refine ⟨rfl, rfl, [], by rw [Client.turn, hrequest], fun r hr => ?_⟩
    rw [hrequest] at hr
    cases hr
  next r hrequest =>
    obtain ⟨_, hopen, h⟩ := bind_ok h
    obtain ⟨m, hm, h⟩ := bind_ok h
    obtain ⟨_, hsend, h⟩ := bind_ok h
    obtain ⟨response, hresponse, h⟩ := bind_ok h
    obtain ⟨client, hclient, h⟩ := bind_ok h
    cases h
    rw [mapError_eq_ok] at hopen hm hsend hresponse hclient
    refine ⟨rfl, rfl, response, ?_, fun r' hr => ?_⟩
    · rw [Client.turn, hrequest]
      dsimp only
      rw [hm, ok_bind, hclient]
    · obtain rfl : r = r' := Option.some.inj (hrequest.symm.trans hr)
      exact ⟨⟨m, hm⟩, Link.response_ok.mpr ⟨hopen, hsend, hresponse⟩, hclient⟩

theorem pass_of_response {r : Request} {response : Str} {c' : Client}
    (hr : s.client.request p (s.console.readEntry.1.command o.unset) = some r)
    (hbuilds : r.Builds host) (hresponse : o.link.response = .ok response)
    (hanswered : s.client.answered p response (s.console.readEntry.1.command o.unset) = .ok c') :
    s.pass p host o = .ok (s.console.readEntry.1, ⟨c', s.console.readEntry.2⟩) := by
  obtain ⟨m, hm⟩ := hbuilds
  obtain ⟨hopen, hsend, hreceive⟩ := Link.response_ok.mp hresponse
  rw [pass]
  dsimp only
  rw [hr]
  simp only [hopen, hm, hsend, hreceive, hanswered, mapError_ok, ok_bind]
  rfl

theorem finishes_iff (h : asksNumber s.console.readLine.1 = false) :
    s.Finishes p host o ↔ ∃ x, s.pass p host o = .ok x := by
  rw [← Console.readEntry_cmd] at h
  have hint := Entry.hasIntId h o.unset
  constructor
  · intro hfinishes
    cases hr : s.client.request p (s.console.readEntry.1.command o.unset) with
    | none =>
      refine ⟨(s.console.readEntry.1, ⟨s.client.idle (s.console.readEntry.1.command o.unset),
        s.console.readEntry.2⟩), ?_⟩
      rw [pass]
      dsimp only
      rw [hr]
    | some r =>
      obtain ⟨hfits, response, hresponse, hlegible⟩ := hfinishes r hr
      obtain ⟨c', hanswered⟩ := (legible_iff (c := s.client)).mp hlegible
      have hbuilds := ((Request.plain hint hr).builds_iff_fits host).mpr hfits
      exact ⟨_, pass_of_response hr hbuilds hresponse hanswered⟩
  · rintro ⟨⟨e, s'⟩, hpass⟩ r hr
    obtain ⟨rfl, -, response, -, hrequest⟩ := pass_ok hpass
    obtain ⟨hbuilds, hresponse, hanswered⟩ := hrequest r hr
    exact ⟨((Request.plain hint hr).builds_iff_fits host).mp hbuilds, response, hresponse,
      (legible_iff (c := s.client)).mpr ⟨_, hanswered⟩⟩

theorem pass_running (h : s.pass p host o = .ok (e, s')) :
    s'.client.running = true ↔ s.client.running = true ∧ s.console.readLine.1 ≠ ascii "exit" := by
  obtain ⟨rfl, -, response, hturn, -⟩ := pass_ok h
  rw [Client.turn_running hturn, Console.readEntry_cmd]

end Session

/-! ## The passes of the loop -/

section Loop

variable {p : Parson} {host : Str} {outside : Nat → Outside} {s s₁ s' : Session} {e : Entry}
  {es : List Entry} {n : Nat}

theorem mainLoop_stopped (h : s.client.running = false) (n : Nat) :
    mainLoop p host n outside s = .ok ([], s) := by
  cases n with
  | zero => rfl
  | succ n => rw [mainLoop, if_neg (by simp [h])]

theorem mainLoop_succ (h : s.client.running = true) :
    mainLoop p host (n + 1) outside s = .ok (es, s') ↔
      ∃ e s₁ es', s.pass p host (outside 0) = .ok (e, s₁) ∧
        mainLoop p host n (fun i => outside (i + 1)) s₁ = .ok (es', s') ∧ es = e :: es' := by
  rw [mainLoop, if_pos h]
  constructor
  · intro hloop
    obtain ⟨⟨e, s₁⟩, hpass, hloop⟩ := bind_ok hloop
    obtain ⟨⟨es', s₂⟩, hrest, hloop⟩ := bind_ok hloop
    cases hloop
    exact ⟨e, s₁, es', hpass, hrest, rfl⟩
  · rintro ⟨e, s₁, es', hpass, hrest, rfl⟩
    rw [hpass, ok_bind]
    dsimp only
    rw [hrest]
    rfl

/-- The client goes through a run on the commands that are read. -/
theorem mainLoop_run {c : Client} {log : List (Client × Client.Exchange)}
    (hrun : Run (Client.Step p host) c log s.client)
    (h : mainLoop p host n outside s = .ok (es, s')) :
    ∃ log', Run (Client.Step p host) c (log ++ log') s'.client ∧
      (log'.map fun x => x.2.command) = es.mapIdx fun i e => e.command (outside i).unset := by
  induction n generalizing outside s es log with
  | zero =>
    cases h
    exact ⟨[], by rwa [List.append_nil], rfl⟩
  | succ n ih =>
    cases hrunning : s.client.running with
    | false =>
      rw [mainLoop_stopped hrunning] at h
      cases h
      exact ⟨[], by rwa [List.append_nil], rfl⟩
    | true =>
      obtain ⟨e, s₁, es', hpass, hrest, rfl⟩ := (mainLoop_succ hrunning).mp h
      obtain ⟨-, -, response, hturn, -⟩ := Session.pass_ok hpass
      have hstep : Client.Step p host s.client ⟨e.command (outside 0).unset, response⟩ s₁.client :=
        ⟨hrunning, hturn⟩
      obtain ⟨log', hrest, hcommands⟩ := ih (hrun.snoc hstep) hrest
      refine ⟨(s.client, ⟨e.command (outside 0).unset, response⟩) :: log', ?_, ?_⟩
      · rwa [List.append_assoc, List.singleton_append] at hrest
      · rw [List.map_cons, hcommands, List.mapIdx_cons]

theorem EveryPass.head {holds : Outside → Session → Prop} (h : EveryPass p host outside s holds)
    (hrun : s.client.running = true) : holds (outside 0) s :=
  h 0 [] s rfl hrun

theorem EveryPass.tail {holds : Outside → Session → Prop} (h : EveryPass p host outside s holds)
    (hrun : s.client.running = true) (hpass : s.pass p host (outside 0) = .ok (e, s₁)) :
    EveryPass p host (fun i => outside (i + 1)) s₁ holds :=
  fun n es s' hloop => h (n + 1) (e :: es) s' ((mainLoop_succ hrun).mpr ⟨e, s₁, es, hpass, hloop, rfl⟩)

@[simp] theorem textPrompts_exit : textPrompts (ascii "exit") = 0 := by decide

theorem Orderly.consumes (hrun : s.client.running = true) (htext : TextOnly p host outside s)
    (hall : EveryPass p host outside s (Session.Finishes p host))
    (h : Orderly 0 (linesOf s.console.stdin)) : Consumes p host outside s := by
  -- Each pass leaves fewer lines.
  induction hn : (linesOf s.console.stdin).length using Nat.strong_induction_on
    generalizing s outside with
  | _ n ih =>
    cases hlines : linesOf s.console.stdin with
    | nil => exact absurd (hlines ▸ h) not_orderly_nil
    | cons line ls =>
      rw [hlines] at h
      have hasks := htext.head hrun
      have hentry := Console.readEntry_of_text hasks
      obtain ⟨⟨e, s₁⟩, hpass⟩ := (Session.finishes_iff hasks).mp (hall.head hrun)
      obtain ⟨rfl, hconsole, -⟩ := Session.pass_ok hpass
      have hgoes := Session.pass_running hpass
      by_cases hexit : line.text = ascii "exit"
      · have hread := (Console.readLine_fits hlines ((orderly_exit hexit).mp h)).1
        have hstop : s₁.client.running = false := by simpa [hread, hexit] using hgoes
        refine ⟨1, _, _, (mainLoop_succ hrun).mpr ⟨_, _, _, hpass, rfl, rfl⟩, hstop, ?_⟩
        rw [hlines, usedLines_exit hexit, hentry, hread, hexit, textPrompts_exit, List.map_singleton,
          hexit]
        rfl
      · obtain ⟨hfits, h⟩ := (orderly_command hexit).mp h
        obtain ⟨hread, hrest⟩ := Console.readLine_fits hlines hfits
        rw [← hread, ← hrest] at h
        obtain ⟨horderly, hvalues, hlength⟩ := Console.readLines_orderly h
        have hcommand : s.console.readLine.1 ≠ ascii "exit" := hread ▸ hexit
        have hfewer : (linesOf s₁.console.stdin).length < n := by
          rw [hrest] at hlength
          rw [← hn, hlines, hconsole, hentry, List.length_cons]
          exact Nat.lt_succ_of_le hlength
        obtain ⟨m, es, s', hloop, hstop, hes⟩ :=
          ih _ hfewer (hgoes.mpr ⟨hrun, hcommand⟩) (htext.tail hrun hpass) (hall.tail hrun hpass)
            (by rw [hconsole, hentry]; exact horderly) rfl
        refine ⟨m + 1, _, s', (mainLoop_succ hrun).mpr ⟨_, _, es, hpass, hloop, rfl⟩, hstop, ?_⟩
        rw [hlines, usedLines_command hexit, List.map_cons, ← hread, ← hrest, hvalues,
          List.flatMap_cons, hes, hconsole, hentry]
        rfl

theorem Consumes.orderly (hrun : s.client.running = true) (htext : TextOnly p host outside s)
    (h : Consumes p host outside s) : Orderly 0 (linesOf s.console.stdin) := by
  obtain ⟨n, es, s', hloop, hstop, hes⟩ := h
  induction n generalizing s outside es with
  | zero =>
    cases hloop
    rw [hrun] at hstop
    cases hstop
  | succ n ih =>
    have hentry := Console.readEntry_of_text (htext.head hrun)
    obtain ⟨e, s₁, es, hpass, hlater, rfl⟩ := (mainLoop_succ hrun).mp hloop
    obtain ⟨rfl, hconsole, -⟩ := Session.pass_ok hpass
    have hgoes := Session.pass_running hpass
    cases hlines : linesOf s.console.stdin with
    | nil =>
      rw [hlines, usedLines_nil] at hes
      cases hes
    | cons line ls =>
      rw [List.flatMap_cons, hentry, Entry.values, List.cons_append] at hes
      have hread : s.console.readLine.1 = line.text := head_of_usedLines (hlines ▸ hes)
      have hfits := Console.fits_of_readLine hlines hread
      by_cases hexit : line.text = ascii "exit"
      · exact (orderly_exit hexit).mpr hfits
      · have hrest := (Console.readLine_fits hlines hfits).2
        rw [hlines, usedLines_command hexit, List.map_cons, ← hrest, ← hread] at hes
        obtain ⟨hvalues, horderly⟩ := Console.orderly_of_readLines (List.cons.inj hes).2
        refine (orderly_command hexit).mpr ⟨hfits, ?_⟩
        rw [← hrest, ← hread]
        refine horderly ?_
        rw [hentry] at hconsole
        have hrun₁ := hgoes.mpr ⟨hrun, hread ▸ hexit⟩
        have hvalues₁ : es.flatMap Entry.values =
            (usedLines 0 (linesOf s₁.console.stdin)).map Line.text := by rw [hconsole, hvalues]
        have horderly₁ := ih hrun₁ (htext.tail hrun hpass) es hlater hvalues₁
        rwa [hconsole] at horderly₁

theorem everyPass_of_invariant {holds : Session → Prop} (hs : holds s)
    (hpass : ∀ i s e s₁, holds s → s.pass p host (outside i) = .ok (e, s₁) → holds s₁) :
    EveryPass p host outside s fun _ s => holds s := by
  intro n
  induction n generalizing s outside with
  | zero =>
    intro es s' hloop _
    cases hloop
    exact hs
  | succ n ih =>
    intro es s' hloop hrun
    cases hrunning : s.client.running with
    | false =>
      rw [mainLoop_stopped hrunning] at hloop
      cases hloop
      exact hs
    | true =>
      obtain ⟨e, s₁, es, hfirst, hrest, rfl⟩ := (mainLoop_succ hrunning).mp hloop
      exact ih (hpass 0 s e s₁ hs hfirst) (fun i => hpass (i + 1)) _ s' hrest hrun

/-- Behind the input every pass has the last line again. -/
theorem mainLoop_exhausted (hrun : s.client.running = true) (hstdin : s.console.stdin = [])
    (hfields : textPrompts s.console.copy = 0) (hnumber : asksNumber s.console.copy = false)
    (hexit : s.console.copy ≠ ascii "exit") (h : mainLoop p host n outside s = .ok (es, s')) :
    es = List.replicate n ⟨s.console.copy, [], none⟩ ∧ s'.client.running = true ∧
      s'.console = s.console := by
  have hread : s.console.readLine = (s.console.copy, s.console) := by
    rw [Console.readLine, Console.fgets, if_pos hstdin]
  have hentry : s.console.readEntry = (⟨s.console.copy, [], none⟩, s.console) := by
    rw [Console.readEntry_of_text (by rw [hread]; exact hnumber), hread, hfields]
    rfl
  induction n generalizing s es outside with
  | zero =>
    cases h
    exact ⟨rfl, hrun, rfl⟩
  | succ n ih =>
    obtain ⟨e, s₁, es, hpass, hrest, rfl⟩ := (mainLoop_succ hrun).mp h
    obtain ⟨rfl, hconsole, -⟩ := Session.pass_ok hpass
    have hrun₁ := (Session.pass_running hpass).mpr ⟨hrun, by rw [hread]; exact hexit⟩
    rw [hentry] at hconsole
    dsimp only at hconsole
    rw [← hconsole] at hstdin hfields hnumber hexit hread hentry
    obtain ⟨rfl, hrunning, hsame⟩ := ih hrun₁ hstdin hfields hnumber hexit hrest hread hentry
    rw [← hconsole, hentry]
    exact ⟨rfl, hrunning, hsame⟩

theorem everyPass_of_stopped (hloop : mainLoop p host n outside s = .ok (es, s'))
    (hstop : s'.client.running = false) : EveryPass p host outside s fun o s =>
      s.console.readEntry.1 ∈ es ∧ ∃ x, s.pass p host o = .ok x := by
  induction n generalizing s outside es with
  | zero =>
    cases hloop
    intro m es s' hloop hrun
    rw [mainLoop_stopped hstop] at hloop
    cases hloop
    rw [hrun] at hstop
    cases hstop
  | succ n ih =>
    intro m es' s'' hloop' hrun''
    cases hrun : s.client.running with
    | false =>
      rw [mainLoop_stopped hrun] at hloop'
      cases hloop'
      rw [hrun''] at hrun
      cases hrun
    | true =>
      obtain ⟨e, s₁, es, hpass, hlater, rfl⟩ := (mainLoop_succ hrun).mp hloop
      cases m with
      | zero =>
        cases hloop'
        obtain ⟨rfl, -⟩ := Session.pass_ok hpass
        exact ⟨List.mem_cons_self, _, hpass⟩
      | succ m =>
        obtain ⟨e', s₂, es', hpass', hloop', rfl⟩ := (mainLoop_succ hrun).mp hloop'
        cases hpass.symm.trans hpass'
        obtain ⟨hmem, hok⟩ := ih hlater m es' s'' hloop' hrun''
        exact ⟨List.mem_cons_of_mem _ hmem, hok⟩

theorem finishes_of_stopped (htext : TextOnly p host outside s)
    (hloop : mainLoop p host n outside s = .ok (es, s')) (hstop : s'.client.running = false) :
    EveryPass p host outside s (Session.Finishes p host) :=
  fun m es' s'' hloop' hrun => (Session.finishes_iff (htext m es' s'' hloop' hrun)).mpr
    (everyPass_of_stopped hloop hstop m es' s'' hloop' hrun).2

theorem textOnly_of_stopped (hloop : mainLoop p host n outside s = .ok (es, s'))
    (hstop : s'.client.running = false) (hes : ∀ e ∈ es, asksNumber e.cmd = false) :
    TextOnly p host outside s := by
  intro m es' s'' hloop' hrun
  rw [← Console.readEntry_cmd]
  exact hes _ (everyPass_of_stopped hloop hstop m es' s'' hloop' hrun).1

variable (c : Console)

/-- The lines of an input are its commands and their fields, and the client stops, exactly if the
command `exit` comes, all lines up to it have a newline, less than 999 bytes and no zero byte, and
every pass up to it is carried through. -/
theorem consumes_iff (h : TextOnly p host outside ⟨.start, c⟩) :
    Consumes p host outside ⟨.start, c⟩ ↔ Orderly 0 (linesOf c.stdin) ∧
      EveryPass p host outside ⟨.start, c⟩ (Session.Finishes p host) := by
  constructor
  · intro hconsumes
    refine ⟨hconsumes.orderly rfl h, ?_⟩
    obtain ⟨n, es, s', hloop, hstop, -⟩ := hconsumes
    exact finishes_of_stopped h hloop hstop
  · rintro ⟨horderly, hall⟩
    exact horderly.consumes rfl h hall

end Loop

def visitInput : Console := ⟨[], ascii "login\nuser\npass\nenter_library\nget_books\nexit\n"⟩

def answer (response : Str) : Outside := ⟨.answers [.bytes response, .bytes []], 0⟩

def noBooks : Outside := answer (ascii "HTTP/1.1 200 OK\r\nContent-Length: 2\r\n\r\n[]")

def visitOutside : Nat → Outside
  | 0 => answer Client.loggingIn.response
  | 1 => answer Client.entering.response
  | _ => noBooks

def visitEntries : List Entry :=
  [⟨ascii "login", [ascii "user", ascii "pass"], none⟩, ⟨ascii "enter_library", [], none⟩,
    ⟨ascii "get_books", [], none⟩, ⟨ascii "exit", [], none⟩]

theorem visit_loop : mainLoop Client.plainParson (ascii "h") 4 visitOutside ⟨.start, visitInput⟩ =
    .ok (visitEntries, ⟨{ Client.entered with running := false }, ⟨ascii "exit\n", []⟩⟩) := by
  decide +kernel

theorem consumes_iff_visit :
    TextOnly Client.plainParson (ascii "h") visitOutside ⟨.start, visitInput⟩ ∧
      Consumes Client.plainParson (ascii "h") visitOutside ⟨.start, visitInput⟩ := by
  have htext := textOnly_of_stopped visit_loop rfl (by decide)
  have hfits : ∀ line ∈ linesOf visitInput.stdin, line.Fits := by decide
  refine ⟨htext, (consumes_iff visitInput htext).mpr ⟨?_, finishes_of_stopped htext visit_loop rfl⟩⟩
  exact ⟨linesOf visitInput.stdin, by decide, hfits⟩

def booksInput : Console := ⟨[], ascii "get_books\n"⟩

def booksState (s : Session) : Prop :=
  s.client = .start ∧ (s.console = booksInput ∨ s.console = ⟨ascii "get_books\n", []⟩)

theorem books_pass {s : Session} (h : booksState s) : asksNumber s.console.readLine.1 = false ∧
    s.pass Client.plainParson (ascii "h") noBooks =
      .ok (⟨ascii "get_books", [], none⟩, ⟨.start, ⟨ascii "get_books\n", []⟩⟩) := by
  obtain ⟨client, console⟩ := s
  obtain ⟨rfl, rfl | rfl⟩ := h
  · decide +kernel
  · decide +kernel

/-- The books are asked for without end. -/
theorem booksInput_repeated :
    TextOnly Client.plainParson (ascii "h") (fun _ => noBooks) ⟨.start, booksInput⟩ ∧
      EveryPass Client.plainParson (ascii "h") (fun _ => noBooks) ⟨.start, booksInput⟩
        (Session.Finishes Client.plainParson (ascii "h")) ∧
      ¬ Consumes Client.plainParson (ascii "h") (fun _ => noBooks) ⟨.start, booksInput⟩ := by
  have hstate : EveryPass Client.plainParson (ascii "h") (fun _ => noBooks) ⟨.start, booksInput⟩
      fun _ s => booksState s := by
    refine everyPass_of_invariant ⟨rfl, .inl rfl⟩ fun i s e s₁ hs hpass => ?_
    cases (books_pass hs).2.symm.trans hpass
    exact ⟨rfl, .inr rfl⟩
  have htext : TextOnly Client.plainParson (ascii "h") (fun _ => noBooks) ⟨.start, booksInput⟩ :=
    fun n es s' hloop hrun => (books_pass (hstate n es s' hloop hrun)).1
  have hnone : untilExit 0 (linesOf booksInput.stdin) = none := by decide
  refine ⟨htext, fun n es s' hloop hrun => ?_, fun h => ?_⟩
  · have hpass := books_pass (hstate n es s' hloop hrun)
    exact (Session.finishes_iff hpass.1).mpr ⟨_, hpass.2⟩
  · obtain ⟨used, hused, -⟩ := h.orderly rfl htext
    rw [hnone] at hused
    cases hused

end PCom.Library
