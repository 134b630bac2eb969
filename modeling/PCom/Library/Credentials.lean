import PCom.Library.Client

/-! Which credentials the requests of a run carry. -/

namespace PCom.Library

open Lib

def Request.firstLine (r : Request) : Str :=
  match r.method with
  | .get => getLine r.url none
  | .delete => deleteLine r.url
  | .post => postLine r.url

/-- The bytes of a request: its arguments show in the header lines `Authorization` and `Cookie`, and
between them are only lines about the content. -/
theorem Request.message_ok {r : Request} {host m : Str} (h : r.message host = .ok m) :
    ∃ content body, (∀ line ∈ content, (ascii "Content-").isPrefixOf line = true) ∧
      m = lines (startLines r.firstLine host r.jwt ++ content ++ cookieLines r.cookies ++ [[]] ++
        body) := by
  rw [message] at h
  rw [firstLine]
  cases hmethod : r.method with
  | get =>
    rw [hmethod] at h
    exact ⟨[], [], by simp, by simpa using computeGetRequest_ok h⟩
  | delete =>
    rw [hmethod] at h
    exact ⟨[], [], by simp, by simpa using computeDeleteRequest_ok h⟩
  | post =>
    rw [hmethod] at h
    obtain ⟨buffer, -, hm⟩ := computePostRequest_ok h
    refine ⟨[ascii "Content-Type: " ++ json, ascii "Content-Length: " ++ decimal buffer.length],
      [buffer], ?_, by simpa using hm⟩
    have hcontent (rest : Str) : (ascii "Content-").isPrefixOf (ascii "Content-" ++ rest) = true := by
      simp
    simp only [List.forall_mem_cons]
    exact ⟨hcontent _, hcontent _, List.forall_mem_nil _⟩

/-- The requests that are built with the cookie, and those that are built with the token. -/
def Command.sendsCookie : Command → Bool
  | .register .. | .login .. => false
  | _ => true

def Command.sendsToken : Command → Bool
  | .getBooks | .getBook _ | .addBook .. | .deleteBook _ => true
  | _ => false

namespace Client

variable {p : Parson} {host : Str}

/-- The cookie that the response to a login has. -/
def newCookie (x : Client × Exchange) : Option Str :=
  match x.2.command with
  | .login .. => (sessionCookie x.2.response).toOption.join
  | _ => none

def newToken (p : Parson) (x : Client × Exchange) : Option (Option Str × Str) :=
  match x.2.command with
  | .enterLibrary => (libraryToken p x.2.response).toOption.join.map fun token => (x.1.cookie, token)
  | _ => none

def succeeded (response : Str) : Bool := (ascii "HTTP/1.1 2").isPrefixOf response

/-- A login that succeeds begins a session, a logout that succeeds ends one, which is the client's
state before it. -/
def sessionChange (x : Client × Exchange) : Option (Option Client) :=
  match x.2.command with
  | .login .. => if succeeded x.2.response then some none else none
  | .logout => if succeeded x.2.response then some (some x.1) else none
  | _ => none

def endedSession (log : List (Client × Exchange)) : Option Client :=
  (Run.latest sessionChange log).join

/-- A request has no credential of a session that was ended, and no token that was obtained under
another cookie than it has. -/
structure FollowsSession (p : Parson) (log : List (Client × Exchange)) (r : Request) : Prop where
  cookie : ∀ c cookie, endedSession log = some c → c.cookie = some cookie →
    r.cookies ≠ some [some cookie]
  jwt : ∀ c jwt, endedSession log = some c → c.jwt = some jwt → r.jwt ≠ some jwt
  token : ∀ cookie jwt, Run.latest (newToken p) log = some (cookie, jwt) → r.jwt = some jwt →
    r.cookies = some [cookie]

theorem request_credentials {c : Client} {command : Command} {r : Request}
    (h : c.request p command = some r) :
    r.cookies = (if command.sendsCookie then some [c.cookie] else none) ∧
      r.jwt = if command.sendsToken then c.jwt else none := by
  cases command with
  | addBook title author genre publisher pageCount =>
    simp only [request] at h
    split at h
    next => cases h
    next =>
      split at h
      next => cases h
      next =>
        cases h
        exact ⟨rfl, rfl⟩
  | exit => cases h
  | unrecognized => cases h
  | _ =>
    cases h
    exact ⟨rfl, rfl⟩

/-- A login replaces the cookie if its response has one, `enter_library` the token; nothing else
replaces either. -/
theorem keep_ok {c c' : Client} {x : Exchange} (h : c.keep p x.response x.command = .ok c') :
    c'.cookie = (newCookie (c, x)).or c.cookie ∧
      c'.jwt = ((newToken p (c, x)).map Prod.snd).or c.jwt := by
  obtain ⟨command, response⟩ := x
  cases command with
  | login username password =>
    obtain ⟨cookie, hcookie, h⟩ := bind_ok h
    cases cookie with
    | none =>
      cases h
      simp [newCookie, newToken, hcookie, Except.toOption]
    | some cookie =>
      cases h
      simp [newCookie, newToken, hcookie, Except.toOption]
  | enterLibrary =>
    obtain ⟨token, htoken, h⟩ := bind_ok h
    cases token with
    | none =>
      cases h
      simp [newCookie, newToken, htoken, Except.toOption]
    | some token =>
      cases h
      simp [newCookie, newToken, htoken, Except.toOption]
  | _ =>
    cases h
    simp [newCookie, newToken]

theorem step_stored {c c' : Client} {x : Exchange} (h : Step p host c x c') :
    c'.cookie = (newCookie (c, x)).or c.cookie ∧
      c'.jwt = ((newToken p (c, x)).map Prod.snd).or c.jwt := by
  obtain ⟨-, h⟩ := h
  rw [turn] at h
  split at h
  next hnone =>
    have hc : c'.cookie = c.cookie ∧ c'.jwt = c.jwt := by
      cases h
      rw [idle]
      split <;> exact ⟨rfl, rfl⟩
    obtain ⟨command, response⟩ := x
    cases command with
    | login | enterLibrary => cases hnone
    | _ => simpa [newCookie, newToken] using hc
  next r _ =>
    obtain ⟨_, -, h⟩ := bind_ok h
    exact keep_ok (answered_ok h).2

/-- The client has the cookie of the last login response that had one, and the token of the last
`enter_library` response that had one. -/
structure Stored (p : Parson) (log : List (Client × Exchange)) (c : Client) : Prop where
  cookie : c.cookie = Run.latest newCookie log
  jwt : c.jwt = (Run.latest (newToken p) log).map Prod.snd

theorem stored {log : List (Client × Exchange)} {c : Client} (hrun : Run (Step p host) start log c) :
    Stored p log c := by
  induction hrun with
  | nil => exact ⟨rfl, rfl⟩
  | snoc hrun hstep ih =>
    obtain ⟨hcookie, hjwt⟩ := step_stored hstep
    refine ⟨?_, ?_⟩
    · rw [hcookie, Run.latest_snoc, ih.cookie]
    · rw [hjwt, Run.latest_snoc, ih.jwt]
      cases newToken p _ <;> simp

/-- A request that is sent after a run: its bytes, where its credentials come from, and when they
are those of the session. -/
structure Sends (p : Parson) (host : Str) (log : List (Client × Exchange)) (command : Command)
    (r : Request) : Prop where
  bytes : ∀ m, r.message host = .ok m → ∃ content body,
    (∀ line ∈ content, (ascii "Content-").isPrefixOf line = true) ∧
      m = lines (startLines r.firstLine host r.jwt ++ content ++ cookieLines r.cookies ++ [[]] ++
        body)
  cookies : r.cookies = if command.sendsCookie then some [Run.latest newCookie log] else none
  jwt : r.jwt = if command.sendsToken then (Run.latest (newToken p) log).map Prod.snd else none
  follows : FollowsSession p log r ↔
    (command.sendsCookie = true → ∀ c cookie, endedSession log = some c → c.cookie = some cookie →
      Run.latest newCookie log ≠ some cookie) ∧
    (command.sendsToken = true → ∀ c jwt, endedSession log = some c → c.jwt = some jwt →
      (Run.latest (newToken p) log).map Prod.snd ≠ some jwt) ∧
    (command.sendsToken = true → ∀ cookie jwt, Run.latest (newToken p) log = some (cookie, jwt) →
      Run.latest newCookie log = cookie)

theorem sendsCookie_of_sendsToken {command : Command} (h : command.sendsToken = true) :
    command.sendsCookie = true := by
  cases command <;> first | rfl | cases h

/-- What a request carries is what the last login and the last `enter_library` gave, whether or not
there was a logout since. -/
theorem sends {log : List (Client × Exchange)} {c : Client} (hrun : Run (Step p host) start log c)
    {command : Command} {r : Request} (hr : c.request p command = some r) :
    Sends p host log command r := by
  obtain ⟨hcookie, hjwt⟩ := stored hrun
  obtain ⟨hcookies, htoken⟩ := request_credentials hr
  rw [hcookie] at hcookies
  rw [hjwt] at htoken
  refine ⟨fun m hm => Request.message_ok hm, hcookies, htoken, fun h => ⟨?_, ?_, ?_⟩, ?_⟩
  · intro hsends c cookie hended hc hlatest
    rw [if_pos hsends, hlatest] at hcookies
    exact h.cookie c cookie hended hc hcookies
  · intro hsends c jwt hended hc hlatest
    rw [if_pos hsends, hlatest] at htoken
    exact h.jwt c jwt hended hc htoken
  · intro hsends cookie jwt hlatest
    rw [if_pos hsends, hlatest] at htoken
    rw [if_pos (sendsCookie_of_sendsToken hsends)] at hcookies
    have := hcookies.symm.trans (h.token cookie jwt hlatest htoken)
    simpa using this
  · rintro ⟨hcookie', hjwt', htoken'⟩
    refine ⟨fun c cookie hended hc heq => ?_, fun c jwt hended hc heq => ?_,
      fun cookie jwt hlatest heq => ?_⟩
    · rw [hcookies] at heq
      split at heq
      next hsends => exact hcookie' hsends c cookie hended hc (by simpa using heq)
      next => cases heq
    · rw [htoken] at heq
      split at heq
      next hsends => exact hjwt' hsends c jwt hended hc heq
      next => cases heq
    · rw [htoken] at heq
      split at heq
      next hsends =>
        rw [hcookies, if_pos (sendsCookie_of_sendsToken hsends), htoken' hsends cookie jwt hlatest]
      next => cases heq

/-- The JSON library on values with nothing to escape, and on the texts of the responses below. -/
def plainParson : Parson where
  serializePretty members :=
    let member : Member → Str
      | .string name value =>
        ascii "    \"" ++ name ++ ascii "\": \"" ++ value ++ ascii "\""
      | .number name value => ascii "    \"" ++ name ++ ascii "\": " ++ intDecimal value
    ascii "\x7b\n" ++ (ascii ",\n").intercalate (members.map member) ++ ascii "\n\x7d"
  reprint text :=
    if text = ascii "\x7b\"token\":\"t\"\x7d" then
      some (ascii "\x7b\n    \"token\": \"t\"\n\x7d")
    else if text = ascii "[]" then some (ascii "[]")
    else none
  getString text name :=
    if text = ascii "\x7b\"token\":\"t\"\x7d" ∧ name = ascii "token" then some (some (ascii "t"))
    else none

def loggingIn : Exchange := ⟨.login (ascii "u") (ascii "p"),
  ascii "HTTP/1.1 200 OK\r\nSet-Cookie: connect.sid=a; Path=/\r\n\r\n"⟩

def entering : Exchange :=
  ⟨.enterLibrary, ascii "HTTP/1.1 200 OK\r\n\r\n\x7b\"token\":\"t\"\x7d"⟩

def leaving : Exchange := ⟨.logout, ascii "HTTP/1.1 200 OK\r\n\r\n"⟩

def loggedIn : Client := ⟨true, some (ascii "connect.sid=a"), none⟩

def entered : Client := ⟨true, some (ascii "connect.sid=a"), some (ascii "t")⟩

def leavingLog : List (Client × Exchange) :=
  [(start, loggingIn), (loggedIn, entering), (entered, leaving)]

theorem leavingLog_run : Run (Step plainParson (ascii "h")) start leavingLog entered := by
  have hlogin : Step plainParson (ascii "h") start loggingIn loggedIn := ⟨rfl, by decide +kernel⟩
  have henter : Step plainParson (ascii "h") loggedIn entering entered := ⟨rfl, by decide +kernel⟩
  have hleave : Step plainParson (ascii "h") entered leaving entered := ⟨rfl, by decide +kernel⟩
  exact ((Run.nil.snoc hlogin).snoc henter).snoc hleave

def booksRequest : Request :=
  ⟨.get, booksPath, none, some [some (ascii "connect.sid=a")], some (ascii "t")⟩

theorem sends_getBooks : Run (Step plainParson (ascii "h")) start leavingLog entered ∧
    entered.request plainParson .getBooks = some booksRequest ∧
    Sends plainParson (ascii "h") leavingLog .getBooks booksRequest :=
  ⟨leavingLog_run, rfl, sends leavingLog_run rfl⟩

/-- The request for the books still has the cookie of the session that was ended. -/
theorem getBooks_after_logout : Run (Step plainParson (ascii "h")) start leavingLog entered ∧
    entered.request plainParson .getBooks = some booksRequest ∧
    endedSession leavingLog = some entered ∧
    ¬ FollowsSession plainParson leavingLog booksRequest := by
  have hended : endedSession leavingLog = some entered := by decide +kernel
  exact ⟨leavingLog_run, rfl, hended, fun h => h.cookie entered _ hended rfl rfl⟩

def loggingInAgain : Exchange := ⟨.login (ascii "v") (ascii "q"),
  ascii "HTTP/1.1 200 OK\r\nSet-Cookie: connect.sid=b; Path=/\r\n\r\n"⟩

def replaced : Client := ⟨true, some (ascii "connect.sid=b"), some (ascii "t")⟩

def returningLog : List (Client × Exchange) := leavingLog ++ [(entered, loggingInAgain)]

theorem getBooks_after_login :
    Run (Step plainParson (ascii "h")) start returningLog replaced ∧
      endedSession returningLog = none ∧
      ∃ r, replaced.request plainParson .getBooks = some r ∧
        ¬ FollowsSession plainParson returningLog r := by
  have hstep : Step plainParson (ascii "h") entered loggingInAgain replaced :=
    ⟨rfl, by decide +kernel⟩
  have hended : endedSession returningLog = none := by decide +kernel
  have htoken : Run.latest (newToken plainParson) returningLog =
      some (some (ascii "connect.sid=a"), ascii "t") := by decide +kernel
  refine ⟨leavingLog_run.snoc hstep, hended, _, rfl, fun h => ?_⟩
  have hcookies := h.token _ _ htoken rfl
  exact absurd hcookies (by decide)

end Client

end PCom.Library
