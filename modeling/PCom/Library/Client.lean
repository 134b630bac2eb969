import PCom.Library.Requests

/-! The loop of `client.c`, one command at a time, with the JSON library as a parameter.  A response is
what the string functions see of it: it ends at the first zero that was received. -/

namespace PCom.Library

open Lib

inductive Member
  | string (name value : Str)
  | number (name : Str) (value : Int)
  deriving DecidableEq

/-- What the client uses of the JSON library: `json_serialize_to_string_pretty` on an object with
these members, and on what `json_parse_string` gives, where `none` is `NULL`; and a look at a member
of the object that is parsed: `none` if there is no such member, `some none` if it is no string. -/
structure Parson where
  serializePretty : List Member → Str
  reprint : Str → Option Str
  getString : Str → Str → Option (Option Str)

/-- A command with what its prompts read.  `id` has some value also if there was no number to read,
`pageCount` is `none` then. -/
inductive Command
  | register (username password : Str)
  | login (username password : Str)
  | enterLibrary
  | getBooks
  | getBook (id : Int)
  | addBook (title author genre publisher : Str) (pageCount : Option Int)
  | deleteBook (id : Int)
  | logout
  | exit
  | unrecognized
  deriving DecidableEq

inductive Method
  | get | delete | post
  deriving DecidableEq

structure Request where
  method : Method
  url : Str
  bodyData : Option (List Str)
  cookies : Option (List (Option Str))
  jwt : Option Str
  deriving DecidableEq

/-- `cookies[0]` and `jwt`, where `none` is `NULL`. -/
structure Client where
  running : Bool
  cookie : Option Str
  jwt : Option Str
  deriving DecidableEq

def registerPath : Str := ascii "/api/v1/tema/auth/register"
def loginPath : Str := ascii "/api/v1/tema/auth/login"
def accessPath : Str := ascii "/api/v1/tema/library/access"
def booksPath : Str := ascii "/api/v1/tema/library/books"
def logoutPath : Str := ascii "/api/v1/tema/auth/logout"
def json : Str := ascii "application/json"

def bookPath (id : Int) : Str := booksPath ++ ascii "/" ++ intDecimal id

def Request.message (host : Str) (r : Request) : Except Fault Str :=
  match r.method with
  | .get => computeGetRequest host r.url none r.cookies r.jwt
  | .delete => computeDeleteRequest host r.url r.cookies r.jwt
  | .post => computePostRequest host r.url json r.bodyData r.cookies r.jwt

def basicExtractJsonResponse (str : Str) : Option Str := strstr (ascii "\x7b\"") str

def basicExtractJsonArrayResponse (str : Str) : Option Str :=
  match strstr (ascii "[\x7b\"") str with
  | some array => some array
  | none => strstr (ascii "[]") str

/-- What is printed of a response, and the text in it that is parsed and printed. -/
inductive Shown
  | badResponse
  | status (line : Str) (text : Option Str)
  deriving DecidableEq

/-- `%.*s` with the difference of two lengths, which prints everything if that is negative. -/
def statusLine (response lineEnd : Str) : Str :=
  let text := response.drop 9
  if lineEnd.length ≤ text.length then text.take (text.length - lineEnd.length) else text

def printResponse (response : Str) : Except Fault Shown :=
  if (ascii "HTTP/1.1").isPrefixOf response then
    match strstr crlf response with
    | none => .error .nullPointer
    | some lineEnd =>
      let text := match basicExtractJsonArrayResponse response with
        | some array => some array
        | none => basicExtractJsonResponse response
      .ok (.status (statusLine response lineEnd) text)
  else .ok .badResponse

/-- `printf("%s\n", ..)` with what the text is printed as, which for `NULL` is a call of `puts`. -/
def Shown.print (p : Parson) : Shown → Except Fault Unit
  | .status _ (some text) =>
    match p.reprint text with
    | some _ => .ok ()
    | none => .error .nullPointer
  | _ => .ok ()

/-- The cookie that `login` takes out of a response, if it finds one.  The size that `snprintf`
gets is computed without a sign. -/
def sessionCookie (response : Str) : Except Fault (Option Str) :=
  match strstr (ascii "Set-Cookie: connect.sid=") response with
  | none => .ok none
  | some param =>
    match strstr (ascii "; Path") response with
    | none => .error .nullPointer
    | some cookie =>
      let value := param.drop (ascii "Set-Cookie: ").length
      let size := ((value.length : Int) - cookie.length + 1) % 2 ^ 64
      let copied := value.take (size.toNat - 1)
      if copied.length < lineLen then .ok (some copied) else .error .overflow

/-- The token that `enter_library` takes out of a response. -/
def libraryToken (p : Parson) (response : Str) : Except Fault (Option Str) :=
  match basicExtractJsonResponse response with
  | none => .ok none
  | some content =>
    match p.getString content (ascii "token") with
    | none => .ok none
    | some none => .error .nullPointer
    | some (some token) => .ok (some token)

namespace Client

def start : Client := ⟨true, none, none⟩

def request (p : Parson) (c : Client) : Command → Option Request
  | .register username password =>
    let payload := p.serializePretty [.string (ascii "username") username,
      .string (ascii "password") password]
    some ⟨.post, registerPath, some [payload], none, none⟩
  | .login username password =>
    let payload := p.serializePretty [.string (ascii "username") username,
      .string (ascii "password") password]
    some ⟨.post, loginPath, some [payload], none, none⟩
  | .enterLibrary => some ⟨.get, accessPath, none, some [c.cookie], none⟩
  | .getBooks => some ⟨.get, booksPath, none, some [c.cookie], c.jwt⟩
  | .getBook id => some ⟨.get, bookPath id, none, some [c.cookie], c.jwt⟩
  | .addBook title author genre publisher pageCount =>
    match pageCount with
    | none => none
    | some pageCount =>
      if pageCount < 0 then none
      else
        let payload := p.serializePretty [.string (ascii "title") title,
          .string (ascii "author") author, .string (ascii "genre") genre,
          .number (ascii "page_count") pageCount, .string (ascii "publisher") publisher]
        some ⟨.post, booksPath, some [payload], some [c.cookie], c.jwt⟩
  | .deleteBook id => some ⟨.delete, bookPath id, none, some [c.cookie], c.jwt⟩
  | .logout => some ⟨.get, logoutPath, none, some [c.cookie], none⟩
  | .exit => none
  | .unrecognized => none

def keep (p : Parson) (c : Client) (response : Str) : Command → Except Fault Client
  | .login _ _ => do
    match ← sessionCookie response with
    | none => return c
    | some cookie => return { c with cookie := some cookie }
  | .enterLibrary => do
    match ← libraryToken p response with
    | none => return c
    | some token => return { c with jwt := some token }
  | _ => .ok c

def idle (c : Client) (command : Command) : Client :=
  if command = .exit then { c with running := false } else c

def answered (p : Parson) (c : Client) (response : Str) (command : Command) :
    Except Fault Client := do
  let shown ← printResponse response
  shown.print p
  c.keep p response command

/-- One pass of the `while`; the response is there if the command makes a request. -/
def turn (p : Parson) (host : Str) (c : Client) (command : Command) (response : Str) :
    Except Fault Client :=
  match c.request p command with
  | none => .ok (c.idle command)
  | some r => do
    let _ ← r.message host
    c.answered p response command

/-- A command, and the C string that the server answers: a zero byte ends what is searched. -/
structure Exchange where
  command : Command
  response : Str

def Step (p : Parson) (host : Str) (c : Client) (x : Exchange) (c' : Client) : Prop :=
  c.running = true ∧ c.turn p host x.command x.response = .ok c'

theorem answered_ok {p : Parson} {c c' : Client} {response : Str} {command : Command}
    (h : c.answered p response command = .ok c') :
    (∃ shown, printResponse response = .ok shown ∧ shown.print p = .ok ()) ∧
      c.keep p response command = .ok c' := by
  obtain ⟨shown, hshown, h⟩ := bind_ok h
  obtain ⟨_, hprint, h⟩ := bind_ok h
  exact ⟨⟨shown, hshown, hprint⟩, h⟩

end Client

end PCom.Library
