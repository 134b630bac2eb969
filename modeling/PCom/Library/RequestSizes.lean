import Mathlib.Algebra.Order.BigOperators.Group.List
import PCom.Library.Buffer
import PCom.Library.Credentials

/-! Which requests fit the buffers of their builders. -/

namespace PCom.Library

open Lib

/-- No line, no body and no message is written past its buffer. -/
def Request.Builds (host : Str) (r : Request) : Prop := ∃ m, r.message host = .ok m

def jwtSize (jwt : Option Str) : Nat := jwt.elim 0 fun jwt => jwt.length + 24

def cookiesSize : Option (List (Option Str)) → Nat
  | some [cookie] => (printed cookie).length + 12
  | _ => 0

/-- The lengths for which a request fits: those of the host, the credentials and the body, and of
all that a message with a body consists of. -/
structure Request.Fits (host : Str) (r : Request) : Prop where
  host_lt : host.length < 994
  jwt_lt : ∀ jwt, r.jwt = some jwt → jwt.length < 978
  cookie_lt : ∀ cookie, r.cookies = some [cookie] → (printed cookie).length < 990
  payload_lt : ∀ payload, r.bodyData = some [payload] → payload.length < 999
  message_lt : ∀ payload, r.bodyData = some [payload] →
    r.firstLine.length + host.length + jwtSize r.jwt + cookiesSize r.cookies + payload.length +
      (decimal payload.length).length + 64 < bufLen

def Command.HasIntId : Command → Prop
  | .getBook id | .deleteBook id => IsInt id
  | _ => True

/-! ## Lines in a message -/

theorem addLine_eq (message line : Str) : addLine message line =
    if line.length < lineLen ∧ (message ++ line ++ crlf).length < bufLen then
      .ok (message ++ line ++ crlf)
    else .error .overflow := by
  rw [addLine, sprintf]
  by_cases hline : line.length < lineLen
  · rw [if_pos hline]
    simp only [hline, true_and]
    rfl
  · rw [if_neg hline, if_neg fun h => hline h.1]
    rfl

theorem foldlM_addLine_iff {ls : List Str} {message : Str} (h : message.length < bufLen) :
    (∃ m, ls.foldlM addLine message = .ok m) ↔
      (∀ line ∈ ls, line.length < lineLen) ∧ (message ++ lines ls).length < bufLen := by
  induction ls generalizing message with
  | nil => simpa [lines, pure_eq_ok] using h
  | cons line ls ih =>
    have hlines : message ++ lines (line :: ls) = message ++ line ++ crlf ++ lines ls := by
      simp [lines]
    rw [List.foldlM_cons, addLine_eq, hlines, List.forall_mem_cons]
    by_cases hfits : line.length < lineLen ∧ (message ++ line ++ crlf).length < bufLen
    · have hrest := ih hfits.2
      rw [if_pos hfits]
      simp only [hfits.1, true_and]
      exact hrest
    · rw [if_neg hfits]
      refine iff_of_false ?_ ?_
      · rintro ⟨m, hm⟩
        cases hm
      · rintro ⟨⟨hline, -⟩, hlen⟩
        refine hfits ⟨hline, ?_⟩
        rw [List.length_append] at hlen
        omega

theorem addStart_eq (requestLine host : Str) (jwt : Option Str) :
    addStart requestLine host jwt = (startLines requestLine host jwt).foldlM addLine [] := by
  cases jwt with
  | none => simp [addStart, startLines]
  | some jwt => simp [addStart, startLines]

theorem computeMessage_nil (message : Str) : computeMessage message [] = addLine message [] := by
  rw [addLine_eq, computeMessage]
  simp [lineLen]

theorem computeMessage_of_short {line : Str} (h : line.length < lineLen) (message : Str) :
    computeMessage message line = addLine message line := by
  rw [addLine_eq, computeMessage]
  simp only [h, true_and]

@[simp] theorem addCookies_none (message : Str) :
    addCookies message none = (cookieLines none).foldlM addLine message := rfl

@[simp] theorem addCookies_singleton (message : Str) (cookie : Option Str) :
    addCookies message (some [cookie]) = (cookieLines (some [cookie])).foldlM addLine message := by
  simp [addCookies, cookieLines, cookieLine, addLine]

theorem bodyDataBuffer_singleton (payload : Str) : bodyDataBuffer (some [payload]) =
    if payload.length + 1 < lineLen then .ok payload else .error .overflow := by
  have hlength : ([] ++ payload ++ ascii "&").length = payload.length + 1 := by
    rw [List.nil_append, List.length_append]
    rfl
  have hne : [] ++ payload ++ ascii "&" ≠ [] := List.append_ne_nil_of_right_ne_nil _ (by decide)
  rw [bodyDataBuffer, List.foldlM_cons, sprintf, hlength]
  by_cases h : payload.length + 1 < lineLen
  · rw [if_pos h, if_pos h]
    simp [pure_eq_ok, ascii]
  · rw [if_neg h, if_neg h]
    rfl

/-- Whether lines fit, as one message. -/
def Fit (ls : List Str) : Prop :=
  (∀ line ∈ ls, line.length < lineLen) ∧ (lines ls).length < bufLen

theorem fit_iff (ls : List Str) : (∃ m, ls.foldlM addLine [] = .ok m) ↔ Fit ls :=
  foldlM_addLine_iff (by decide)

def AtMostOne (cookies : Option (List (Option Str))) : Prop :=
  cookies = none ∨ ∃ cookie, cookies = some [cookie]

theorem addCookies_eq {cookies : Option (List (Option Str))} (h : AtMostOne cookies)
    (message : Str) : addCookies message cookies = (cookieLines cookies).foldlM addLine message := by
  rcases h with rfl | ⟨cookie, rfl⟩
  · exact addCookies_none message
  · exact addCookies_singleton message cookie

theorem computeGetRequest_eq {host url : Str} {cookies : Option (List (Option Str))}
    {jwt : Option Str} (h : AtMostOne cookies) :
    computeGetRequest host url none cookies jwt =
      (startLines (getLine url none) host jwt ++ cookieLines cookies ++ [[]]).foldlM addLine [] := by
  rw [computeGetRequest, addStart_eq, List.foldlM_append, List.foldlM_append, bind_assoc]
  simp only [addCookies_eq h, computeMessage_nil, List.foldlM_cons, List.foldlM_nil, bind_pure]

theorem computeDeleteRequest_eq {host url : Str} {cookies : Option (List (Option Str))}
    {jwt : Option Str} (h : AtMostOne cookies) :
    computeDeleteRequest host url cookies jwt =
      (startLines (deleteLine url) host jwt ++ cookieLines cookies ++ [[]]).foldlM addLine [] := by
  rw [computeDeleteRequest, addStart_eq, List.foldlM_append, List.foldlM_append, bind_assoc]
  simp only [addCookies_eq h, computeMessage_nil, List.foldlM_cons, List.foldlM_nil, bind_pure]

def contentLines (contentType payload : Str) : List Str :=
  [ascii "Content-Type: " ++ contentType, ascii "Content-Length: " ++ decimal payload.length]

theorem computePostRequest_eq {host url contentType payload : Str}
    {cookies : Option (List (Option Str))} {jwt : Option Str} (h : AtMostOne cookies)
    (hpayload : payload.length + 1 < lineLen) :
    computePostRequest host url contentType (some [payload]) cookies jwt =
      (startLines (postLine url) host jwt ++ contentLines contentType payload ++ cookieLines cookies ++
        [[]] ++ [payload]).foldlM addLine [] := by
  have hshort : payload.length < lineLen := Nat.lt_of_succ_lt hpayload
  have hbuffer : bodyDataBuffer (some [payload]) = .ok payload := by
    rw [bodyDataBuffer_singleton, if_pos hpayload]
  have hok (f : Str → Except Fault Str) : (Except.ok payload >>= f) = f payload := rfl
  rw [computePostRequest, addStart_eq, hbuffer]
  simp only [hok, addCookies_eq h, computeMessage_nil, computeMessage_of_short hshort, contentLines,
    List.foldlM_append, List.foldlM_cons, List.foldlM_nil, bind_pure, bind_assoc]

theorem length_payload_of_builds {host url contentType payload m : Str}
    {cookies : Option (List (Option Str))} {jwt : Option Str}
    (h : computePostRequest host url contentType (some [payload]) cookies jwt = .ok m) :
    payload.length + 1 < lineLen := by
  obtain ⟨buffer, hbuffer, -⟩ := computePostRequest_ok h
  rw [bodyDataBuffer_singleton] at hbuffer
  split at hbuffer
  next hlt => exact hlt
  next => cases hbuffer

/-! ## Lengths -/

theorem length_decimal_le {n k : Nat} (hk : 0 < k) (hn : n < 10 ^ k) : (decimal n).length ≤ k := by
  rw [decimal, List.length_map]
  exact (Nat.length_toDigits_le_iff (by decide) hk).mpr hn

theorem length_intDecimal_le {n : Int} (h : IsInt n) : (intDecimal n).length ≤ 11 := by
  obtain ⟨hlo, hhi⟩ := h
  cases n with
  | ofNat n =>
    have hlt : (n : Int) < 2 ^ 31 := hhi
    exact (@length_decimal_le n 10 (by decide) (by omega)).trans (by decide)
  | negSucc n =>
    have hdecimal := @length_decimal_le (n + 1) 10 (by decide) (by omega)
    rw [intDecimal, List.length_append]
    have hsign : (ascii "-").length = 1 := rfl
    omega

structure Request.Plain (r : Request) : Prop where
  url_le : r.url.length ≤ 38
  cookies : AtMostOne r.cookies
  body : if r.method = .post then ∃ payload, r.bodyData = some [payload] else r.bodyData = none

theorem length_bookPath_le {id : Int} (h : IsInt id) : (bookPath id).length ≤ 38 := by
  have hid := length_intDecimal_le h
  have hbooks : (booksPath ++ ascii "/").length = 27 := by decide
  rw [bookPath, List.length_append, hbooks]
  omega

theorem Request.plain {p : Parson} {c : Client} {command : Command} {r : Request}
    (hint : command.HasIntId) (hr : c.request p command = some r) : r.Plain := by
  have hcookies : AtMostOne r.cookies := by
    rw [(Client.request_credentials hr).1]
    split
    · exact .inr ⟨_, rfl⟩
    · exact .inl rfl
  cases command with
  | register username password =>
    cases hr
    exact ⟨(by decide : registerPath.length ≤ 38), hcookies, ⟨_, rfl⟩⟩
  | login username password =>
    cases hr
    exact ⟨(by decide : loginPath.length ≤ 38), hcookies, ⟨_, rfl⟩⟩
  | enterLibrary =>
    cases hr
    exact ⟨(by decide : accessPath.length ≤ 38), hcookies, rfl⟩
  | getBooks =>
    cases hr
    exact ⟨(by decide : booksPath.length ≤ 38), hcookies, rfl⟩
  | logout =>
    cases hr
    exact ⟨(by decide : logoutPath.length ≤ 38), hcookies, rfl⟩
  | getBook id | deleteBook id =>
    cases hr
    exact ⟨length_bookPath_le hint, hcookies, rfl⟩
  | addBook title author genre publisher pageCount =>
    simp only [Client.request] at hr
    split at hr
    next => cases hr
    next =>
      split at hr
      next => cases hr
      next =>
        cases hr
        exact ⟨(by decide : booksPath.length ≤ 38), hcookies, ⟨_, rfl⟩⟩
  | exit | unrecognized => cases hr

theorem Request.Plain.firstLine_lt {r : Request} (h : r.Plain) : r.firstLine.length < 60 := by
  have hurl := h.url_le
  have hget : (ascii "GET ").length = 4 := rfl
  have hdelete : (ascii "DELETE ").length = 7 := rfl
  have hpost : (ascii "POST ").length = 5 := rfl
  have hversion : (ascii " HTTP/1.1").length = 9 := rfl
  rw [firstLine]
  cases r.method with
  | get =>
    rw [getLine, List.length_append, List.length_append]
    omega
  | delete =>
    rw [deleteLine, List.length_append, List.length_append]
    omega
  | post =>
    rw [postLine, List.length_append, List.length_append]
    omega

def Request.lines (host : Str) (r : Request) : List Str :=
  match r.bodyData with
  | some [payload] =>
    startLines r.firstLine host r.jwt ++ contentLines json payload ++ cookieLines r.cookies ++ [[]] ++
      [payload]
  | _ => startLines r.firstLine host r.jwt ++ cookieLines r.cookies ++ [[]]

theorem Request.Plain.builds_iff {r : Request} (h : r.Plain) (host : Str) : r.Builds host ↔
    Fit (r.lines host) ∧ ∀ payload, r.bodyData = some [payload] → payload.length + 1 < lineLen := by
  obtain ⟨-, hcookies, hbody⟩ := h
  obtain ⟨method, url, bodyData, cookies, jwt⟩ := r
  cases method with
  | get =>
    obtain rfl : bodyData = none := hbody
    rw [← fit_iff, Request.Builds, Request.message, computeGetRequest_eq hcookies]
    simp [Request.lines, Request.firstLine]
  | delete =>
    obtain rfl : bodyData = none := hbody
    rw [← fit_iff, Request.Builds, Request.message, computeDeleteRequest_eq hcookies]
    simp [Request.lines, Request.firstLine]
  | post =>
    obtain ⟨payload, rfl⟩ : ∃ payload, bodyData = some [payload] := hbody
    rw [← fit_iff, Request.Builds, Request.message]
    by_cases hpayload : payload.length + 1 < lineLen
    · rw [computePostRequest_eq hcookies hpayload]
      simp [Request.lines, Request.firstLine, hpayload]
    · refine iff_of_false ?_ ?_
      · rintro ⟨m, hm⟩
        exact hpayload (length_payload_of_builds hm)
      · rintro ⟨-, hall⟩
        exact hpayload (hall payload rfl)

/-! ## Which requests fit -/

@[simp] theorem length_cookieLine (cookie : Option Str) :
    (cookieLine [cookie]).length = (printed cookie).length + 10 := by
  have hname : (ascii "Cookie: ").length = 8 := rfl
  have hend : (ascii "; ").length = 2 := rfl
  rw [cookieLine, List.flatMap_singleton, List.length_append, List.length_append]
  omega

@[simp] theorem length_lines_append (ls : List Str) (ls' : List Str) :
    (Lib.lines (ls ++ ls')).length = (Lib.lines ls).length + (Lib.lines ls').length := by
  rw [Lib.lines, List.flatMap_append, List.length_append]
  rfl

@[simp] theorem length_lines_cons (line : Str) (ls : List Str) :
    (Lib.lines (line :: ls)).length = line.length + 2 + (Lib.lines ls).length := by
  rw [Lib.lines, List.flatMap_cons, List.length_append, List.length_append]
  rfl

@[simp] theorem length_startLines (requestLine host : Str) (jwt : Option Str) :
    (Lib.lines (startLines requestLine host jwt)).length =
      requestLine.length + host.length + jwtSize jwt + 10 := by
  have hhost : (ascii "Host: ").length = 6 := rfl
  have hjwt : (ascii "Authorization: Bearer ").length = 22 := rfl
  have hempty : (Lib.lines []).length = 0 := rfl
  rw [startLines, length_lines_append, length_lines_cons, length_lines_cons, List.length_append,
    hhost, hempty]
  cases jwt with
  | none =>
    rw [jwtSize, Option.toList_none, List.map_nil, hempty, Option.elim_none]
    omega
  | some jwt =>
    rw [jwtSize, Option.toList_some, List.map_singleton, length_lines_cons, List.length_append, hjwt,
      hempty, Option.elim_some]
    omega

theorem startLines_short_iff {requestLine host : Str} {jwt : Option Str} :
    (∀ line ∈ startLines requestLine host jwt, line.length < lineLen) ↔
      requestLine.length < 1000 ∧ host.length < 994 ∧ ∀ token, jwt = some token → token.length < 978 := by
  have hhost : (ascii "Host: ").length = 6 := rfl
  have hjwt : (ascii "Authorization: Bearer ").length = 22 := rfl
  rw [startLines, List.cons_append, List.cons_append, List.nil_append, List.forall_mem_cons,
    List.forall_mem_cons, List.length_append, hhost, lineLen]
  refine and_congr_right' (and_congr (by omega) ?_)
  cases jwt with
  | none => simp
  | some jwt =>
    simp only [Option.toList_some, List.map_singleton, List.forall_mem_singleton, List.length_append,
      hjwt, Option.some.injEq, forall_eq']
    omega

theorem length_cookieLines {cookies : Option (List (Option Str))} (h : AtMostOne cookies) :
    (Lib.lines (cookieLines cookies)).length = cookiesSize cookies := by
  rcases h with rfl | ⟨cookie, rfl⟩
  · rfl
  · have hempty : (Lib.lines []).length = 0 := rfl
    rw [cookieLines, Option.toList_some, List.map_singleton, length_lines_cons, length_cookieLine,
      hempty]
    rfl

theorem cookieLines_short_iff {cookies : Option (List (Option Str))} (h : AtMostOne cookies) :
    (∀ line ∈ cookieLines cookies, line.length < lineLen) ↔
      ∀ cookie, cookies = some [cookie] → (printed cookie).length < 990 := by
  rcases h with rfl | ⟨cookie, rfl⟩
  · simp [cookieLines]
  · rw [cookieLines, Option.toList_some, List.map_singleton, List.forall_mem_singleton,
      length_cookieLine, lineLen]
    simp only [Option.some.injEq, List.cons.injEq, and_true, forall_eq']
    omega

theorem jwtSize_le {jwt : Option Str} (h : ∀ token, jwt = some token → token.length < 978) :
    jwtSize jwt ≤ 1001 := by
  cases jwt with
  | none => exact Nat.zero_le _
  | some jwt =>
    have hlt := h jwt rfl
    rw [jwtSize, Option.elim_some]
    omega

theorem cookiesSize_le {cookies : Option (List (Option Str))} (h : AtMostOne cookies)
    (hlt : ∀ cookie, cookies = some [cookie] → (printed cookie).length < 990) :
    cookiesSize cookies ≤ 1001 := by
  rcases h with rfl | ⟨cookie, rfl⟩
  · exact Nat.zero_le _
  · have hlt := hlt cookie rfl
    rw [cookiesSize]
    omega

theorem fit_head_iff {requestLine host : Str} {jwt : Option Str}
    {cookies : Option (List (Option Str))} {content body : List Str} (h : AtMostOne cookies)
    (hfirst : requestLine.length < 60) :
    Fit (startLines requestLine host jwt ++ content ++ cookieLines cookies ++ [[]] ++ body) ↔
      (host.length < 994 ∧ (∀ token, jwt = some token → token.length < 978) ∧
        ∀ cookie, cookies = some [cookie] → (printed cookie).length < 990) ∧
      (∀ line ∈ content ++ body, line.length < lineLen) ∧
      requestLine.length + host.length + jwtSize jwt + cookiesSize cookies +
        (Lib.lines (content ++ body)).length + 12 < bufLen := by
  have hline : requestLine.length < 1000 := by omega
  have hempty : (Lib.lines [[]]).length = 2 := rfl
  simp only [Fit, List.forall_mem_append, List.forall_mem_singleton, startLines_short_iff,
    cookieLines_short_iff h, length_lines_append, length_startLines, length_cookieLines h, hempty,
    hline, true_and]
  constructor
  · rintro ⟨⟨⟨⟨⟨⟨hhost, hjwt⟩, hcontent⟩, hcookies⟩, -⟩, hbody⟩, hlen⟩
    exact ⟨⟨hhost, hjwt, hcookies⟩, ⟨hcontent, hbody⟩, by omega⟩
  · rintro ⟨⟨hhost, hjwt, hcookies⟩, ⟨hcontent, hbody⟩, hlen⟩
    exact ⟨⟨⟨⟨⟨⟨hhost, hjwt⟩, hcontent⟩, hcookies⟩, Nat.zero_lt_succ _⟩, hbody⟩, by omega⟩

theorem content_short_iff {payload : Str} :
    (∀ line ∈ contentLines json payload ++ [payload], line.length < lineLen) ∧
      payload.length + 1 < lineLen ↔ payload.length < 999 := by
  have hjson : (ascii "Content-Type: " ++ json).length < 1000 := by decide
  have hlength : (ascii "Content-Length: " ++ decimal payload.length).length =
      16 + (decimal payload.length).length := List.length_append
  rw [contentLines, List.cons_append, List.cons_append, List.nil_append, List.forall_mem_cons,
    List.forall_mem_cons, List.forall_mem_singleton, hlength, lineLen]
  constructor
  · rintro ⟨-, h⟩
    omega
  · intro h
    have hdecimal := @length_decimal_le payload.length 3 (by decide) (by omega)
    exact ⟨⟨hjson, by omega, by omega⟩, by omega⟩

@[simp] theorem length_content (payload : Str) :
    (Lib.lines (contentLines json payload ++ [payload])).length =
      payload.length + (decimal payload.length).length + 52 := by
  have hjson : (ascii "Content-Type: " ++ json).length = 30 := rfl
  have hname : (ascii "Content-Length: ").length = 16 := rfl
  have hempty : (Lib.lines []).length = 0 := rfl
  rw [contentLines, List.cons_append, List.cons_append, List.nil_append, length_lines_cons,
    length_lines_cons, length_lines_cons, hjson, List.length_append, hname, hempty]
  omega

theorem Request.Plain.body_cases {r : Request} (h : r.Plain) :
    r.bodyData = none ∨ ∃ payload, r.bodyData = some [payload] := by
  have hbody := h.body
  split at hbody
  next => exact .inr hbody
  next => exact .inl hbody

/-- A request of the client is built exactly if its parts have the lengths for it. -/
theorem Request.Plain.builds_iff_fits {r : Request} (h : r.Plain) (host : Str) :
    r.Builds host ↔ r.Fits host := by
  have hfirst := h.firstLine_lt
  rw [h.builds_iff, Request.lines]
  rcases h.body_cases with hbody | ⟨payload, hbody⟩
  · have hshape : startLines r.firstLine host r.jwt ++ cookieLines r.cookies ++ [[]] =
        startLines r.firstLine host r.jwt ++ [] ++ cookieLines r.cookies ++ [[]] ++ [] := by
      simp
    simp only [hbody]
    rw [hshape, fit_head_iff h.cookies hfirst]
    constructor
    · rintro ⟨⟨⟨hhost, hjwt, hcookie⟩, -⟩, -⟩
      exact ⟨hhost, hjwt, hcookie, by simp [hbody], by simp [hbody]⟩
    · intro hfits
      have hjwt := jwtSize_le hfits.jwt_lt
      have hcookies := cookiesSize_le h.cookies hfits.cookie_lt
      have hhost := hfits.host_lt
      have hempty : (Lib.lines ([] ++ [])).length = 0 := rfl
      refine ⟨⟨⟨hhost, hfits.jwt_lt, hfits.cookie_lt⟩, by simp, ?_⟩, by simp⟩
      rw [hempty, bufLen]
      omega
  · simp only [hbody]
    rw [fit_head_iff h.cookies hfirst, length_content]
    constructor
    · rintro ⟨⟨⟨hhost, hjwt, hcookie⟩, hcontent, hlen⟩, hpayload⟩
      have hlt := content_short_iff.mp ⟨hcontent, hpayload payload rfl⟩
      refine ⟨hhost, hjwt, hcookie, ?_, ?_⟩
      · rintro payload' h'
        obtain rfl : payload = payload' := by simpa [hbody] using h'
        exact hlt
      · rintro payload' h'
        obtain rfl : payload = payload' := by simpa [hbody] using h'
        omega
    · intro hfits
      obtain ⟨hcontent, hpayload⟩ := content_short_iff.mpr (hfits.payload_lt payload hbody)
      have hlen := hfits.message_lt payload hbody
      refine ⟨⟨⟨hfits.host_lt, hfits.jwt_lt, hfits.cookie_lt⟩, hcontent, by omega⟩, ?_⟩
      rintro payload' h'
      obtain rfl : payload = payload' := by simpa using h'
      exact hpayload

namespace Client

variable {p : Parson} {host : Str} {c : Client} {command : Command} {r : Request}

/-- Whatever the client has stored, and whatever its user has typed, the builder stays inside of
its buffers exactly if the parts are short enough. -/
theorem request_builds_iff (hint : command.HasIntId) (hr : c.request p command = some r) :
    r.Builds host ↔ r.Fits host :=
  (Request.plain hint hr).builds_iff_fits host

theorem request_builds_iff_register : Command.HasIntId (.register (ascii "u") (ascii "p")) ∧
    ∃ r, start.request plainParson (.register (ascii "u") (ascii "p")) = some r ∧
      (r.Builds (ascii "h") ↔ r.Fits (ascii "h")) :=
  ⟨trivial, _, rfl, @request_builds_iff plainParson (ascii "h") start
    (.register (ascii "u") (ascii "p")) _ trivial rfl⟩

end Client

/-! ## A name that is too long -/

/-- The text of a value before anything in it is escaped. -/
def Member.text : Member → Str
  | .string _ value => value
  | .number _ value => intDecimal value

/-- The serialised object has all values in it. -/
def Parson.KeepsValues (p : Parson) : Prop :=
  ∀ members, (members.map fun member => member.text.length).sum ≤ (p.serializePretty members).length

theorem sum_length_le_intercalate (sep : Str) (xs : List Str) :
    (xs.map List.length).sum ≤ (sep.intercalate xs).length := by
  induction xs with
  | nil => simp
  | cons x xs ih =>
    cases xs with
    | nil => simp
    | cons y xs =>
      rw [List.intercalate_cons_cons, List.map_cons, List.sum_cons, List.length_append,
        List.length_append]
      omega

theorem plainParson_keepsValues : Client.plainParson.KeepsValues := by
  intro members
  have hall {f : Member → Str} (hf : ∀ member, member.text.length ≤ (f member).length) :
      (members.map fun member => member.text.length).sum ≤
        (ascii "\x7b\n" ++ (ascii ",\n").intercalate (members.map f) ++ ascii "\n\x7d").length := by
    have hmembers : (members.map fun member => member.text.length).sum ≤
        ((members.map f).map List.length).sum := by
      rw [List.map_map]
      exact List.sum_le_sum fun member _ => hf member
    have hjoined := sum_length_le_intercalate (ascii ",\n") (members.map f)
    rw [List.length_append, List.length_append]
    omega
  refine hall fun member => ?_
  cases member with
  | string name value =>
    simp only [Member.text, List.length_append]
    omega
  | number name value =>
    simp only [Member.text, List.length_append]
    omega

theorem not_fits_of_values {p : Parson} (hp : p.KeepsValues) {host : Str} {r : Request}
    {members : List Member} (hr : r.bodyData = some [p.serializePretty members])
    (hlong : 999 ≤ (members.map fun member => member.text.length).sum) : ¬ r.Fits host := by
  intro hfits
  have hpayload := hfits.payload_lt _ hr
  have hkeeps := hp members
  omega

def longName : Str := List.replicate 998 97

def longMembers : List Member :=
  [.string (ascii "username") longName, .string (ascii "password") (ascii "p")]

def longRequest : Request :=
  ⟨.post, registerPath, some [Client.plainParson.serializePretty longMembers], none, none⟩

/-- A registration with that name does not fit into the body. -/
theorem longRequest_not_builds : Client.plainParson.KeepsValues ∧ longName.length = 998 ∧
    Run (Client.Step Client.plainParson (ascii "h")) Client.start [] Client.start ∧
    Client.start.request Client.plainParson (.register longName (ascii "p")) = some longRequest ∧
    ¬ longRequest.Builds (ascii "h") := by
  have hlength : longName.length = 998 := List.length_replicate
  have hlong : 999 ≤ (longMembers.map fun member => member.text.length).sum := by
    have hpassword : (ascii "p").length = 1 := rfl
    simp [longMembers, Member.text, hlength, hpassword]
  have hrequest : Client.start.request Client.plainParson (.register longName (ascii "p")) =
      some longRequest := rfl
  have hint : Command.HasIntId (.register longName (ascii "p")) := trivial
  have hplain := Request.plain hint hrequest
  refine ⟨plainParson_keepsValues, hlength, .nil, hrequest, ?_⟩
  rw [hplain.builds_iff_fits]
  exact not_fits_of_values plainParson_keepsValues rfl hlong

end PCom.Library
