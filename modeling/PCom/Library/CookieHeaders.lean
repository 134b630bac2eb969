import PCom.Library.SessionCookie

/-! Whether the cookies in requests are cookies that the client has received. -/

namespace PCom.Library

open Lib

/-- A login to which the server answers with a session cookie. -/
def Client.Exchange.ReturnsCookie (x : Client.Exchange) : Prop :=
  (∃ username password, x.command = .login username password) ∧ cookieField <:+: x.response

/-- A login whose response has `cookie` behind `Set-Cookie: `, from the name on. -/
def Client.Exchange.HasCookie (x : Client.Exchange) (cookie : Str) : Prop :=
  (∃ username password, x.command = .login username password) ∧
    (∃ v, cookie = ascii "connect.sid=" ++ v) ∧ ascii "Set-Cookie: " ++ cookie <:+: x.response

namespace Client

variable {p : Parson} {host : Str}

def ReceivedBefore (log : List (Client × Exchange)) (r : Request) : Prop :=
  ∀ cookies, r.cookies = some cookies → ∀ cookie ∈ cookies,
    ∃ s, cookie = some s ∧ ∃ x ∈ log, x.2.HasCookie s

def CookiesReceived (p : Parson) (log : List (Client × Exchange)) : Prop :=
  ∀ before x after, log = before ++ x :: after →
    ∀ r, x.1.request p x.2.command = some r → ReceivedBefore before r

def LoggedInFirst (p : Parson) (log : List (Client × Exchange)) : Prop :=
  ∀ before x after, log = before ++ x :: after → x.2.command.sendsCookie = true →
    x.1.request p x.2.command ≠ none → ∃ y ∈ before, y.2.ReturnsCookie

theorem Exchange.HasCookie.returnsCookie {x : Exchange} {s : Str} (h : x.HasCookie s) :
    x.ReturnsCookie := by
  obtain ⟨hlogin, ⟨v, rfl⟩, hinfix⟩ := h
  refine ⟨hlogin, List.IsInfix.trans ?_ hinfix⟩
  rw [← List.append_assoc, ← cookieField_eq]
  exact (List.prefix_append _ _).isInfix

theorem hasCookie_of_newCookie {x : Client × Exchange} {s : Str}
    (hsize : x.2.response.length < 2 ^ 64) (h : newCookie x = some s) : x.2.HasCookie s := by
  obtain ⟨c, command, response⟩ := x
  cases command with
  | login username password =>
    have hcookie : sessionCookie response = .ok (some s) := by
      simp only [newCookie] at h
      cases hs : sessionCookie response with
      | error fault =>
        rw [hs] at h
        cases h
      | ok cookie =>
        rw [hs] at h
        exact congrArg Except.ok h
    exact ⟨⟨username, password, rfl⟩, exists_of_sessionCookie hsize hcookie⟩
  | _ => cases h

theorem newCookie_of_returnsCookie {c c' : Client} {x : Exchange} (hstep : Step p host c x c')
    (h : x.ReturnsCookie) : newCookie (c, x) ≠ none := by
  obtain ⟨command, response⟩ := x
  obtain ⟨⟨username, password, hlogin⟩, hcookie⟩ := h
  obtain rfl : command = .login username password := hlogin
  obtain ⟨-, hturn⟩ := hstep
  obtain ⟨_, -, hturn⟩ := bind_ok hturn
  obtain ⟨cookie, hok, -⟩ := bind_ok (answered_ok hturn).2
  cases cookie with
  | none =>
    cases hi : position cookieField response with
    | none =>
      have hnone : strstr cookieField response = none := by
        rw [strstr_eq_map_position, hi, Option.map_none]
      exact absurd hcookie (strstr_eq_none_iff.mp hnone)
    | some i => exact absurd hok (sessionCookie_ne_none hi)
  | some cookie =>
    have hnew : newCookie (c, ⟨.login username password, response⟩) =
        (sessionCookie response).toOption.join := rfl
    rw [hnew, hok]
    exact Option.some_ne_none _

theorem receivedBefore_iff {log : List (Client × Exchange)} {c : Client}
    (hrun : Run (Step p host) start log c) (hsize : ∀ x ∈ log, x.2.response.length < 2 ^ 64)
    {command : Command} {r : Request} (hr : c.request p command = some r) :
    ReceivedBefore log r ↔ (command.sendsCookie = true → ∃ y ∈ log, y.2.ReturnsCookie) := by
  have hcookies := (request_credentials hr).1
  rw [(stored hrun).cookie] at hcookies
  constructor
  · intro hreceived hsends
    rw [if_pos hsends] at hcookies
    obtain ⟨s, -, x, hx, hcookie⟩ := hreceived _ hcookies _ List.mem_cons_self
    exact ⟨x, hx, hcookie.returnsCookie⟩
  · intro hlogged cookies heq cookie hcookie
    by_cases hsends : command.sendsCookie = true
    · rw [if_pos hsends, heq] at hcookies
      obtain rfl := Option.some.inj hcookies
      obtain rfl := List.mem_singleton.mp hcookie
      obtain ⟨y, hy, hreturns⟩ := hlogged hsends
      obtain ⟨c', hstep⟩ := hrun.step_of_mem hy
      cases hlatest : Run.latest newCookie log with
      | none =>
        have hnone := Run.latest_eq_none_iff.mp hlatest y hy
        exact absurd hnone (newCookie_of_returnsCookie hstep hreturns)
      | some s =>
        obtain ⟨x, hx, hnew⟩ := Run.mem_of_latest hlatest
        exact ⟨s, rfl, x, hx, hasCookie_of_newCookie (hsize x hx) hnew⟩
    · rw [if_neg hsends, heq] at hcookies
      cases hcookies

/-- In a run, and for one more command that may crash the client, the cookies of all requests were
received before exactly if a login has returned a cookie before the first request with one. -/
theorem cookiesReceived_iff {log : List (Client × Exchange)} {c : Client}
    (hrun : Run (Step p host) start log c) (x : Exchange)
    (hsize : ∀ y ∈ log, y.2.response.length < 2 ^ 64) :
    CookiesReceived p (log ++ [(c, x)]) ↔ LoggedInFirst p (log ++ [(c, x)]) := by
  have hentry {before : List (Client × Exchange)} {y : Client × Exchange}
      {after : List (Client × Exchange)} (hlog : log ++ [(c, x)] = before ++ y :: after) :
      Run (Step p host) start before y.1 ∧ ∀ z ∈ before, z.2.response.length < 2 ^ 64 := by
    rcases List.eq_nil_or_concat after with rfl | ⟨rest, z, rfl⟩
    · obtain ⟨rfl, hlast⟩ := List.append_inj' hlog rfl
      cases hlast
      exact ⟨hrun, hsize⟩
    · rw [List.concat_eq_append, ← List.cons_append, ← List.append_assoc] at hlog
      obtain ⟨rfl, -⟩ := List.append_inj' hlog rfl
      exact ⟨hrun.of_append.1, fun z hz => hsize z (List.mem_append_left _ hz)⟩
  constructor
  · intro hall before y after hlog hsends hne
    obtain ⟨hbefore, hshort⟩ := hentry hlog
    obtain ⟨r, hr⟩ := Option.ne_none_iff_exists'.mp hne
    exact (receivedBefore_iff hbefore hshort hr).mp (hall before y after hlog r hr) hsends
  · intro hfirst before y after hlog r hr
    obtain ⟨hbefore, hshort⟩ := hentry hlog
    refine (receivedBefore_iff hbefore hshort hr).mpr fun hsends => ?_
    exact hfirst before y after hlog hsends (by simp [hr])

def listing : Exchange := ⟨.getBooks, []⟩

theorem leavingLog_short : ∀ y ∈ leavingLog, y.2.response.length < 2 ^ 64 := by
  decide +kernel

theorem cookiesReceived_iff_leavingLog :
    Run (Step plainParson (ascii "h")) start leavingLog entered ∧
      (∀ y ∈ leavingLog, y.2.response.length < 2 ^ 64) ∧
      (CookiesReceived plainParson (leavingLog ++ [(entered, listing)]) ↔
        LoggedInFirst plainParson (leavingLog ++ [(entered, listing)])) :=
  ⟨leavingLog_run, leavingLog_short, cookiesReceived_iff leavingLog_run listing leavingLog_short⟩

def nullRequest : Request := ⟨.get, booksPath, none, some [none], none⟩

/-- It has a header with the text that `printf` gives for a null pointer. -/
theorem nullRequest_cookie :
    Run (Step plainParson (ascii "h")) start [] start ∧
      start.request plainParson .getBooks = some nullRequest ∧
      nullRequest.message (ascii "h") = .ok (ascii
        "GET /api/v1/tema/library/books HTTP/1.1\r\nHost: h\r\nCookie: (null); \r\n\r\n") ∧
      ¬ CookiesReceived plainParson [(start, listing)] := by
  refine ⟨.nil, rfl, by decide +kernel, fun h => ?_⟩
  obtain ⟨s, hs, -⟩ := h [] (start, listing) [] rfl nullRequest rfl _ rfl none List.mem_cons_self
  cases hs

end Client

end PCom.Library
