import PCom.Lib.Runs
import PCom.Lib.Text

/-! The functions of `requests.c` and the buffers they write to. -/

namespace PCom.Library

open Lib

/-- A C string, without its terminator. -/
abbrev Str := List Byte

def bufLen : Nat := 4096
def lineLen : Nat := 1000

/-- How the client crashes: it writes outside of a buffer, or calls a string function on NULL. -/
inductive Fault
  | overflow | nullPointer
  deriving DecidableEq

/-- A pointer to a string as `%s` prints it. -/
def printed : Option Str → Str
  | none => ascii "(null)"
  | some s => s

/-- The contents of a line or of the body buffer after a `sprintf`. -/
def sprintf (line : Str) : Except Fault Str :=
  if line.length < lineLen then .ok line else .error .overflow

def computeMessage (message line : Str) : Except Fault Str :=
  if (message ++ line ++ crlf).length < bufLen then .ok (message ++ line ++ crlf)
  else .error .overflow

def addLine (message line : Str) : Except Fault Str := do
  computeMessage message (← sprintf line)

def addStart (requestLine host : Str) (jwt : Option Str) : Except Fault Str := do
  let message ← addLine [] requestLine
  let message ← addLine message (ascii "Host: " ++ host)
  match jwt with
  | none => return message
  | some jwt => addLine message (ascii "Authorization: Bearer " ++ jwt)

def addCookies (message : Str) : Option (List (Option Str)) → Except Fault Str
  | none => .ok message
  | some cookies => do
    let line ← cookies.foldlM (fun line cookie => sprintf (line ++ printed cookie ++ ascii "; "))
      (ascii "Cookie: ")
    computeMessage message line

def getLine (url : Str) : Option Str → Str
  | some queryParams => ascii "GET " ++ url ++ ascii "?" ++ queryParams ++ ascii " HTTP/1.1"
  | none => ascii "GET " ++ url ++ ascii " HTTP/1.1"

def deleteLine (url : Str) : Str := ascii "DELETE " ++ url ++ ascii " HTTP/1.1"

def postLine (url : Str) : Str := ascii "POST " ++ url ++ ascii " HTTP/1.1"

def computeGetRequest (host url : Str) (queryParams : Option Str)
    (cookies : Option (List (Option Str))) (jwt : Option Str) : Except Fault Str := do
  let message ← addStart (getLine url queryParams) host jwt
  let message ← addCookies message cookies
  computeMessage message []

def computeDeleteRequest (host url : Str) (cookies : Option (List (Option Str)))
    (jwt : Option Str) : Except Fault Str := do
  let message ← addStart (deleteLine url) host jwt
  let message ← addCookies message cookies
  computeMessage message []

/-- The fields joined with `&`.  Without any, the terminator is written in front of the buffer. -/
def bodyDataBuffer : Option (List Str) → Except Fault Str
  | none => .ok []
  | some fields => do
    let buffer ← fields.foldlM (fun buffer field => sprintf (buffer ++ field ++ ascii "&")) []
    if buffer = [] then .error .overflow else return buffer.dropLast

def computePostRequest (host url contentType : Str) (bodyData : Option (List Str))
    (cookies : Option (List (Option Str))) (jwt : Option Str) : Except Fault Str := do
  let message ← addStart (postLine url) host jwt
  let message ← addLine message (ascii "Content-Type: " ++ contentType)
  let buffer ← bodyDataBuffer bodyData
  let message ← addLine message (ascii "Content-Length: " ++ decimal buffer.length)
  let message ← addCookies message cookies
  let message ← computeMessage message []
  computeMessage message buffer

def startLines (requestLine host : Str) (jwt : Option Str) : List Str :=
  [requestLine, ascii "Host: " ++ host] ++
    jwt.toList.map fun jwt => ascii "Authorization: Bearer " ++ jwt

def cookieLine (cookies : List (Option Str)) : Str :=
  ascii "Cookie: " ++ cookies.flatMap fun cookie => printed cookie ++ ascii "; "

def cookieLines (cookies : Option (List (Option Str))) : List Str := cookies.toList.map cookieLine

theorem sprintf_ok {line s : Str} (h : sprintf line = .ok s) : s = line := by
  rw [sprintf] at h
  split at h
  · exact (Except.ok.inj h).symm
  · cases h

theorem computeMessage_ok {ls : List Str} {line m : Str}
    (h : computeMessage (lines ls) line = .ok m) : m = lines (ls ++ [line]) := by
  rw [computeMessage] at h
  split at h
  · rw [lines_snoc]
    exact (Except.ok.inj h).symm
  · cases h

theorem addLine_ok {ls : List Str} {line m : Str} (h : addLine (lines ls) line = .ok m) :
    m = lines (ls ++ [line]) := by
  obtain ⟨s, hs, hm⟩ := bind_ok h
  obtain rfl := sprintf_ok hs
  exact computeMessage_ok hm

theorem addStart_ok {requestLine host m : Str} {jwt : Option Str}
    (h : addStart requestLine host jwt = .ok m) : m = lines (startLines requestLine host jwt) := by
  obtain ⟨m₁, h₁, h⟩ := bind_ok h
  obtain rfl := @addLine_ok [] _ _ h₁
  obtain ⟨m₂, h₂, h⟩ := bind_ok h
  obtain rfl := addLine_ok h₂
  cases jwt with
  | none =>
    cases h
    rfl
  | some jwt => exact addLine_ok h

theorem foldlM_sprintf_ok {α : Type} {f : α → Str} {xs : List α} {start line : Str}
    (h : xs.foldlM (fun line x => sprintf (line ++ f x)) start = .ok line) :
    line = start ++ xs.flatMap f := by
  induction xs generalizing start with
  | nil =>
    cases h
    exact (List.append_nil _).symm
  | cons x xs ih =>
    rw [List.foldlM_cons] at h
    obtain ⟨s, hs, h⟩ := bind_ok h
    obtain rfl := sprintf_ok hs
    rw [ih h, List.flatMap_cons, List.append_assoc]

theorem addCookies_ok {ls : List Str} {m : Str} {cookies : Option (List (Option Str))}
    (h : addCookies (lines ls) cookies = .ok m) : m = lines (ls ++ cookieLines cookies) := by
  cases cookies with
  | none =>
    cases h
    simp [cookieLines]
  | some cookies =>
    obtain ⟨line, hline, h⟩ := bind_ok h
    simp only [List.append_assoc] at hline
    obtain rfl := foldlM_sprintf_ok hline
    exact computeMessage_ok h

theorem addStart_addCookies_ok {requestLine host m : Str} {cookies : Option (List (Option Str))}
    {jwt : Option Str} (h : (addStart requestLine host jwt >>= fun message =>
      addCookies message cookies >>= fun message => computeMessage message []) = .ok m) :
    m = lines (startLines requestLine host jwt ++ cookieLines cookies ++ [[]]) := by
  obtain ⟨m₁, h₁, h⟩ := bind_ok h
  obtain rfl := addStart_ok h₁
  obtain ⟨m₂, h₂, h⟩ := bind_ok h
  obtain rfl := addCookies_ok h₂
  exact computeMessage_ok h

theorem computeGetRequest_ok {host url m : Str} {queryParams : Option Str}
    {cookies : Option (List (Option Str))} {jwt : Option Str}
    (h : computeGetRequest host url queryParams cookies jwt = .ok m) :
    m = lines (startLines (getLine url queryParams) host jwt ++ cookieLines cookies ++ [[]]) :=
  addStart_addCookies_ok h

theorem computeDeleteRequest_ok {host url m : Str} {cookies : Option (List (Option Str))}
    {jwt : Option Str} (h : computeDeleteRequest host url cookies jwt = .ok m) :
    m = lines (startLines (deleteLine url) host jwt ++ cookieLines cookies ++ [[]]) :=
  addStart_addCookies_ok h

theorem computePostRequest_ok {host url contentType m : Str} {bodyData : Option (List Str)}
    {cookies : Option (List (Option Str))} {jwt : Option Str}
    (h : computePostRequest host url contentType bodyData cookies jwt = .ok m) :
    ∃ buffer, bodyDataBuffer bodyData = .ok buffer ∧
      m = lines (startLines (postLine url) host jwt ++ [ascii "Content-Type: " ++ contentType] ++
        [ascii "Content-Length: " ++ decimal buffer.length] ++ cookieLines cookies ++ [[]] ++
        [buffer]) := by
  obtain ⟨m₁, h₁, h⟩ := bind_ok h
  obtain rfl := addStart_ok h₁
  obtain ⟨m₂, h₂, h⟩ := bind_ok h
  obtain rfl := addLine_ok h₂
  obtain ⟨buffer, hbuffer, h⟩ := bind_ok h
  obtain ⟨m₃, h₃, h⟩ := bind_ok h
  obtain rfl := addLine_ok h₃
  obtain ⟨m₄, h₄, h⟩ := bind_ok h
  obtain rfl := addCookies_ok h₄
  obtain ⟨m₅, h₅, h⟩ := bind_ok h
  obtain rfl := computeMessage_ok h₅
  exact ⟨buffer, hbuffer, computeMessage_ok h⟩

end PCom.Library
