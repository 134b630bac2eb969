import PCom.Lib.Http
import PCom.Library.Client

/-! What a reader of HTTP/1.1 makes of the requests. -/

namespace PCom.Library

open Lib

structure Parts where
  host : Str
  url : Str
  queryParams : Option Str
  contentType : Str
  bodyData : Option (List Str)
  cookies : Option (List Str)
  jwt : Option Str

def Method.name : Method → Str
  | .get => ascii "GET"
  | .delete => ascii "DELETE"
  | .post => ascii "POST"

namespace Parts

def message (p : Parts) : Method → Except Fault Str
  | .get => computeGetRequest p.host p.url p.queryParams (p.cookies.map (·.map some)) p.jwt
  | .delete => computeDeleteRequest p.host p.url (p.cookies.map (·.map some)) p.jwt
  | .post =>
    computePostRequest p.host p.url p.contentType p.bodyData (p.cookies.map (·.map some)) p.jwt

structure Clean (p : Parts) : Prop where
  host : (13 : Byte) ∉ p.host
  url : (13 : Byte) ∉ p.url
  queryParams : ∀ query ∈ p.queryParams, (13 : Byte) ∉ query
  contentType : (13 : Byte) ∉ p.contentType
  cookies : ∀ cookies ∈ p.cookies, ∀ cookie ∈ cookies, (13 : Byte) ∉ cookie
  jwt : ∀ jwt ∈ p.jwt, (13 : Byte) ∉ jwt

def target (p : Parts) : Method → Str
  | .get => p.url ++ (p.queryParams.map (ascii "?" ++ ·)).getD []
  | .delete | .post => p.url

def body (p : Parts) : Method → Str
  | .post => (ascii "&").intercalate (p.bodyData.getD [])
  | _ => []

end Parts

/-- The cookies in the value of a `Cookie` field, each of which ends with a semicolon and a space. -/
def cookiesOf (value : Str) : List Str := (splitPair 59 32 value).dropLast

/-- The message is one request, which gives back what it was built from.  A cookie with a semicolon
and a space in it is several cookies. -/
def Decodes (p : Parts) (method : Method) (m : Str) : Prop :=
  ∃ r : Http.Request, Http.readRequest m = some (r, []) ∧
    r.method = method.name ∧ r.target = p.target method ∧
    Http.values r.fields (ascii "Host") = [p.host] ∧
    Http.values r.fields (ascii "Authorization") = p.jwt.toList.map (ascii "Bearer " ++ ·) ∧
    Http.values r.fields (ascii "Cookie")
      = p.cookies.toList.map (fun cookies => cookies.flatMap (· ++ ascii "; ")) ∧
    (Http.values r.fields (ascii "Cookie")).map cookiesOf
      = p.cookies.toList.map (fun cookies => cookies.flatMap (splitPair 59 32)) ∧
    r.body = p.body method

theorem cookiesOf_flatMap (cookies : List Str) :
    cookiesOf (cookies.flatMap (· ++ ascii "; ")) = cookies.flatMap (splitPair 59 32) := by
  have hsplit : splitPair 59 32 (cookies.flatMap (· ++ ascii "; "))
      = cookies.flatMap (splitPair 59 32) ++ [[]] := by
    induction cookies with
    | nil => rfl
    | cons cookie cookies ih =>
      have hshape : (cookie :: cookies).flatMap (· ++ ascii "; ")
          = cookie ++ 59 :: 32 :: cookies.flatMap (· ++ ascii "; ") := by
        rw [List.flatMap_cons, List.append_assoc]
        rfl
      rw [hshape, splitPair_append (by decide), ih, List.flatMap_cons, List.append_assoc]
  rw [cookiesOf, hsplit, List.dropLast_concat]

theorem bodyDataBuffer_ok {fields : Option (List Str)} {buffer : Str}
    (h : bodyDataBuffer fields = .ok buffer) :
    buffer = (ascii "&").intercalate (fields.getD []) := by
  cases fields with
  | none =>
    cases h
    rfl
  | some fields =>
    obtain ⟨joined, hjoined, h⟩ := bind_ok h
    simp only [List.append_assoc] at hjoined
    have hflat := foldlM_sprintf_ok hjoined
    rw [List.nil_append] at hflat
    split at h
    next => cases h
    next =>
      cases h
      rw [hflat]
      exact dropLast_flatMap _ _

namespace Parts

def fields (p : Parts) (method : Method) (length : Nat) : List Http.Field :=
  [(ascii "Host", p.host)] ++
    (p.jwt.toList.map fun jwt => (ascii "Authorization", ascii "Bearer " ++ jwt)) ++
    (match method with
    | .post => [(ascii "Content-Type", p.contentType), (ascii "Content-Length", decimal length)]
    | _ => []) ++
    p.cookies.toList.map fun cookies => (ascii "Cookie", cookies.flatMap (· ++ ascii "; "))

def requestLine (p : Parts) (method : Method) : Str :=
  method.name ++ (ascii " " ++ (p.target method ++ (ascii " " ++ ascii "HTTP/1.1")))

theorem requestLine_get (p : Parts) : p.requestLine .get = getLine p.url p.queryParams := by
  have hget (s : Str) : ascii "GET" ++ (ascii " " ++ s) = ascii "GET " ++ s := rfl
  have hversion : ascii " " ++ ascii "HTTP/1.1" = ascii " HTTP/1.1" := rfl
  rw [requestLine, Method.name, hget, hversion, target]
  cases p.queryParams <;> simp [getLine]

theorem requestLine_delete (p : Parts) : p.requestLine .delete = deleteLine p.url := by
  have hdelete (s : Str) : ascii "DELETE" ++ (ascii " " ++ s) = ascii "DELETE " ++ s := rfl
  have hversion : ascii " " ++ ascii "HTTP/1.1" = ascii " HTTP/1.1" := rfl
  rw [requestLine, Method.name, hdelete, hversion, target, deleteLine, List.append_assoc]

theorem requestLine_post (p : Parts) : p.requestLine .post = postLine p.url := by
  have hpost (s : Str) : ascii "POST" ++ (ascii " " ++ s) = ascii "POST " ++ s := rfl
  have hversion : ascii " " ++ ascii "HTTP/1.1" = ascii " HTTP/1.1" := rfl
  rw [requestLine, Method.name, hpost, hversion, target, postLine, List.append_assoc]

theorem cookieLines_eq (cookies : Option (List Str)) :
    cookieLines (cookies.map (·.map some)) = (cookies.toList.map fun cookies =>
      (ascii "Cookie", cookies.flatMap (· ++ ascii "; "))).map Http.fieldLine := by
  cases cookies with
  | none => rfl
  | some cookies =>
    have hline : cookieLine (cookies.map some)
        = ascii "Cookie: " ++ cookies.flatMap (· ++ ascii "; ") := by
      rw [cookieLine, List.flatMap_map]
      rfl
    simp only [cookieLines, Option.map_some, Option.toList_some, List.map_singleton, hline]
    rfl

theorem startLines_eq (requestLine host : Str) (jwt : Option Str) :
    startLines requestLine host jwt = requestLine :: ([(ascii "Host", host)] ++
      jwt.toList.map fun jwt => (ascii "Authorization", ascii "Bearer " ++ jwt)).map
        Http.fieldLine := by
  cases jwt <;> rfl

theorem message_ok {p : Parts} {method : Method} {m : Str} (h : p.message method = .ok m) :
    m = lines (p.requestLine method :: (p.fields method (p.body method).length).map Http.fieldLine) ++
      (crlf ++ (p.body method ++ if method = .post then crlf else [])) := by
  cases method with
  | get =>
    rw [computeGetRequest_ok h, startLines_eq, cookieLines_eq, requestLine_get, lines_snoc]
    simp [fields, body]
  | delete =>
    rw [computeDeleteRequest_ok h, startLines_eq, cookieLines_eq, requestLine_delete, lines_snoc]
    simp [fields, body]
  | post =>
    obtain ⟨buffer, hbuffer, hm⟩ := computePostRequest_ok h
    obtain rfl := bodyDataBuffer_ok hbuffer
    have hcontent (v : Str) : ascii "Content-Type: " ++ v
        = Http.fieldLine (ascii "Content-Type", v) := rfl
    have hlength (v : Str) : ascii "Content-Length: " ++ v
        = Http.fieldLine (ascii "Content-Length", v) := rfl
    rw [hm, startLines_eq, cookieLines_eq, requestLine_post, lines_snoc, lines_snoc, hcontent, hlength]
    simp [fields, body]

theorem values_host (p : Parts) (method : Method) (n : Nat) :
    Http.values (p.fields method n) (ascii "Host") = [p.host] := by
  obtain ⟨host, url, queryParams, contentType, bodyData, cookies, jwt⟩ := p
  cases method <;> cases jwt <;> cases cookies <;> rfl

theorem values_authorization (p : Parts) (method : Method) (n : Nat) :
    Http.values (p.fields method n) (ascii "Authorization")
      = p.jwt.toList.map (ascii "Bearer " ++ ·) := by
  obtain ⟨host, url, queryParams, contentType, bodyData, cookies, jwt⟩ := p
  cases method <;> cases jwt <;> cases cookies <;> rfl

theorem values_cookie (p : Parts) (method : Method) (n : Nat) :
    Http.values (p.fields method n) (ascii "Cookie")
      = p.cookies.toList.map (fun cookies => cookies.flatMap (· ++ ascii "; ")) := by
  obtain ⟨host, url, queryParams, contentType, bodyData, cookies, jwt⟩ := p
  cases method <;> cases jwt <;> cases cookies <;> rfl

theorem values_contentLength (p : Parts) (method : Method) (n : Nat) :
    Http.values (p.fields method n) (ascii "Content-Length")
      = if method = .post then [decimal n] else [] := by
  obtain ⟨host, url, queryParams, contentType, bodyData, cookies, jwt⟩ := p
  cases method <;> cases jwt <;> cases cookies <;> rfl

theorem contentLength_eq (p : Parts) (method : Method) :
    Http.contentLength (p.fields method (p.body method).length) = some (p.body method).length := by
  rw [Http.contentLength, values_contentLength]
  cases method with
  | post =>
    have hdigits : (decimal (p.body .post).length).all isDecimal = true :=
      List.all_eq_true.mpr fun b hb => isDecimal_of_mem_decimal hb
    exact (if_pos ⟨decimal_ne_nil _, hdigits⟩).trans (congrArg some (decimalValue_decimal _))
  | _ => rfl

theorem fields_name {p : Parts} {method : Method} {n : Nat} {f : Http.Field}
    (hf : f ∈ p.fields method n) : (58 : Byte) ∉ f.1 ∧ (13 : Byte) ∉ f.1 := by
  have hnames : ∀ name ∈ [ascii "Host", ascii "Authorization", ascii "Content-Type",
      ascii "Content-Length", ascii "Cookie"], (58 : Byte) ∉ name ∧ (13 : Byte) ∉ name := by decide
  refine hnames f.1 ?_
  simp only [fields, List.mem_append, List.mem_singleton, List.mem_map, Option.mem_toList] at hf
  rcases hf with ((rfl | ⟨jwt, -, rfl⟩) | hcontent) | ⟨cookies, -, rfl⟩
  · simp
  · simp
  · cases method with
    | post => rcases List.mem_pair.mp hcontent with rfl | rfl <;> simp
    | _ => cases hcontent
  · simp

theorem fields_value {p : Parts} (hclean : p.Clean) {method : Method} {n : Nat} {f : Http.Field}
    (hf : f ∈ p.fields method n) : (13 : Byte) ∉ f.2 := by
  simp only [fields, List.mem_append, List.mem_singleton, List.mem_map, Option.mem_toList] at hf
  rcases hf with ((rfl | ⟨jwt, hjwt, rfl⟩) | hcontent) | ⟨cookies, hcookies, rfl⟩
  · exact hclean.host
  · rw [List.mem_append, not_or]
    exact ⟨by decide, hclean.jwt jwt hjwt⟩
  · cases method with
    | post =>
      rcases List.mem_pair.mp hcontent with rfl | rfl
      · exact hclean.contentType
      · exact fun h => absurd (isDecimal_of_mem_decimal h) (by decide)
    | _ => cases hcontent
  · intro h
    obtain ⟨cookie, hcookie, h⟩ := List.mem_flatMap.mp h
    rcases List.mem_append.mp h with h | h
    · exact hclean.cookies cookies hcookies cookie hcookie h
    · exact absurd h (by decide)

theorem isLine_requestLine {p : Parts} (hclean : p.Clean) (method : Method) :
    Http.IsLine (p.requestLine method) := by
  have hname : (13 : Byte) ∉ method.name := by cases method <;> decide
  have hspace : (13 : Byte) ∉ ascii " " := by decide
  have hversion : (13 : Byte) ∉ ascii "HTTP/1.1" := by decide
  have htarget : (13 : Byte) ∉ p.target method := by
    cases method with
    | get =>
      rw [target, List.mem_append, not_or]
      refine ⟨hclean.url, ?_⟩
      cases hquery : p.queryParams with
      | none => exact List.not_mem_nil
      | some query =>
        rw [Option.map_some, Option.getD_some, List.mem_append, not_or]
        exact ⟨by decide, hclean.queryParams query hquery⟩
    | delete => exact hclean.url
    | post => exact hclean.url
  refine ⟨?_, ?_⟩
  · exact List.append_ne_nil_of_right_ne_nil _ (List.append_ne_nil_of_left_ne_nil (by decide) _)
  · simp only [requestLine, List.mem_append, hname, hspace, htarget, hversion, or_self, not_false_iff]

end Parts

/-- A reader finds the parts of every request.  Behind a body it finds the line end that
`compute_message` has put there. -/
theorem readRequest_message {p : Parts} (hclean : p.Clean) {method : Method} {m : Str}
    (h : p.message method = .ok m) :
    Http.readRequest m = some (⟨method.name, p.target method, ascii "HTTP/1.1",
      p.fields method (p.body method).length, p.body method⟩, if method = .post then crlf else []) := by
  have hmethod : (32 : Byte) ∉ method.name := by cases method <;> decide
  have hfields : ∀ f ∈ p.fields method (p.body method).length, Http.IsLine (Http.fieldLine f) :=
    fun f hf => Http.isLine_fieldLine (Parts.fields_name hf).2 (Parts.fields_value hclean hf)
  have hlength : (p.body method).length
      ≤ (p.body method ++ if method = .post then crlf else []).length := by
    rw [List.length_append]
    exact Nat.le_add_right _ _
  have hread := Http.readRequest_eq hmethod (by decide : (32 : Byte) ∉ ascii "HTTP/1.1")
    (fun f hf => (Parts.fields_name hf).1) (p.contentLength_eq method)
    (Parts.isLine_requestLine hclean method) hfields hlength
  rw [Parts.message_ok h]
  rwa [List.take_left, List.drop_left] at hread

/-- Exactly the requests without a body decode to what they were built from. -/
theorem decodes_iff {p : Parts} (hclean : p.Clean) {method : Method} {m : Str}
    (h : p.message method = .ok m) : Decodes p method m ↔ method = .get ∨ method = .delete := by
  rw [Decodes, readRequest_message hclean h]
  constructor
  · rintro ⟨r, hr, -⟩
    cases method with
    | get => exact .inl rfl
    | delete => exact .inr rfl
    | post => exact absurd (Prod.mk.inj (Option.some.inj hr)).2 (by decide)
  · intro hmethod
    have hpost : method ≠ .post := by
      rcases hmethod with rfl | rfl <;> decide
    rw [if_neg hpost]
    refine ⟨_, rfl, rfl, rfl, p.values_host _ _, p.values_authorization _ _, p.values_cookie _ _, ?_,
      rfl⟩
    rw [Parts.values_cookie, List.map_map]
    exact List.map_congr_left fun cookies _ => cookiesOf_flatMap cookies

def bookParts : Parts where
  host := ascii "h"
  url := ascii "/books"
  queryParams := some (ascii "page=2")
  contentType := ascii "text/plain"
  bodyData := some [ascii "title=a", ascii "author=b"]
  cookies := some [ascii "sid=1", ascii "lang=ro"]
  jwt := some (ascii "t")

theorem bookParts_clean : bookParts.Clean where
  host := by decide
  url := by decide
  queryParams query hquery := by
    obtain rfl := Option.some.inj hquery
    decide
  contentType := by decide
  cookies cookies hcookies := by
    obtain rfl := Option.some.inj hcookies
    decide
  jwt jwt hjwt := by
    obtain rfl := Option.some.inj hjwt
    decide

theorem bookParts_message (method : Method) : ∃ m, bookParts.message method = .ok m := by
  have hok : (bookParts.message method).isOk = true := by cases method <;> decide +kernel
  cases h : bookParts.message method with
  | error fault =>
    rw [h] at hok
    cases hok
  | ok m => exact ⟨m, rfl⟩

theorem decodes_iff_bookParts : ∃ m, bookParts.message .get = .ok m ∧
    (Decodes bookParts .get m ↔ Method.get = .get ∨ Method.get = .delete) := by
  obtain ⟨m, hm⟩ := bookParts_message .get
  exact ⟨m, hm, decodes_iff bookParts_clean hm⟩

/-- Two bytes follow the body that `Content-Length` announces. -/
theorem bookParts_post_leftover :
    ∃ m, bookParts.message .post = .ok m ∧ ¬ Decodes bookParts .post m := by
  obtain ⟨m, hm⟩ := bookParts_message .post
  refine ⟨m, hm, ?_⟩
  rintro ⟨r, hr, -⟩
  rw [readRequest_message bookParts_clean hm] at hr
  exact absurd (Prod.mk.inj (Option.some.inj hr)).2 (by decide)

end PCom.Library
