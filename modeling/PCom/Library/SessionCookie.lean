import PCom.Library.Credentials
import PCom.Lib.Http

/-! The session cookie that `login` takes out of a response. -/

namespace PCom.Library

open Lib

/-- What the line with the session cookie begins with. -/
def cookieField : Str := ascii "Set-Cookie: connect.sid="

def pathAttribute : Str := ascii "; Path"

def IsPath (part : Str) : Prop :=
  part.dropWhile (· = 32) = ascii "Path" ∨ ascii "Path=" <+: part.dropWhile (· = 32)

/-- A response with one session cookie, among other lines.  The parts of the line with the cookie
are what stands behind its semicolons.  As all that is searched it is a C string, in front of a first
zero byte. -/
structure LoginResponse where
  statusLine : Str
  before : List Str
  value : Str
  parts : List Str
  after : List Str
  body : Str
  isLine : ∀ line ∈ statusLine :: (before ++ after), Http.IsLine line
  others : ∀ line ∈ statusLine :: (before ++ after), ¬ cookieField <+: line
  value_plain : 13 ∉ value ∧ 59 ∉ value
  parts_plain : ∀ part ∈ parts, 13 ∉ part ∧ 59 ∉ part
  path : ∃ part ∈ parts, IsPath part

instance (part : Str) : Decidable (IsPath part) := inferInstanceAs (Decidable (_ ∨ _))

namespace LoginResponse

def partsText (r : LoginResponse) : Str := r.parts.flatMap (ascii ";" ++ ·)

def text (r : LoginResponse) : Str :=
  lines (r.statusLine :: r.before) ++ (cookieField ++ (r.value ++ (r.partsText ++ (crlf ++
    (lines r.after ++ (crlf ++ r.body))))))

/-- The first `; Path` of the response ends the value that stands behind its first
`Set-Cookie: connect.sid=`. -/
def PathFirst (r : LoginResponse) : Prop :=
  ∃ i, position cookieField r.text = some i ∧ cookieField ++ r.value <+: r.text.drop i ∧
    position pathAttribute r.text = some (i + 24 + r.value.length)

end LoginResponse

/-! ## The copy -/

/-- The size that `snprintf` gets, from the places that the two searches have found in `n` bytes. -/
def copySize (n i j : Nat) : Int := (((n - (i + 12) : Nat) : Int) - ((n - j : Nat) : Int) + 1) % 2 ^ 64

theorem copySize_of_le {n i j : Nat} (hij : i + 12 ≤ j) (hj : j ≤ n) (hn : n < 2 ^ 64) :
    (copySize n i j).toNat - 1 = j - (i + 12) := by
  have hsize : ((n - (i + 12) : Nat) : Int) - ((n - j : Nat) : Int) + 1 = ((j - (i + 11) : Nat) : Int) := by
    omega
  rw [copySize, hsize, Int.emod_eq_of_lt (by omega) (by omega)]
  omega

theorem copySize_of_lt {n i j : Nat} (hij : j < i) (hi : i + 12 ≤ n) (hj : j ≤ n)
    (hn : n < 2 ^ 64) : n - (i + 12) ≤ (copySize n i j).toNat - 1 := by
  have hsize : ((n - (i + 12) : Nat) : Int) - ((n - j : Nat) : Int) + 1 = (j : Int) - (i + 11) := by
    omega
  rw [copySize, hsize, ← Int.add_emod_right, Int.emod_eq_of_lt (by omega) (by omega)]
  omega

theorem cookieField_eq : cookieField = ascii "Set-Cookie: " ++ ascii "connect.sid=" := by
  decide

theorem lt_or_le_of_position {response : Str} {i j : Nat} (hi : position cookieField response = some i)
    (hj : position pathAttribute response = some j) : j < i ∨ i + 24 ≤ j := by
  by_contra hin
  obtain ⟨-, ⟨t, ht⟩, -⟩ := position_eq_some.mp hi
  obtain ⟨-, hocc, -⟩ := position_eq_some.mp hj
  have hfield : cookieField.length = 24 := rfl
  have hbehind : response.drop j = cookieField.drop (j - i) ++ t := by
    have hadd : j = i + (j - i) := by omega
    rw [hadd, ← List.drop_drop, ← ht, Nat.add_sub_cancel_left,
      List.drop_append_of_le_length (by omega)]
  obtain ⟨c, rest, hc⟩ : ∃ c rest, cookieField.drop (j - i) = c :: rest := by
    refine List.exists_cons_of_ne_nil fun hnil => ?_
    have hle := List.drop_eq_nil_iff.mp hnil
    omega
  rw [hbehind, hc, List.cons_append] at hocc
  have hmem : (59 : Byte) ∈ cookieField := by
    obtain rfl : (59 : Byte) = c := (List.cons_prefix_cons.mp hocc).1
    exact List.mem_of_mem_drop (hc ▸ List.mem_cons_self)
  exact absurd hmem (by decide)

def copyOf (response : Str) (i j : Nat) : Str :=
  (response.drop (i + 12)).take ((copySize response.length i j).toNat - 1)

theorem sessionCookie_eq {response : Str} {i : Nat} (hi : position cookieField response = some i) :
    sessionCookie response =
      match position pathAttribute response with
      | none => .error .nullPointer
      | some j =>
        if (copyOf response i j).length < lineLen then .ok (some (copyOf response i j))
        else .error .overflow := by
  have hparam : strstr (ascii "Set-Cookie: connect.sid=") response = some (response.drop i) := by
    rw [strstr_eq_map_position]
    exact congrArg (Option.map fun i => response.drop i) hi
  have hcookie : strstr (ascii "; Path") response =
      (position pathAttribute response).map fun j => response.drop j := strstr_eq_map_position _ _
  have hname : (ascii "Set-Cookie: ").length = 12 := rfl
  rw [sessionCookie, hparam, hcookie]
  cases position pathAttribute response with
  | none => rfl
  | some j =>
    simp only [Option.map_some, List.drop_drop, hname, List.length_drop]
    rfl

theorem sessionCookie_ne_none {response : Str} {i : Nat}
    (hi : position cookieField response = some i) : sessionCookie response ≠ .ok none := by
  rw [sessionCookie_eq hi]
  split
  next => exact fun h => by cases h
  next => split <;> exact fun h => by cases h

/-- What is copied is the value if the value ends where the path was found.  It has no carriage
return, but all that is left of the response has one. -/
theorem copyOf_eq_iff {response v : Str} {i j : Nat} (hi : position cookieField response = some i)
    (hj : position pathAttribute response = some j) (hv : 13 ∉ v)
    (hcr : 13 ∈ response.drop (i + 12)) (hn : response.length < 2 ^ 64) :
    copyOf response i j = ascii "connect.sid=" ++ v ↔
      cookieField ++ v <+: response.drop i ∧ j = i + 24 + v.length := by
  obtain ⟨-, hocc, -⟩ := position_eq_some.mp hi
  have hfits := hocc.length_le
  have hlength : (ascii "connect.sid=" ++ v).length = 12 + v.length := List.length_append
  rw [List.length_drop] at hfits
  have hsplit : response.drop i = ascii "Set-Cookie: " ++ response.drop (i + 12) := by
    rw [cookieField_eq] at hocc
    have hname : ascii "Set-Cookie: " <+: response.drop i := (List.prefix_append _ _).trans hocc
    rw [← List.drop_drop]
    exact (List.prefix_iff_eq_append.mp hname).symm
  rw [hsplit, cookieField_eq, List.append_assoc, List.prefix_append_right_inj]
  have hjle := (position_eq_some.mp hj).1
  rcases lt_or_le_of_position hi hj with hlt | hge
  · refine iff_of_false (fun hcopy => ?_) fun ⟨_, heq⟩ => by omega
    have hall := copySize_of_lt hlt (by change 24 ≤ _ at hfits; omega) hjle hn
    rw [copyOf, List.take_of_length_le (by rwa [List.length_drop])] at hcopy
    rw [hcopy, List.mem_append] at hcr
    exact hcr.elim (by decide) hv
  · rw [copyOf, copySize_of_le (by omega) hjle hn]
    constructor
    · intro hcopy
      refine ⟨hcopy ▸ List.take_prefix _ _, ?_⟩
      have hlen := congrArg List.length hcopy
      rw [List.length_take, List.length_drop, hlength] at hlen
      omega
    · rintro ⟨hpre, rfl⟩
      have hcut : i + 24 + v.length - (i + 12) = (ascii "connect.sid=" ++ v).length := by
        omega
      rw [hcut]
      exact (List.prefix_iff_eq_take.mp hpre).symm

/-- The stored cookie, from the place of the first `Set-Cookie: connect.sid=`. -/
theorem sessionCookie_eq_ok_iff {response v : Str} {i : Nat}
    (hi : position cookieField response = some i) (hv : 13 ∉ v)
    (hcr : 13 ∈ response.drop (i + 12)) (hn : response.length < 2 ^ 64) :
    sessionCookie response = .ok (some (ascii "connect.sid=" ++ v)) ↔
      v.length < 988 ∧ cookieField ++ v <+: response.drop i ∧
        position pathAttribute response = some (i + 24 + v.length) := by
  have hlength : (ascii "connect.sid=" ++ v).length = 12 + v.length := List.length_append
  rw [sessionCookie_eq hi]
  cases hj : position pathAttribute response with
  | none => simp
  | some j =>
    have hcopy := copyOf_eq_iff hi hj hv hcr hn
    rw [Option.some.injEq, ← hcopy]
    dsimp only
    constructor
    · intro h
      split at h
      next hlt =>
        have heq := Option.some.inj (Except.ok.inj h)
        rw [heq, hlength, lineLen] at hlt
        exact ⟨by omega, heq⟩
      next => cases h
    · rintro ⟨hlt, heq⟩
      rw [heq, hlength, if_pos (by rw [lineLen]; omega)]

theorem exists_of_sessionCookie {response cookie : Str} (hn : response.length < 2 ^ 64)
    (h : sessionCookie response = .ok (some cookie)) :
    (∃ v, cookie = ascii "connect.sid=" ++ v) ∧ ascii "Set-Cookie: " ++ cookie <:+: response := by
  cases hi : position cookieField response with
  | none =>
    have hnone : strstr (ascii "Set-Cookie: connect.sid=") response = none := by
      rw [strstr_eq_map_position]
      exact congrArg (Option.map fun i => response.drop i) hi
    rw [sessionCookie, hnone] at h
    cases h
  | some i =>
    rw [sessionCookie_eq hi] at h
    cases hj : position pathAttribute response with
    | none =>
      rw [hj] at h
      cases h
    | some j =>
      rw [hj] at h
      obtain ⟨-, ⟨t, ht⟩, -⟩ := position_eq_some.mp hi
      have hcopy : cookie = copyOf response i j := by
        dsimp only at h
        split at h
        next => exact (Option.some.inj (Except.ok.inj h)).symm
        next => cases h
      have hdrop : response.drop i = ascii "Set-Cookie: " ++ (ascii "connect.sid=" ++ t) := by
        rw [← ht, cookieField_eq, List.append_assoc]
      have hvalue : response.drop (i + 12) = ascii "connect.sid=" ++ t := by
        have hname : (ascii "Set-Cookie: ").length = 12 := rfl
        rw [← List.drop_drop, hdrop, ← hname, List.drop_left]
      have hlength : (ascii "connect.sid=").length ≤ (copySize response.length i j).toNat - 1 := by
        have hfits := congrArg List.length ht
        rw [List.length_append, List.length_drop] at hfits
        change 24 + _ = _ at hfits
        change 12 ≤ _
        have hjle := (position_eq_some.mp hj).1
        rcases lt_or_le_of_position hi hj with hlt | hge
        · have hall := copySize_of_lt hlt (by omega) hjle hn
          omega
        · rw [copySize_of_le (by omega) hjle hn]
          omega
      rw [copyOf, hvalue, List.take_append, List.take_of_length_le hlength] at hcopy
      refine ⟨⟨_, hcopy⟩, ?_⟩
      have hpre : ascii "Set-Cookie: " ++ cookie <+: response.drop i := by
        rw [hdrop, List.prefix_append_right_inj, hcopy, List.prefix_append_right_inj]
        exact List.take_prefix _ _
      exact hpre.isInfix.trans (List.drop_suffix i response).isInfix

/-! ## Responses to a login -/

namespace LoginResponse

variable {r : LoginResponse}

theorem drop_text (r : LoginResponse) :
    r.text.drop (lines (r.statusLine :: r.before)).length = cookieField ++ (r.value ++ (r.partsText ++
      (crlf ++ (lines r.after ++ (crlf ++ r.body))))) := List.drop_left

theorem exists_position (r : LoginResponse) :
    ∃ i, position cookieField r.text = some i ∧ 13 ∈ r.text.drop (i + 12) := by
  have hle : (lines (r.statusLine :: r.before)).length ≤ r.text.length := by
    rw [text, List.length_append]
    exact Nat.le_add_right _ _
  have hocc : cookieField <+: r.text.drop (lines (r.statusLine :: r.before)).length :=
    r.drop_text ▸ List.prefix_append _ _
  obtain ⟨i, hi, hpos⟩ := exists_position_le hle hocc
  have hbehind : (r.text.drop (i + 12)).drop ((lines (r.statusLine :: r.before)).length + 12 - i) =
      r.value ++ (r.partsText ++ (crlf ++ (lines r.after ++ (crlf ++ r.body)))) := by
    have hadd : i + 12 + ((lines (r.statusLine :: r.before)).length + 12 - i) =
        (lines (r.statusLine :: r.before)).length + cookieField.length := by
      change _ = _ + 24
      omega
    rw [List.drop_drop, hadd, ← List.drop_drop, drop_text, List.drop_left]
  have hcr : 13 ∈ (r.text.drop (i + 12)).drop
      ((lines (r.statusLine :: r.before)).length + 12 - i) := by
    rw [hbehind]
    simp [crlf]
  exact ⟨i, hpos, List.mem_of_mem_drop hcr⟩

/-- If no earlier line has the text that the search for the cookie is for, then none may have the
one that ends it, and the path has to be the first part. -/
theorem pathFirst_iff (h : ∀ line ∈ r.statusLine :: r.before, ¬ cookieField <:+: line) :
    r.PathFirst ↔ (∀ line ∈ r.statusLine :: r.before, ¬ pathAttribute <:+: line) ∧
      pathAttribute <+: r.partsText := by
  have hcookie : position cookieField r.text = some (lines (r.statusLine :: r.before)).length :=
    position_lines (by decide) (by decide) (by decide) h (List.prefix_append _ _)
  have hplain : (59 : Byte) ∉ cookieField ++ r.value := by
    rw [List.mem_append, not_or]
    exact ⟨by decide, r.value_plain.2⟩
  have hdrop : r.text.drop ((lines (r.statusLine :: r.before)).length + 24 + r.value.length) =
      r.partsText ++ (crlf ++ (lines r.after ++ (crlf ++ r.body))) := by
    have hlength : (cookieField ++ r.value).length = 24 + r.value.length := List.length_append
    rw [Nat.add_assoc, ← List.drop_drop, drop_text, ← hlength, ← List.append_assoc, List.drop_left]
  constructor
  · rintro ⟨i, hi, -, hpath⟩
    obtain rfl := Option.some.inj (hcookie.symm.trans hi)
    obtain ⟨-, hocc, hfirst⟩ := position_eq_some.mp hpath
    refine ⟨fun line hline hinfix => ?_, ?_⟩
    · obtain ⟨k, hk, hocc'⟩ := exists_drop_of_infix hline hinfix
      exact hfirst k (by omega) hocc'
    · rw [hdrop] at hocc
      rcases Nat.lt_or_ge r.partsText.length pathAttribute.length with hshort | hlong
      · have hover : r.partsText ++ [13] <+: pathAttribute := by
          refine List.prefix_of_prefix_length_le ?_ hocc ?_
          · exact (List.prefix_append_right_inj _).mpr ⟨10 :: _, rfl⟩
          · rw [List.length_append]
            exact hshort
        exact absurd (hover.subset (List.mem_append_right _ List.mem_cons_self)) (by decide)
      · exact List.prefix_of_prefix_length_le hocc (List.prefix_append _ _) hlong
  · rintro ⟨hothers, hpath⟩
    have hplace : position pathAttribute ((cookieField ++ r.value) ++ (r.partsText ++ (crlf ++
        (lines r.after ++ (crlf ++ r.body))))) = some (cookieField ++ r.value).length :=
      position_append_of_not_mem hplain (hpath.trans (List.prefix_append _ _))
    refine ⟨_, hcookie, ?_, ?_⟩
    · rw [drop_text, List.prefix_append_right_inj]
      exact List.prefix_append _ _
    · have hlength : (cookieField ++ r.value).length = 24 + r.value.length := List.length_append
      rw [Nat.add_assoc, ← hlength, text]
      refine position_lines_append (by decide) (by decide) (by decide) hothers ?_
      rw [← hplace, List.append_assoc]

end LoginResponse

/-- After a login the cookie is the one of the response exactly if it is short enough and the first
path is found right behind it. -/
theorem Client.login_stores_iff (p : Parson) (c : Client) (r : LoginResponse)
    (username password : Str) (hsize : r.text.length < 2 ^ 64) :
    c.keep p r.text (.login username password) =
        .ok { c with cookie := some (ascii "connect.sid=" ++ r.value) } ↔
      r.value.length < 988 ∧ r.PathFirst := by
  obtain ⟨i, hi, hcr⟩ := r.exists_position
  have hcookie := sessionCookie_eq_ok_iff hi r.value_plain.1 hcr hsize
  have hpath : r.PathFirst ↔ cookieField ++ r.value <+: r.text.drop i ∧
      position pathAttribute r.text = some (i + 24 + r.value.length) := by
    rw [LoginResponse.PathFirst, hi]
    simp
  rw [hpath, ← hcookie]
  constructor
  · intro h
    obtain ⟨cookie, hok, h⟩ := bind_ok h
    cases cookie with
    | none => exact absurd hok (sessionCookie_ne_none hi)
    | some cookie =>
      have hsome : some cookie = some (ascii "connect.sid=" ++ r.value) :=
        congrArg Client.cookie (Except.ok.inj h)
      rw [hok, hsome]
  · intro h
    rw [Client.keep, h]
    rfl

/-! ## Where the path stands -/

def okLine : Str := ascii "HTTP/1.1 200 OK"

theorem isLine_okLine : ∀ line ∈ okLine :: ([] ++ []), Http.IsLine line := by
  have hline : Http.IsLine okLine := ⟨by decide, by decide⟩
  simpa using hline

theorem okLine_other : ∀ line ∈ okLine :: ([] ++ []), ¬ cookieField <+: line := by
  decide

theorem value_plain : (13 : Byte) ∉ ascii "a" ∧ (59 : Byte) ∉ ascii "a" := by
  decide

def sessionResponse (parts : List Str) (hplain : ∀ part ∈ parts, 13 ∉ part ∧ 59 ∉ part)
    (hpath : ∃ part ∈ parts, IsPath part) : LoginResponse where
  statusLine := okLine
  before := []
  value := ascii "a"
  parts := parts
  after := []
  body := []
  isLine := isLine_okLine
  others := okLine_other
  value_plain := value_plain
  parts_plain := hplain
  path := hpath

theorem pathParts_plain : ∀ part ∈ [ascii " Path=/", ascii " HttpOnly"], 13 ∉ part ∧ 59 ∉ part := by
  decide

theorem pathParts_path : ∃ part ∈ [ascii " Path=/", ascii " HttpOnly"], IsPath part := by
  decide

theorem httpOnlyParts_plain :
    ∀ part ∈ [ascii " HttpOnly", ascii " Path=/"], 13 ∉ part ∧ 59 ∉ part := by
  decide

theorem httpOnlyParts_path : ∃ part ∈ [ascii " HttpOnly", ascii " Path=/"], IsPath part := by
  decide

theorem login_stores_iff_pathFirst :
    let r := sessionResponse _ pathParts_plain pathParts_path
    r.text.length < 2 ^ 64 ∧
      (Client.start.keep Client.plainParson r.text (.login (ascii "u") (ascii "p")) =
          .ok { Client.start with cookie := some (ascii "connect.sid=" ++ r.value) } ↔
        r.value.length < 988 ∧ r.PathFirst) := by
  have hsize : (sessionResponse _ pathParts_plain pathParts_path).text.length < 2 ^ 64 := by
    decide +kernel
  exact ⟨hsize, Client.login_stores_iff Client.plainParson Client.start _ (ascii "u") (ascii "p") hsize⟩

/-- With another attribute in front of the path, that attribute is taken for a part of the cookie. -/
theorem httpOnly_stored :
    let r := sessionResponse _ httpOnlyParts_plain httpOnlyParts_path
    r.value.length < 900 ∧
      Client.start.keep Client.plainParson r.text (.login (ascii "u") (ascii "p")) =
        .ok { Client.start with cookie := some (ascii "connect.sid=a; HttpOnly") } ∧
      ¬ Client.start.keep Client.plainParson r.text (.login (ascii "u") (ascii "p")) =
        .ok { Client.start with cookie := some (ascii "connect.sid=" ++ r.value) } := by
  have hstored : sessionCookie (sessionResponse _ httpOnlyParts_plain httpOnlyParts_path).text =
      .ok (some (ascii "connect.sid=a; HttpOnly")) := by
    decide +kernel
  have hkeep : Client.start.keep Client.plainParson
      (sessionResponse _ httpOnlyParts_plain httpOnlyParts_path).text
      (.login (ascii "u") (ascii "p")) =
        .ok { Client.start with cookie := some (ascii "connect.sid=a; HttpOnly") } := by
    rw [Client.keep, hstored]
    rfl
  refine ⟨(by decide : List.length _ < 900), hkeep, fun h => ?_⟩
  have hcookie : some (ascii "connect.sid=a; HttpOnly") = some (ascii "connect.sid=" ++ ascii "a") :=
    congrArg Client.cookie (Except.ok.inj (hkeep.symm.trans h))
  exact absurd hcookie (by decide)

end PCom.Library
