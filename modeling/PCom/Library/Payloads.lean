import PCom.Lib.Floating
import PCom.Library.Client
import PCom.Library.Json.Objects
import PCom.Library.Json.RoundTrip

/-! The bodies that `client.c` builds with `parson.c`, as whoever reads JSON reads them. -/

namespace PCom.Library

open Lib Json

/-- One of the calls on `payload_object`, which fail without notice. -/
def setMember (members : Members Binary64) : Member → Members Binary64
  | .string name value => (jsonObjectSetString members name value).getD members
  | .number name value => (jsonObjectSetNumber members name (Binary64.ofInt value)).getD members

def payload (ms : List Member) : Members Binary64 := ms.foldl setMember []

/-- `parson.c` and the C library.  What the prompts read is far below the limit of an `int`, so a
payload is counted without one. -/
def parson : Parson where
  serializePretty ms :=
    match serializeToString binary64 true none (fun _ => 0) (some (.object (payload ms))) with
    | some (some buf) => cstr buf
    | _ => []
  reprint text :=
    match jsonParseString binary64 text with
    | none => none
    | some value =>
      match jsonSerializeToStringPretty binary64 (fun _ => 0) (some value) with
      | some (some buf) => some (cstr buf)
      | _ => none
  getString content name :=
    match jsonParseString binary64 content with
    | some (.object members) =>
      (getnValue members name).map fun value =>
        match value with
        | .string chars => some (cstr chars)
        | _ => none
    | _ => none

namespace Member

def name : Member → Str
  | string name _ => name
  | number name _ => name

/-- A string that is no UTF-8 is not taken. -/
def isSent : Member → Bool
  | string _ value => isValidUtf8 (terminated value) value.length
  | number _ _ => true

/-- A number is meant as it is written in C. -/
def denoted : Member → Str × Value Str
  | string name value => (name, .string value)
  | number name value => (name, .number (intDecimal value))

/-- Numbers are integers that a double holds. -/
def Fits : Member → Prop
  | string _ _ => True
  | number _ value => value.natAbs < 2 ^ 53

end Member

theorem Member.isSent_string {name value : Str} :
    (string name value).isSent = true ↔ IsUtf8 value := by
  have hzero : terminated value value.length = 0 := by simp [terminated]
  rw [isSent, isValidUtf8_terminated hzero, bytes_terminated]

theorem printG_ofInt {i : Int} (hi : i.natAbs < 2 ^ 53) :
    ∃ x, Binary64.ofInt i = some x ∧ x.printG 17 = intDecimal i := by
  obtain ⟨x, hx, hnegative, hmagnitude⟩ := Binary64.ofInt_eq hi
  refine ⟨x, hx, ?_⟩
  rw [Binary64.printG_whole (by decide) (Nat.lt_trans hi (by decide)) hmagnitude, hnegative]
  cases i with
  | ofNat n => rfl
  | negSucc n =>
    rw [decide_eq_true (Int.negSucc_lt_zero n)]
    rfl

theorem setValue_fresh {members : Members Binary64} {name : Str} (h : name ∉ members.map Prod.fst)
    (value : Value Binary64) :
    jsonObjectSetValue members name (some value) = some (members ++ [(name, value)]) := by
  rw [jsonObjectSetValue_eq, if_neg h]

theorem setMember_eq {members : Members Binary64} {m : Member} (h : m.name ∉ members.map Prod.fst)
    (hm : m.Fits) : ∃ value, setMember members m =
      (if m.isSent then members ++ [(m.name, value)] else members) ∧
      (m.isSent = true → (m.name, value.map (Binary64.printG 17)) = m.denoted) := by
  cases m with
  | string name value =>
    have hname : name ∉ members.map Prod.fst := h
    refine ⟨.string value, ?_, fun _ => rfl⟩
    rw [setMember, jsonObjectSetString, jsonValueInitString, jsonValueInitStringWithLen,
      bytes_terminated, Member.isSent, Member.name]
    cases isValidUtf8 (terminated value) value.length with
    | true =>
      rw [if_pos rfl, setValue_fresh hname]
      rfl
    | false => rfl
  | number name value =>
    have hname : name ∉ members.map Prod.fst := h
    obtain ⟨x, hx, hprint⟩ := printG_ofInt hm
    refine ⟨.number x, ?_, fun _ => ?_⟩
    · rw [setMember, jsonObjectSetNumber, hx, jsonValueInitNumber, Option.map_some,
        setValue_fresh hname]
      rfl
    · rw [Value.map, hprint]
      rfl

/-- The numbers as they are written. -/
def written (members : Members Binary64) : Members Str :=
  members.map fun m => (m.1, m.2.map (Binary64.printG 17))

theorem written_foldl {members : Members Binary64} {ms : List Member}
    (hnames : (members.map Prod.fst ++ ms.map Member.name).Nodup) (hfits : ∀ m ∈ ms, m.Fits) :
    written (ms.foldl setMember members) =
      written members ++ (ms.filter Member.isSent).map Member.denoted := by
  induction ms generalizing members with
  | nil => exact (List.append_nil _).symm
  | cons m ms ih =>
    obtain ⟨hm, hms⟩ := List.forall_mem_cons.mp hfits
    rw [List.map_cons] at hnames
    have hfresh : m.name ∉ members.map Prod.fst ++ ms.map Member.name :=
      (List.nodup_middle.mp hnames).notMem
    obtain ⟨value, hset, hdenoted⟩ :=
      setMember_eq (fun hmem => hfresh (List.mem_append_left _ hmem)) hm
    rw [List.foldl_cons, hset]
    cases hsent : m.isSent with
    | true =>
      rw [if_pos rfl, List.filter_cons_of_pos hsent, List.map_cons, ih]
      · rw [← hdenoted hsent, written, written, List.map_append, List.map_singleton,
          List.append_assoc, List.singleton_append]
      · rw [List.map_append, List.map_singleton, List.append_assoc, List.singleton_append]
        exact hnames
      · exact hms
    | false =>
      rw [if_neg Bool.false_ne_true, List.filter_cons_of_neg (by rw [hsent]; exact Bool.false_ne_true)]
      exact ih (List.nodup_middle.mp hnames).of_cons hms

theorem serializePretty_eq (ms : List Member) :
    parson.serializePretty ms = text binary64 true (.object (payload ms)) 0 := by
  have hbuf : serializeToString binary64 true none (fun _ => 0) (some (.object (payload ms))) = _ :=
    serializeToString_eq _ _
  rw [within, if_pos rfl] at hbuf
  simp only [parson, hbuf]
  exact cstr_text _

/-- With the limit it is the same string as long as its length is an `int`, also for payloads that no
line holds. -/
theorem jsonSerializeToStringPretty_payload {ms : List Member}
    (h : (parson.serializePretty ms).length < 2 ^ 31) (garbage : Nat → Byte) :
    jsonSerializeToStringPretty binary64 garbage (some (.object (payload ms))) =
      some (some (parson.serializePretty ms ++ [0])) := by
  rw [serializePretty_eq] at h ⊢
  rw [jsonSerializeToStringPretty, serializeToString_eq, within_intMax, decide_eq_true h, if_pos rfl]

theorem serializePretty_denotes {ms : List Member} (hnames : (ms.map Member.name).Nodup)
    (hfits : ∀ m ∈ ms, m.Fits) : Denotes jsonSpace Numeral (parson.serializePretty ms)
      (.object ((ms.filter Member.isSent).map Member.denoted)) := by
  have htext := denotes_text binary64 true (.object (payload ms)) 0
  have hwritten : written (payload ms) = _ := written_foldl hnames hfits
  rw [Value.map, Value.mapMembers_eq] at htext
  rw [serializePretty_eq]
  convert htext
  exact hwritten.symm

/-- What the prompts of a command ask for. -/
def Command.members : Command → Option (List Member)
  | .register username password => some [.string (ascii "username") username,
      .string (ascii "password") password]
  | .login username password => some [.string (ascii "username") username,
      .string (ascii "password") password]
  | .addBook title author genre publisher (some pageCount) => some [.string (ascii "title") title,
      .string (ascii "author") author, .string (ascii "genre") genre,
      .number (ascii "page_count") pageCount, .string (ascii "publisher") publisher]
  | _ => none

def Command.PagesFit : Command → Prop
  | .addBook _ _ _ _ (some pageCount) => pageCount < 2 ^ 31
  | _ => True

/-- The body of a request is one JSON text, for exactly what the prompts have read, except for what is
no UTF-8. -/
theorem request_body {c : Client} {command : Command} {r : Request} {body : List Str}
    (h : c.request parson command = some r) (hbody : r.bodyData = some body)
    (hpages : command.PagesFit) : ∃ t ms, body = [t] ∧ command.members = some ms ∧
      Denotes jsonSpace Numeral t (.object ((ms.filter Member.isSent).map Member.denoted)) ∧
      0#8 ∉ t := by
  have htext {ms : List Member} (hms : command.members = some ms)
      (hnames : (ms.map Member.name).Nodup) (hfits : ∀ m ∈ ms, m.Fits)
      (ht : some [parson.serializePretty ms] = some body) :
      ∃ t ms, body = [t] ∧ command.members = some ms ∧
        Denotes jsonSpace Numeral t (.object ((ms.filter Member.isSent).map Member.denoted)) ∧
        0#8 ∉ t := by
    have hdenotes := serializePretty_denotes hnames hfits
    exact ⟨_, ms, (Option.some.inj ht).symm, hms, hdenotes, hdenotes.not_mem⟩
  have hcredentials (username password : Str) : ∀ m ∈ [Member.string (ascii "username") username,
      .string (ascii "password") password], m.Fits :=
    List.forall_mem_cons.mpr ⟨trivial, List.forall_mem_singleton.mpr trivial⟩
  have hfields : [ascii "username", ascii "password"].Nodup := by decide
  have hbookFields : [ascii "title", ascii "author", ascii "genre", ascii "page_count",
      ascii "publisher"].Nodup := by decide
  cases command with
  | register username password =>
    cases h
    exact htext rfl hfields (hcredentials _ _) hbody
  | login username password =>
    cases h
    exact htext rfl hfields (hcredentials _ _) hbody
  | addBook title author genre publisher pageCount =>
    cases pageCount with
    | none => cases h
    | some pageCount =>
      rw [Client.request] at h
      split at h
      next => cases h
      next hpos =>
        cases h
        have hlt : pageCount < 2 ^ 31 := hpages
        have hfit : pageCount.natAbs < 2 ^ 53 := by omega
        refine htext rfl hbookFields ?_ hbody
        iterate 3 refine List.forall_mem_cons.mpr ⟨trivial, ?_⟩
        exact List.forall_mem_cons.mpr ⟨hfit, List.forall_mem_singleton.mpr trivial⟩
  | enterLibrary | getBooks | getBook | deleteBook | logout =>
    cases h
    cases hbody
  | exit | unrecognized => cases h

/-- A name with a quotation mark in it. -/
theorem request_body_login : ∃ t ms,
    [parson.serializePretty [.string (ascii "username") [34], .string (ascii "password") (ascii "p")]]
        = [t] ∧
      (Command.login [34] (ascii "p")).members = some ms ∧
      Denotes jsonSpace Numeral t (.object ((ms.filter Member.isSent).map Member.denoted)) ∧
      0#8 ∉ t :=
  @request_body Client.start (.login [34] (ascii "p")) _ _ rfl rfl trivial

theorem rel_getnValue {f : Str → Option Binary64} {members : Members Str} {us : Members Binary64}
    (h : Value.convertMembers f members = some us) (name : Str) :
    Option.Rel (fun value w => value.convert f = some w) (getnValue members name)
      (getnValue us name) := by
  induction members generalizing us with
  | nil =>
    cases h
    exact .none
  | cons m members ih =>
    obtain ⟨w, ws, hw, hws, rfl⟩ := Value.convertMembers_cons.mp h
    have hfirst {μ : Type} (m : Str × Value μ) (members : Members μ) :
        getnValue (m :: members) name = lookup name (m :: members) := rfl
    rw [hfirst, hfirst, lookup_cons, lookup_cons]
    split
    next => exact .some hw
    next => exact ih hws

/-- What `enter_library` keeps of a response with a JSON object in it: the member `token` up to its
first zero.  If that is no string, NULL is read. -/
theorem libraryToken_eq {response t rest : Str} {members : Members Str} {u : Value Binary64}
    (hcontent : basicExtractJsonResponse response = some (t ++ rest))
    (ht : Denotes jsonSpace Numeral t (.object members))
    (hsupported : Supported (maxNesting + 1) (.object members))
    (hu : (Value.object members).convert binary64.read = some u) :
    libraryToken parson response = match getnValue members (ascii "token") with
      | none => .ok none
      | some (.string token) => .ok (some (cstr token))
      | some _ => .error .nullPointer := by
  have hparse : jsonParseString binary64 (t ++ rest) = some u :=
    (jsonParseString_padded (w := []) (.inl rfl) (List.forall_mem_nil _)
      (opens_of_denotes (fun _ ht => ht) ht)
      (reads_of_denotes (fun _ => isSpace_of_jsonSpace) (fun _ ht => ht) ht _) nofun).mpr
      ⟨hsupported, hu⟩
  obtain ⟨us, hus, rfl⟩ := Option.map_eq_some_iff.mp hu
  have hstring : parson.getString (t ++ rest) (ascii "token") =
      (getnValue us (ascii "token")).map fun value =>
        match value with
        | .string chars => some (cstr chars)
        | _ => none := by
    simp only [parson, hparse]
  have hrel := rel_getnValue hus (ascii "token")
  rw [libraryToken, hcontent]
  simp only [hstring]
  generalize getnValue members (ascii "token") = found at hrel
  generalize getnValue us (ascii "token") = read at hrel
  cases hrel with
  | none => rfl
  | @some value w hw =>
    cases value with
    | null | boolean b | string chars =>
      cases hw
      rfl
    | number t =>
      obtain ⟨x, -, rfl⟩ := Option.map_eq_some_iff.mp hw
      rfl
    | array items =>
      obtain ⟨ws, -, rfl⟩ := Option.map_eq_some_iff.mp hw
      rfl
    | object members =>
      obtain ⟨ws, -, rfl⟩ := Option.map_eq_some_iff.mp hw
      rfl

theorem libraryToken_eq_access :
    libraryToken parson (ascii "HTTP/1.1 200 OK\r\n\r\n\x7b\"token\":\"a\"\x7d") = .ok (some (ascii "a")) := by
  have ht : Denotes jsonSpace Numeral (ascii "\x7b\"token\":\"a\"\x7d")
      (.object [(ascii "token", .string (ascii "a"))]) :=
    denotes_text binary64 false (.object [(ascii "token", .string (ascii "a"))]) 0
  have hsupported : Supported (maxNesting + 1) (.object [(ascii "token", .string (ascii "a"))]) := by
    refine ⟨by decide, Value.wellFormed_object.mpr ⟨by decide, by decide, ?_⟩,
      Value.allNumbers_object.mpr ?_⟩
    · exact List.forall_mem_singleton.mpr nofun
    · exact List.forall_mem_singleton.mpr nofun
  exact @libraryToken_eq _ _ [] _ _ (by decide) ht hsupported rfl

end PCom.Library
