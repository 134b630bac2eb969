import PCom.Library.Client

/-! Where the JSON of a response is taken from. -/

namespace PCom.Library

open Lib

/-- How an object that is not empty begins, without white space in it, and how arrays begin. -/
def objectStart : Str := ascii "\x7b\""
def objectsStart : Str := ascii "[\x7b\""
def emptyArray : Str := ascii "[]"

/-- A response whose body is an object, an array that begins with one or an empty array.  What the
client searches is a C string: the texts stand for what is in front of a first zero byte. -/
structure JsonResponse where
  statusLine : Str
  fields : List Str
  body : Str
  json : objectStart <+: body ∨ objectsStart <+: body ∨ body = emptyArray

namespace JsonResponse

def head (r : JsonResponse) : Str := lines (r.statusLine :: r.fields) ++ crlf

def text (r : JsonResponse) : Str := r.head ++ r.body

/-- The client takes no other response for one. -/
def IsHttp11 (r : JsonResponse) : Prop := ascii "HTTP/1.1" <+: r.statusLine

/-- What is parsed, to be printed or for the token in it, is the body. -/
structure TakesBody (r : JsonResponse) : Prop where
  printed : r.IsHttp11 → ∃ line, printResponse r.text = .ok (.status line (some r.body))
  token : objectStart <+: r.body → basicExtractJsonResponse r.text = some r.body

/-- No text that is searched for occurs in front of the body, and none that is preferred to the
beginning of the body occurs at all. -/
structure BodyFirst (r : JsonResponse) : Prop where
  object : objectStart <+: r.body → ¬ objectStart <:+: r.head
  array : r.IsHttp11 → objectStart <+: r.body →
    ¬ objectsStart <:+: r.text ∧ ¬ emptyArray <:+: r.text
  objects : r.IsHttp11 → objectsStart <+: r.body → ¬ objectsStart <:+: r.head
  empty : r.IsHttp11 → r.body = emptyArray →
    ¬ objectsStart <:+: r.text ∧ ¬ emptyArray <:+: r.head

variable {r : JsonResponse}

theorem text_eq (r : JsonResponse) :
    r.text = lines (r.statusLine :: r.fields) ++ [13] ++ [10] ++ r.body := by
  simp [text, head, crlf]

theorem head_eq (r : JsonResponse) :
    r.head = lines (r.statusLine :: r.fields) ++ [13] ++ [10] := by
  simp [head, crlf]

theorem strstr_text_iff {pat : Str} (hlf : 10 ∉ pat) (hne : pat ≠ []) :
    strstr pat r.text = some r.body ↔ pat <+: r.body ∧ ¬ pat <:+: r.head := by
  rw [text_eq, head_eq]
  exact strstr_append_eq_iff hlf hne

theorem ne_body_of_strstr {pat rest : Str} (hlf : 10 ∉ pat) (hne : pat ≠ [])
    (hpat : ¬ pat <+: r.body) (h : strstr pat r.text = some rest) : rest ≠ r.body := by
  rintro rfl
  exact hpat ((strstr_text_iff hlf hne).mp h).1

theorem infix_of_strstr {pat s rest : Str} (h : strstr pat s = some rest) : pat <:+: s := by
  by_contra hnone
  rw [strstr_eq_none_iff.mpr hnone] at h
  cases h

theorem objectsStart_not_body (h : objectStart <+: r.body) : ¬ objectsStart <+: r.body := by
  obtain ⟨t, ht⟩ := h
  rw [← ht]
  exact fun hpat => absurd (List.cons_prefix_cons.mp hpat).1 (by decide)

theorem emptyArray_not_body (h : objectStart <+: r.body) : ¬ emptyArray <+: r.body := by
  obtain ⟨t, ht⟩ := h
  rw [← ht]
  exact fun hpat => absurd (List.cons_prefix_cons.mp hpat).1 (by decide)

def shownText (response : Str) : Option Str :=
  match basicExtractJsonArrayResponse response with
  | some array => some array
  | none => basicExtractJsonResponse response

/-- The array guesses come before the object guess. -/
theorem shownText_eq (response : Str) : shownText response =
    ((strstr objectsStart response).or (strstr emptyArray response)).or
      (strstr objectStart response) := by
  rw [shownText, basicExtractJsonArrayResponse, basicExtractJsonResponse, objectsStart, emptyArray,
    objectStart]
  cases strstr (ascii "[\x7b\"") response with
  | some array => rfl
  | none => cases strstr (ascii "[]") response <;> rfl

theorem printResponse_text (h : r.IsHttp11) :
    ∃ line, printResponse r.text = .ok (.status line (shownText r.text)) := by
  have hstatus : (ascii "HTTP/1.1").isPrefixOf r.text = true := by
    refine List.isPrefixOf_iff_prefix.mpr (h.trans ?_)
    rw [text, head, lines, List.flatMap_cons, List.append_assoc, List.append_assoc, List.append_assoc]
    exact List.prefix_append _ _
  have hcrlf : crlf <:+: r.text := ⟨lines (r.statusLine :: r.fields), r.body, rfl⟩
  rw [printResponse, if_pos hstatus]
  cases hend : strstr crlf r.text with
  | none => exact absurd hcrlf (strstr_eq_none_iff.mp hend)
  | some lineEnd => exact ⟨_, rfl⟩

theorem shownText_object_iff (h : objectStart <+: r.body) : shownText r.text = some r.body ↔
    (¬ objectsStart <:+: r.text ∧ ¬ emptyArray <:+: r.text) ∧ ¬ objectStart <:+: r.head := by
  have hobjects := objectsStart_not_body h
  have hempty := emptyArray_not_body h
  rw [shownText_eq]
  cases hobj : strstr objectsStart r.text with
  | some rest =>
    have hne := ne_body_of_strstr (by decide) (by decide) hobjects hobj
    exact iff_of_false (fun heq => hne (Option.some.inj heq))
      fun hnone => hnone.1.1 (infix_of_strstr hobj)
  | none =>
    cases hemp : strstr emptyArray r.text with
    | some rest =>
      have hne := ne_body_of_strstr (by decide) (by decide) hempty hemp
      exact iff_of_false (fun heq => hne (Option.some.inj heq))
        fun hnone => hnone.1.2 (infix_of_strstr hemp)
    | none =>
      have hnone := And.intro (strstr_eq_none_iff.mp hobj) (strstr_eq_none_iff.mp hemp)
      have hfound : strstr objectStart r.text = some r.body ↔ _ :=
        strstr_text_iff (by decide) (by decide)
      refine hfound.trans ?_
      simp only [h, hnone, true_and, not_false_eq_true]

theorem shownText_objects_iff (h : objectsStart <+: r.body) : shownText r.text = some r.body ↔
    ¬ objectsStart <:+: r.head := by
  have hoccurs : objectsStart <:+: r.text := h.isInfix.trans (List.suffix_append _ _).isInfix
  rw [shownText_eq]
  cases hobj : strstr objectsStart r.text with
  | none => exact absurd hoccurs (strstr_eq_none_iff.mp hobj)
  | some rest =>
    have hfound : strstr objectsStart r.text = some r.body ↔ _ :=
      strstr_text_iff (by decide) (by decide)
    rw [hobj] at hfound
    refine hfound.trans ?_
    simp only [h, true_and]

theorem shownText_empty_iff (h : r.body = emptyArray) : shownText r.text = some r.body ↔
    ¬ objectsStart <:+: r.text ∧ ¬ emptyArray <:+: r.head := by
  have hoccurs : emptyArray <:+: r.text := h ▸ (List.suffix_append _ _).isInfix
  have hobjects : ¬ objectsStart <+: r.body := by
    rw [h]
    decide
  rw [shownText_eq]
  cases hobj : strstr objectsStart r.text with
  | some rest =>
    have hne := ne_body_of_strstr (by decide) (by decide) hobjects hobj
    exact iff_of_false (fun heq => hne (Option.some.inj heq))
      fun hnone => hnone.1 (infix_of_strstr hobj)
  | none =>
    cases hemp : strstr emptyArray r.text with
    | none => exact absurd hoccurs (strstr_eq_none_iff.mp hemp)
    | some rest =>
      have hfound : strstr emptyArray r.text = some r.body ↔ _ :=
        strstr_text_iff (by decide) (by decide)
      rw [hemp] at hfound
      refine hfound.trans ?_
      rw [h]
      simp only [strstr_eq_none_iff.mp hobj, List.prefix_refl, true_and, not_false_eq_true]

/-- What is parsed is the body exactly if nothing that is searched for comes before it. -/
theorem takesBody_iff (r : JsonResponse) : r.TakesBody ↔ r.BodyFirst := by
  have hprinted (h : r.IsHttp11) :
      (∃ line, printResponse r.text = .ok (.status line (some r.body))) ↔
        shownText r.text = some r.body := by
    obtain ⟨line, hline⟩ := printResponse_text h
    rw [hline]
    simp
  have htoken (h : objectStart <+: r.body) : basicExtractJsonResponse r.text = some r.body ↔
      ¬ objectStart <:+: r.head := by
    have hfound : strstr objectStart r.text = some r.body ↔ _ :=
      strstr_text_iff (by decide) (by decide)
    simp only [h, true_and] at hfound
    exact hfound
  constructor
  · intro htakes
    refine ⟨fun h => (htoken h).mp (htakes.token h), fun hhttp h => ?_, fun hhttp h => ?_,
      fun hhttp h => ?_⟩
    · exact ((shownText_object_iff h).mp ((hprinted hhttp).mp (htakes.printed hhttp))).1
    · exact (shownText_objects_iff h).mp ((hprinted hhttp).mp (htakes.printed hhttp))
    · exact (shownText_empty_iff h).mp ((hprinted hhttp).mp (htakes.printed hhttp))
  · intro hfirst
    refine ⟨fun hhttp => (hprinted hhttp).mpr ?_, fun h => (htoken h).mpr (hfirst.object h)⟩
    rcases r.json with h | h | h
    · exact (shownText_object_iff h).mpr ⟨hfirst.array hhttp h, hfirst.object h⟩
    · exact (shownText_objects_iff h).mpr (hfirst.objects hhttp h)
    · exact (shownText_empty_iff h).mpr (hfirst.empty hhttp h)

def titleBody : Str := ascii "\x7b\"title\":\"[]\"\x7d"

theorem objectStart_titleBody : objectStart <+: titleBody := by
  decide

def titleResponse : JsonResponse where
  statusLine := ascii "HTTP/1.1 200 OK"
  fields := [ascii "Content-Type: application/json"]
  body := titleBody
  json := .inl objectStart_titleBody

/-- It is shown as an empty array with something behind it. -/
theorem titleResponse_misread :
    printResponse titleResponse.text = .ok (.status (ascii "200 OK") (some (ascii "[]\"\x7d"))) ∧
      ¬ titleResponse.TakesBody := by
  have hprint : printResponse titleResponse.text =
      .ok (.status (ascii "200 OK") (some (ascii "[]\"\x7d"))) := by
    decide +kernel
  refine ⟨hprint, fun h => ?_⟩
  have hhttp : titleResponse.IsHttp11 := (by decide : ascii "HTTP/1.1" <+: ascii "HTTP/1.1 200 OK")
  obtain ⟨line, hline⟩ := h.printed hhttp
  rw [hprint] at hline
  have htext : some (ascii "[]\"\x7d") = some titleBody := (Shown.status.inj (Except.ok.inj hline)).2
  exact absurd htext (by decide)

end JsonResponse

end PCom.Library
