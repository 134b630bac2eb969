import PCom.Lib.Text

/-! Reading an HTTP/1.1 request off the front of a stream of bytes. -/

namespace PCom.Lib.Http

abbrev Field := List Byte × List Byte

structure Request where
  method : List Byte
  target : List Byte
  version : List Byte
  fields : List Field
  body : List Byte

/-- The values of the fields with a name, whatever the case of its letters. -/
def values (fields : List Field) (name : List Byte) : List (List Byte) :=
  (fields.filter fun f => f.1.map toLower = name.map toLower).map Prod.snd

/-- The length of the body, which is empty without a `Content-Length`. -/
def contentLength (fields : List Field) : Option Nat :=
  match values fields (ascii "Content-Length") with
  | [] => some 0
  | [n] => if n ≠ [] ∧ n.all isDecimal then some (decimalValue n) else none
  | _ => none

def readRequestLine (line : List Byte) : Option (List Byte × List Byte × List Byte) := do
  let (method, rest) ← breakAt (ascii " ") line
  let (version, target) ← breakAt (ascii " ") rest.reverse
  return (method, target.reverse, version.reverse)

def readRequest (bytes : List Byte) : Option (Request × List Byte) := do
  let (head, rest) ← breakAt (crlf ++ crlf) bytes
  match splitPair 13 10 head with
  | [] => none
  | requestLine :: fieldLines =>
    let (method, target, version) ← readRequestLine requestLine
    let fields ← fieldLines.mapM (breakAt (ascii ": "))
    let n ← contentLength fields
    if n ≤ rest.length then some (⟨method, target, version, fields, rest.take n⟩, rest.drop n)
    else none

structure IsLine (line : List Byte) : Prop where
  ne_nil : line ≠ []
  no_cr : (13 : Byte) ∉ line

theorem breakAt_header {ls : List (List Byte)} (hne : ls ≠ []) (hls : ∀ line ∈ ls, IsLine line)
    (rest : List Byte) : ∃ head, breakAt (crlf ++ crlf) (lines ls ++ (crlf ++ rest)) = some (head, rest) ∧
      splitPair 13 10 head = ls := by
  induction ls with
  | nil => exact absurd rfl hne
  | cons line ls ih =>
    obtain ⟨hline, hrest⟩ := List.forall_mem_cons.mp hls
    cases ls with
    | nil =>
      refine ⟨line, ?_, splitPair_of_not_mem 10 hline.no_cr⟩
      have hshape : lines [line] ++ (crlf ++ rest) = line ++ (13 :: [10, 13, 10] ++ rest) := by
        simp [lines, crlf]
      rw [hshape]
      exact breakAt_append _ hline.no_cr rest
    | cons line' ls =>
      obtain ⟨head, hhead, hsplit⟩ := ih (List.cons_ne_nil _ _) hrest
      refine ⟨line ++ 13 :: 10 :: head, ?_, ?_⟩
      · obtain ⟨c, tail, hc⟩ := List.exists_cons_of_ne_nil (hrest line' List.mem_cons_self).ne_nil
        have hcr : (13 : Byte) ≠ c := by
          intro hcr
          exact (hrest line' List.mem_cons_self).no_cr (hc ▸ hcr ▸ List.mem_cons_self)
        have hshape : lines (line :: line' :: ls) ++ (crlf ++ rest)
            = line ++ 13 :: 10 :: (lines (line' :: ls) ++ (crlf ++ rest)) := by
          simp [lines, crlf]
        have hbegin : ∃ s, lines (line' :: ls) ++ (crlf ++ rest) = c :: s := by
          rw [lines, List.flatMap_cons, hc]
          exact ⟨_, rfl⟩
        obtain ⟨s, hs⟩ := hbegin
        rw [hs] at hhead
        rw [hshape, hs]
        have hcrlf : crlf ++ crlf = (13 : Byte) :: [10, 13, 10] := rfl
        rw [hcrlf] at hhead ⊢
        have hfirst : ¬ ([13, 10, 13, 10] : List Byte).isPrefixOf (13 :: 10 :: c :: s) = true := by
          rw [List.isPrefixOf_iff_prefix]
          simp only [List.cons_prefix_cons, hcr, false_and, and_false, not_false_iff]
        have hsecond : ¬ ([13, 10, 13, 10] : List Byte).isPrefixOf (10 :: c :: s) = true := by
          rw [List.isPrefixOf_iff_prefix, List.cons_prefix_cons]
          exact fun h => absurd h.1 (by decide)
        rw [breakAt_append_of_not_mem _ hline.no_cr, breakAt, if_neg hfirst, breakAt,
          if_neg hsecond, hhead]
        rfl
      · rw [splitPair_append (by decide), splitPair_of_not_mem 10 hline.no_cr, hsplit]
        rfl

def fieldLine (f : Field) : List Byte := f.1 ++ (ascii ": " ++ f.2)

theorem isLine_fieldLine {f : Field} (hname : (13 : Byte) ∉ f.1) (hvalue : (13 : Byte) ∉ f.2) :
    IsLine (fieldLine f) := by
  have hcolon : (13 : Byte) ∉ ascii ": " := by decide
  refine ⟨?_, ?_⟩
  · exact List.append_ne_nil_of_right_ne_nil _ (List.append_ne_nil_of_left_ne_nil (by decide) _)
  · simp only [fieldLine, List.mem_append, hname, hcolon, hvalue, or_self, not_false_iff]

theorem mapM_fieldLine {fields : List Field} (h : ∀ f ∈ fields, (58 : Byte) ∉ f.1) :
    (fields.map fieldLine).mapM (breakAt (ascii ": ")) = some fields := by
  induction fields with
  | nil => rfl
  | cons f fields ih =>
    obtain ⟨hf, hfields⟩ := List.forall_mem_cons.mp h
    have hline : breakAt (ascii ": ") (fieldLine f) = some f := breakAt_append _ hf f.2
    rw [List.map_cons, List.mapM_cons, hline, ih hfields]
    rfl

theorem readRequestLine_eq {method version : List Byte} (hmethod : (32 : Byte) ∉ method)
    (hversion : (32 : Byte) ∉ version) (target : List Byte) :
    readRequestLine (method ++ (ascii " " ++ (target ++ (ascii " " ++ version))))
      = some (method, target, version) := by
  have hfirst : breakAt (ascii " ") (method ++ (ascii " " ++ (target ++ (ascii " " ++ version))))
      = some (method, target ++ (ascii " " ++ version)) := breakAt_append [] hmethod _
  have hreverse : (target ++ (ascii " " ++ version)).reverse
      = version.reverse ++ (ascii " " ++ target.reverse) := by
    simp [ascii]
  have hlast : breakAt (ascii " ") (target ++ (ascii " " ++ version)).reverse
      = some (version.reverse, target.reverse) := by
    rw [hreverse]
    exact breakAt_append [] (mt List.mem_reverse.mp hversion) _
  rw [readRequestLine, hfirst]
  simp only [Option.bind_eq_bind, Option.bind_some, hlast, List.reverse_reverse]
  rfl

theorem readRequest_eq {method target version : List Byte} {fields : List Field} {n : Nat}
    (hmethod : (32 : Byte) ∉ method) (hversion : (32 : Byte) ∉ version)
    (hnames : ∀ f ∈ fields, (58 : Byte) ∉ f.1) (hlength : contentLength fields = some n)
    (hline : IsLine (method ++ (ascii " " ++ (target ++ (ascii " " ++ version)))))
    (hfields : ∀ f ∈ fields, IsLine (fieldLine f)) {rest : List Byte} (hn : n ≤ rest.length) :
    readRequest (lines ((method ++ (ascii " " ++ (target ++ (ascii " " ++ version)))) ::
        fields.map fieldLine) ++ (crlf ++ rest))
      = some (⟨method, target, version, fields, rest.take n⟩, rest.drop n) := by
  have hlines : ∀ line ∈ (method ++ (ascii " " ++ (target ++ (ascii " " ++ version)))) ::
      fields.map fieldLine, IsLine line := by
    refine List.forall_mem_cons.mpr ⟨hline, fun line hmem => ?_⟩
    obtain ⟨f, hf, rfl⟩ := List.mem_map.mp hmem
    exact hfields f hf
  obtain ⟨head, hhead, hsplit⟩ := breakAt_header (List.cons_ne_nil _ _) hlines rest
  rw [readRequest, hhead]
  simp only [Option.bind_eq_bind, Option.bind_some, hsplit, readRequestLine_eq hmethod hversion,
    mapM_fieldLine hnames, hlength, if_pos hn]

end PCom.Lib.Http
