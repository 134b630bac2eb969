import PCom.Library.Receive

/-! Responses that arrive in pieces. -/

namespace PCom.Library

open Lib

/-- A response with one field named `Content-Length`, which gives the length of the body. -/
structure Response where
  before : List Str
  name : Str
  digits : Str
  after : List Str
  body : Str
  lines_ok : ∀ line ∈ before ++ after, Http.IsLine line
  name_eq : name.map toLower = ascii "content-length"
  only_field : ∀ line ∈ before ++ after,
    (line.takeWhile (· ≠ 58)).map toLower ≠ ascii "content-length"
  digits_ne_nil : digits ≠ []
  digits_ok : ∀ d ∈ digits, isDecimal d = true
  value_eq : decimalValue digits = body.length
  small : body.length < 2 ^ 31

namespace Response

def header (r : Response) : Str :=
  lines (r.before ++ [Http.fieldLine (r.name, r.digits)] ++ r.after) ++ crlf

def bytes (r : Response) : Str := r.header ++ r.body

/-- However the response is cut into reads, it is returned whole, and no read follows. -/
def Received (r : Response) : Prop :=
  ∀ cuts : List Str, (∀ cut ∈ cuts, 0 < cut.length ∧ cut.length ≤ bufLen) → cuts.flatten = r.bytes →
    receiveFromServer (cuts.map .bytes) = .ok (r.bytes ++ [0], [])

/-- Where the text `Content-Length: ` first occurs in the header block, in any case. -/
def place (r : Response) : Nat :=
  (position (contentLength.map toLower) (r.header.map toLower)).getD 0

/-- The number behind that text. -/
def announced (r : Response) : Int := (numberAt r.header (asInt (r.place + 16))).getD 0

def total (r : Response) : Nat := totalSize r.announced (asInt r.header.length)

/-- The places in the header block are no negative `int`s. -/
structure Located (r : Response) : Prop where
  header : 0 ≤ asInt (r.header.length - 4)
  place : 0 ≤ asInt r.place
  start : 0 ≤ asInt (r.place + 16)

/-- The number behind the first `Content-Length: ` leads to the end of the response, or, without a
body, not behind it. -/
structure Fits (r : Response) : Prop extends r.Located where
  total : r.total = r.bytes.length ∨ r.body = [] ∧ r.total ≤ r.bytes.length

/-! ## The header block -/

theorem isLine_fieldLine (r : Response) : Http.IsLine (Http.fieldLine (r.name, r.digits)) := by
  refine Http.isLine_fieldLine (fun h => ?_) fun h => absurd (r.digits_ok 13 h) (by decide)
  have hmem : toLower 13 ∈ r.name.map toLower := List.mem_map_of_mem h
  rw [r.name_eq] at hmem
  exact absurd hmem (by decide)

theorem position_terminator (r : Response) :
    position headerTerminator r.bytes = some (r.header.length - 4) ∧ 4 ≤ r.header.length := by
  have hlines : ∀ line ∈ r.before ++ [Http.fieldLine (r.name, r.digits)] ++ r.after,
      Http.IsLine line := by
    have hok := List.forall_mem_append.mp r.lines_ok
    refine List.forall_mem_append.mpr ⟨List.forall_mem_append.mpr ⟨hok.1, ?_⟩, hok.2⟩
    exact List.forall_mem_singleton.mpr r.isLine_fieldLine
  obtain ⟨head, hhead, -⟩ := Http.breakAt_header (by simp) hlines r.body
  have hbytes : r.bytes = lines (r.before ++ [Http.fieldLine (r.name, r.digits)] ++ r.after) ++
      (crlf ++ r.body) := List.append_assoc _ _ _
  have hlength := congrArg List.length (eq_of_breakAt hhead)
  rw [← hbytes, bytes, List.length_append, List.length_append, List.length_append] at hlength
  have hfour : (crlf ++ crlf).length = 4 := rfl
  rw [hbytes, headerTerminator, position_of_breakAt hhead]
  exact ⟨congrArg some (by omega), by omega⟩

theorem header_pos (r : Response) : 0 < r.header.length :=
  Nat.lt_of_lt_of_le (by decide) r.position_terminator.2

def opening (r : Response) : Str := lines r.before ++ (r.name ++ ascii ": ")

theorem header_eq (r : Response) :
    r.header = r.opening ++ (r.digits ++ 13 :: 10 :: (lines r.after ++ crlf)) := by
  simp [header, opening, lines, Http.fieldLine, crlf]

theorem map_toLower_opening (r : Response) : r.opening.map toLower
    = lines (r.before.map (·.map toLower)) ++ contentLength.map toLower := by
  rw [opening, List.map_append, List.map_append, r.name_eq, map_toLower_lines]
  rfl

@[simp] theorem length_opening (r : Response) : r.opening.length = (lines r.before).length + 16 := by
  have hlength := congrArg List.length r.map_toLower_opening
  rw [← map_toLower_lines, List.length_append, List.length_map, List.length_map] at hlength
  exact hlength

theorem length_opening_le (r : Response) : r.opening.length ≤ r.header.length := by
  rw [header_eq, List.length_append]
  exact Nat.le_add_right _ _

theorem occurs (r : Response) :
    contentLength.map toLower <+: (r.header.map toLower).drop (lines r.before).length := by
  have hlength : (lines r.before).length = (lines (r.before.map (·.map toLower))).length := by
    rw [← map_toLower_lines, List.length_map]
  rw [header_eq, List.map_append, map_toLower_opening, List.append_assoc, hlength, List.drop_left]
  exact List.prefix_append _ _

theorem place_spec (r : Response) :
    position (contentLength.map toLower) (r.header.map toLower) = some r.place := by
  cases hplace : position (contentLength.map toLower) (r.header.map toLower) with
  | some i => rw [place, hplace, Option.getD_some]
  | none =>
    have hle : (lines r.before).length ≤ (r.header.map toLower).length := by
      have := r.length_opening_le
      rw [length_opening] at this
      rw [List.length_map]
      omega
    exact absurd r.occurs (position_eq_none.mp hplace _ hle)

theorem place_le (r : Response) : r.place ≤ (lines r.before).length := by
  by_contra hlt
  exact (position_eq_some.mp r.place_spec).2.2 _ (Nat.lt_of_not_le hlt) r.occurs

theorem numberAt_append {buffer : Str} {start n : Int} (h : numberAt buffer start = some n)
    (rest : Str) : numberAt (buffer ++ rest) start = some n := by
  rw [numberAt] at h ⊢
  split at h
  next => cases h
  next hstart =>
    obtain ⟨m, hm, rfl⟩ := Option.map_eq_some_iff.mp h
    have hle : start.toNat ≤ buffer.length := by
      by_contra hlt
      rw [List.drop_eq_nil_of_le (Nat.le_of_not_le hlt)] at hm
      cases hm
    rw [if_neg hstart, List.drop_append_of_le_length hle, strtol_append hm, Option.map_some]

theorem numberAt_start (r : Response) (hstart : 0 ≤ asInt (r.place + 16)) :
    numberAt r.header (asInt (r.place + 16)) = some r.announced := by
  have hle : (asInt (r.place + 16)).toNat ≤ r.opening.length := by
    have hint := asInt_le (n := r.place + 16) (by omega)
    have hplace := r.place_le
    rw [length_opening]
    omega
  obtain ⟨ds, d, hds⟩ : ∃ ds d, r.digits = ds ++ [d] :=
    (List.eq_nil_or_concat' r.digits).resolve_left r.digits_ne_nil
  have hd : isDecimal d = true := r.digits_ok d (hds ▸ List.mem_append_right _ List.mem_cons_self)
  have hdrop : r.header.drop (asInt (r.place + 16)).toNat
      = (r.opening.drop (asInt (r.place + 16)).toNat ++ ds) ++
        d :: 13 :: 10 :: (lines r.after ++ crlf) := by
    rw [header_eq, List.drop_append_of_le_length hle, hds]
    simp
  obtain ⟨n, hn⟩ := Option.isSome_iff_exists.mp (strtol_isSome hdrop hd (by decide))
  rw [announced, numberAt, if_neg (Int.not_lt.mpr hstart), hn]
  rfl

/-! ## The first loop -/

section Head

variable {r : Response} {cut : Str} {reads : List ReadResult} {l : Head}

theorem find_terminator {s : Str} (hs : s <+: r.bytes) : bufferFind s headerTerminator
    = some (if r.header.length ≤ s.length then asInt (r.header.length - 4) else -1) := by
  obtain ⟨hposition, hfour⟩ := r.position_terminator
  have hlength : headerTerminator.length = 4 := rfl
  rw [bufferFind_eq, position_of_prefix hposition hs, hlength, Nat.sub_add_cancel hfour]
  split
  next => rw [found, Int.ofNat_sub hfour]; rfl
  next => rfl

theorem headLoop_short (hcut : cut ≠ []) (hs : l.buffer ++ cut <+: r.bytes)
    (hlt : (l.buffer ++ cut).length < r.header.length) :
    headLoop (.bytes cut :: reads) l = headLoop reads ⟨l.buffer ++ cut, -1, l.contentLength⟩ := by
  obtain ⟨b, bs, rfl⟩ := List.exists_cons_of_ne_nil hcut
  rw [headLoop, bufferAdd, find_terminator hs, if_neg (Nat.not_le_of_lt hlt)]
  rfl

theorem headLoop_long (hcut : cut ≠ []) (hs : l.buffer ++ cut <+: r.bytes)
    (hle : r.header.length ≤ (l.buffer ++ cut).length) : headLoop (.bytes cut :: reads) l =
      if 0 ≤ asInt (r.header.length - 4) then
        if asInt r.place < 0 then
          headLoop reads ⟨l.buffer ++ cut, asInt r.header.length, l.contentLength⟩
        else if asInt (r.place + 16) < 0 then .error .outside
        else .ok (⟨l.buffer ++ cut, asInt r.header.length, r.announced⟩, reads)
      else headLoop reads ⟨l.buffer ++ cut, asInt (r.header.length - 4), l.contentLength⟩ := by
  obtain ⟨b, bs, rfl⟩ := List.exists_cons_of_ne_nil hcut
  obtain ⟨rest, hrest⟩ := List.prefix_of_prefix_length_le (List.prefix_append r.header r.body) hs hle
  have hplace : bufferFindInsensitive (l.buffer ++ b :: bs) contentLength = some (asInt r.place) := by
    rw [bufferFindInsensitive_eq, ← hrest, List.map_append, position_append r.place_spec]
    rfl
  have hend : asInt (asInt (r.header.length - 4) + headerTerminator.length) = asInt r.header.length := by
    have hlength : (headerTerminator.length : Int) = 4 := rfl
    rw [asInt_asInt_add, hlength, Int.sub_add_cancel]
  have hstart : asInt (asInt r.place + contentLength.length) = asInt (r.place + 16) := by
    have hlength : (contentLength.length : Int) = 16 := rfl
    rw [asInt_asInt_add, hlength]
  have hnumber : numberAt (l.buffer ++ b :: bs) (asInt (r.place + 16))
      = if asInt (r.place + 16) < 0 then none else some r.announced := by
    split
    next hneg => rw [numberAt, if_pos hneg]
    next hstart =>
      rw [← hrest]
      exact numberAt_append (r.numberAt_start (Int.not_lt.mp hstart)) rest
  rw [headLoop, bufferAdd, find_terminator hs, if_pos hle, hplace]
  rw [inside_some_bind]
  by_cases hheader : 0 ≤ asInt (r.header.length - 4)
  · rw [if_pos hheader, if_pos hheader, hend]
    dsimp only
    rw [inside_some_bind]
    by_cases hfound : asInt r.place < 0
    · rw [if_pos hfound, if_pos hfound]
    · rw [if_neg hfound, if_neg hfound, hstart, hnumber]
      by_cases hneg : asInt (r.place + 16) < 0
      · rw [if_pos hneg, if_pos hneg, inside_none_bind]
      · rw [if_neg hneg, if_neg hneg, inside_some_bind]
        rfl
  · rw [if_neg hheader, if_neg hheader]

theorem headLoop_reached (hlocated : r.Located) {cuts : List Str} (hcuts : ∀ cut ∈ cuts, cut ≠ [])
    (hbytes : l.buffer ++ cuts.flatten = r.bytes) (hlt : l.buffer.length < r.header.length) :
    ∃ (s : Str) (rest : List Str), headLoop (cuts.map .bytes) l
        = .ok (⟨s, asInt r.header.length, r.announced⟩, rest.map .bytes) ∧
      s ++ rest.flatten = r.bytes ∧ r.header.length ≤ s.length ∧ (∀ cut ∈ rest, cut ∈ cuts) ∧
      ∃ cut ∈ cuts, s.length < r.header.length + cut.length := by
  induction cuts generalizing l with
  | nil =>
    have hlength := congrArg List.length hbytes
    rw [List.flatten_nil, List.append_nil, bytes, List.length_append] at hlength
    omega
  | cons cut cuts ih =>
    obtain ⟨hcut, hcuts⟩ := List.forall_mem_cons.mp hcuts
    rw [List.flatten_cons, ← List.append_assoc] at hbytes
    have hs : l.buffer ++ cut <+: r.bytes := ⟨_, hbytes⟩
    rw [List.map_cons]
    by_cases hshort : (l.buffer ++ cut).length < r.header.length
    · rw [headLoop_short hcut hs hshort]
      obtain ⟨s, rest, hloop, hrest, hle, hmem, cut', hcut', hlt'⟩ :=
        ih (l := ⟨l.buffer ++ cut, -1, l.contentLength⟩) hcuts hbytes hshort
      exact ⟨s, rest, hloop, hrest, hle, fun c hc => List.mem_cons_of_mem _ (hmem c hc), cut',
        List.mem_cons_of_mem _ hcut', hlt'⟩
    · rw [headLoop_long hcut hs (Nat.le_of_not_lt hshort), if_pos hlocated.header,
        if_neg (Int.not_lt.mpr hlocated.place), if_neg (Int.not_lt.mpr hlocated.start)]
      refine ⟨_, cuts, rfl, hbytes, Nat.le_of_not_lt hshort, fun c hc => List.mem_cons_of_mem _ hc,
        cut, List.mem_cons_self, ?_⟩
      rw [List.length_append]
      omega

theorem headLoop_not_located (hlocated : ¬ r.Located) {cuts : List Str}
    (hcuts : ∀ cut ∈ cuts, cut ≠ []) (hbytes : l.buffer ++ cuts.flatten = r.bytes)
    (x : Head × List ReadResult) : headLoop (cuts.map .bytes) l ≠ .ok x := by
  induction cuts generalizing l with
  | nil => exact fun h => by cases h
  | cons cut cuts ih =>
    obtain ⟨hcut, hcuts⟩ := List.forall_mem_cons.mp hcuts
    rw [List.flatten_cons, ← List.append_assoc] at hbytes
    have hs : l.buffer ++ cut <+: r.bytes := ⟨_, hbytes⟩
    rw [List.map_cons]
    by_cases hshort : (l.buffer ++ cut).length < r.header.length
    · rw [headLoop_short hcut hs hshort]
      exact ih hcuts hbytes
    · rw [headLoop_long hcut hs (Nat.le_of_not_lt hshort)]
      split
      next hheader =>
        split
        next => exact ih hcuts hbytes
        next hplace =>
          rw [if_pos (Int.not_le.mp fun hstart =>
            hlocated ⟨hheader, Int.not_lt.mp hplace, hstart⟩)]
          exact fun h => by cases h
      next => exact ih hcuts hbytes

end Head

section Body

variable {total : Nat} {s : Str}

theorem bodyLoop_of_le (h : total ≤ s.length) (reads : List ReadResult) :
    bodyLoop total reads s = .ok (s, reads) := by
  rw [bodyLoop.eq_def, if_neg (Nat.not_lt_of_le h)]

theorem bodyLoop_read (h : s.length < total) {cut : Str} (hcut : cut ≠ []) (reads : List ReadResult) :
    bodyLoop total (.bytes cut :: reads) s = bodyLoop total reads (s ++ cut) := by
  obtain ⟨b, bs, rfl⟩ := List.exists_cons_of_ne_nil hcut
  rw [bodyLoop, if_pos h]
  rfl

theorem bodyLoop_whole {cuts : List Str} (hcuts : ∀ cut ∈ cuts, cut ≠ [])
    (htotal : total = (s ++ cuts.flatten).length) :
    bodyLoop total (cuts.map .bytes) s = .ok (s ++ cuts.flatten, []) := by
  induction cuts generalizing s with
  | nil =>
    rw [List.flatten_nil, List.append_nil] at htotal ⊢
    exact bodyLoop_of_le htotal.le _
  | cons cut cuts ih =>
    obtain ⟨hcut, hcuts⟩ := List.forall_mem_cons.mp hcuts
    have hpos := List.length_pos_of_ne_nil hcut
    rw [List.flatten_cons, ← List.append_assoc] at htotal ⊢
    have hlt : s.length < total := by
      rw [htotal, List.length_append, List.length_append]
      omega
    rw [List.map_cons, bodyLoop_read hlt hcut]
    exact ih hcuts htotal

theorem bodyLoop_bytewise {cuts : List Str} (hcuts : ∀ cut ∈ cuts, cut.length = 1) {t : Str}
    {reads : List ReadResult} (h : bodyLoop total (cuts.map .bytes) s = .ok (t, reads)) :
    total ≤ t.length ∧ (t = s ∨ t.length = total) := by
  induction cuts generalizing s with
  | nil =>
    rw [List.map_nil, bodyLoop] at h
    split at h
    next => cases h
    next hle =>
      cases h
      exact ⟨Nat.le_of_not_lt hle, .inl rfl⟩
  | cons cut cuts ih =>
    obtain ⟨hcut, hcuts⟩ := List.forall_mem_cons.mp hcuts
    rcases Nat.lt_or_ge s.length total with hlt | hle
    · rw [List.map_cons, bodyLoop_read hlt (List.ne_nil_of_length_eq_add_one hcut)] at h
      obtain ⟨hle, rfl | heq⟩ := ih hcuts h
      · rw [List.length_append] at hle ⊢
        exact ⟨hle, .inr (by omega)⟩
      · exact ⟨hle, .inr heq⟩
    · rw [bodyLoop_of_le hle] at h
      cases h
      exact ⟨hle, .inl rfl⟩

end Body

/-! ## The whole response -/

theorem ne_nil_of_pieces {cuts : List Str}
    (hcuts : ∀ cut ∈ cuts, 0 < cut.length ∧ cut.length ≤ bufLen) : ∀ cut ∈ cuts, cut ≠ [] :=
  fun cut hcut => List.ne_nil_of_length_pos (hcuts cut hcut).1

@[simp] theorem length_bytes (r : Response) : r.bytes.length = r.header.length + r.body.length :=
  List.length_append

theorem receiveFromServer_eq {reads rest : List ReadResult} {l : Head}
    (h : headLoop reads ⟨[], 0, 0⟩ = .ok (l, rest)) : receiveFromServer reads =
      (bodyLoop (totalSize l.contentLength l.headerEnd) rest l.buffer >>= fun x =>
        pure (bufferAdd x.1 [0], x.2)) := by
  rw [receiveFromServer, h]
  rfl

theorem Fits.received {r : Response} (h : r.Fits) : r.Received := by
  intro cuts hcuts hbytes
  have hnil := ne_nil_of_pieces hcuts
  obtain ⟨s, rest, hloop, hrest, hle, hmem, -⟩ :=
    headLoop_reached (l := ⟨[], 0, 0⟩) h.toLocated hnil hbytes r.header_pos
  have hbody : bodyLoop r.total (rest.map .bytes) s = .ok (r.bytes, []) := by
    rcases h.total with htotal | ⟨hbody, htotal⟩
    · rw [← hrest]
      exact bodyLoop_whole (fun c hc => hnil c (hmem c hc)) (hrest ▸ htotal)
    · have hlength := congrArg List.length hrest
      rw [length_bytes, hbody, List.length_append, List.length_nil] at hlength
      have hflat : rest.flatten = [] := List.length_eq_zero_iff.mp (by omega)
      rw [hflat, List.append_nil] at hrest
      have hdone : rest = [] := by
        cases rest with
        | nil => rfl
        | cons cut rest =>
          rw [List.flatten_cons, List.append_eq_nil_iff] at hflat
          exact absurd hflat.1 (hnil cut (hmem cut List.mem_cons_self))
      rw [hdone, hrest]
      exact bodyLoop_of_le htotal _
  rw [Response.total] at hbody
  rw [receiveFromServer_eq hloop]
  dsimp only
  rw [hbody]
  rfl

theorem Received.fits {r : Response} (h : r.Received) : r.Fits := by
  have hone : ∀ cut ∈ r.bytes.map fun b => [b], cut.length = 1 := by
    intro cut hcut
    obtain ⟨b, -, rfl⟩ := List.mem_map.mp hcut
    rfl
  have hpieces : ∀ cut ∈ r.bytes.map fun b => [b], 0 < cut.length ∧ cut.length ≤ bufLen := by
    intro cut hcut
    rw [hone cut hcut]
    decide
  have hflat : (r.bytes.map fun b => [b]).flatten = r.bytes := by
    rw [← List.flatMap_def]
    exact List.flatMap_singleton' _
  have hnil := ne_nil_of_pieces hpieces
  have hreceived := h _ hpieces hflat
  have hlocated : r.Located := by
    by_contra hlocated
    obtain ⟨x, hx, -⟩ := bind_ok hreceived
    exact headLoop_not_located (l := ⟨[], 0, 0⟩) hlocated hnil hflat x hx
  obtain ⟨s, rest, hloop, hrest, hle, hmem, cut, hcut, hlt⟩ :=
    headLoop_reached (l := ⟨[], 0, 0⟩) hlocated hnil hflat r.header_pos
  rw [receiveFromServer_eq hloop] at hreceived
  dsimp only at hreceived
  obtain ⟨⟨t, reads⟩, hbody, ht⟩ := bind_ok hreceived
  obtain rfl : t = r.bytes := List.append_inj_left' (Prod.mk.inj (Except.ok.inj ht)).1 rfl
  obtain ⟨htotal, hs | heq⟩ := bodyLoop_bytewise (fun c hc => hone c (hmem c hc)) hbody
  · have hlength := congrArg List.length hs
    rw [length_bytes] at hlength
    rw [hone cut hcut] at hlt
    exact ⟨hlocated, .inr ⟨List.length_eq_zero_iff.mp (by omega), htotal⟩⟩
  · exact ⟨hlocated, .inl heq.symm⟩

theorem announced_bounds (r : Response) : -2 ^ 31 ≤ r.announced ∧ r.announced < 2 ^ 31 := by
  rw [announced, numberAt]
  split
  next => exact ⟨by decide, by decide⟩
  next =>
    cases strtol (r.header.drop (asInt (r.place + 16)).toNat) with
    | none => exact ⟨by decide, by decide⟩
    | some n => exact ⟨le_asInt n, asInt_lt n⟩

theorem totalSize_eq {contentLength headerEnd : Int} (hlo : -2 ^ 64 ≤ contentLength + headerEnd)
    (hhi : contentLength + headerEnd < 2 ^ 64) :
    (0 ≤ contentLength + headerEnd ∧
      (totalSize contentLength headerEnd : Int) = contentLength + headerEnd) ∨
    (contentLength + headerEnd < 0 ∧
      (totalSize contentLength headerEnd : Int) = contentLength + headerEnd + 2 ^ 64) := by
  have hnonneg : 0 ≤ (contentLength + headerEnd) % 2 ^ 64 := Int.emod_nonneg _ (by decide)
  rw [totalSize, Int.toNat_of_nonneg hnonneg]
  rcases lt_or_ge (contentLength + headerEnd) 0 with hneg | hpos
  · right
    rw [← Int.add_emod_right, Int.emod_eq_of_lt (by omega) (by omega)]
    exact ⟨hneg, rfl⟩
  · exact .inl ⟨hpos, Int.emod_eq_of_lt hpos hhi⟩

/-- In a header block of ordinary size the number behind the first `Content-Length: ` is the length
of the body, or, without a body, nothing to wait for. -/
theorem fits_iff_of_short {r : Response} (hshort : r.header.length < 2 ^ 31) : r.Fits ↔
    r.announced = r.body.length ∨
      r.body = [] ∧ -r.header.length ≤ r.announced ∧ r.announced ≤ 0 := by
  have hplace := r.place_le
  have hopening := r.length_opening
  have hwithin := r.length_opening_le
  have hfour := r.position_terminator.2
  have hlocated : r.Located := by
    refine ⟨?_, ?_, ?_⟩
    all_goals rw [asInt_of_bounds (by omega) (by omega)]; omega
  have hend : asInt r.header.length = r.header.length := asInt_of_bounds (by omega) (by omega)
  have hsmall := r.small
  obtain ⟨hlow, hhigh⟩ := r.announced_bounds
  have htotal : (0 ≤ r.announced + r.header.length ∧ (r.total : Int) = r.announced + r.header.length) ∨
      (r.announced + r.header.length < 0 ∧ (r.total : Int) = r.announced + r.header.length + 2 ^ 64) := by
    rw [total, hend]
    exact totalSize_eq (by omega) (by omega)
  have hbytes := r.length_bytes
  have hbody : r.body = [] ↔ r.body.length = 0 := List.length_eq_zero_iff.symm
  constructor
  · intro h
    rcases h.total with h | ⟨hnil, h⟩
    · left
      omega
    · right
      refine ⟨hnil, ?_⟩
      rw [hbody] at hnil
      omega
  · rintro (h | ⟨hnil, h⟩)
    · exact ⟨hlocated, .inl (by omega)⟩
    · refine ⟨hlocated, .inr ⟨hnil, ?_⟩⟩
      omega

theorem announced_eq {r : Response} (hshort : r.header.length < 2 ^ 31)
    (hbefore : ∀ line ∈ r.before, ¬ contentLength.map toLower <:+: line.map toLower) :
    r.announced = r.body.length := by
  have hplace : r.place = (lines r.before).length := by
    rw [place, header_eq, List.map_append, map_toLower_opening, List.append_assoc,
      position_lines (by decide) (by decide) (by decide) (List.forall_mem_map.mpr hbefore)
        (List.prefix_append _ _), Option.getD_some, ← map_toLower_lines, List.length_map]
  have hstart : r.opening.length = r.place + 16 := by
    rw [length_opening, hplace]
  have hvalue : strtol (r.header.drop (r.place + 16)) = some (r.body.length : Int) := by
    rw [header_eq, ← hstart, List.drop_left,
      strtol_digits r.digits_ne_nil r.digits_ok (r.value_eq ▸ r.small) (by decide), r.value_eq]
  have hwithin := r.length_opening_le
  have hsmall := r.small
  have hint : asInt (r.place + 16) = ((r.place + 16 : Nat) : Int) :=
    asInt_of_bounds (by omega) (by omega)
  rw [announced, hint, numberAt, if_neg (by omega), Int.toNat_natCast, hvalue, Option.map_some,
    Option.getD_some, asInt_of_bounds (by omega) (by omega)]

/-- A response is received whole, however it is cut, exactly if it fits.  In a header block of
ordinary size it does not fit only if an earlier line has the text `Content-Length: ` with another
number behind it. -/
theorem received_iff (r : Response) : (r.Received ↔ r.Fits) ∧ (r.header.length < 2 ^ 31 →
    (r.Fits ↔ r.announced = r.body.length ∨
      r.body = [] ∧ -r.header.length ≤ r.announced ∧ r.announced ≤ 0) ∧
    ((∀ line ∈ r.before, ¬ contentLength.map toLower <:+: line.map toLower) →
      r.announced = r.body.length)) :=
  ⟨⟨Received.fits, Fits.received⟩, fun hshort => ⟨fits_iff_of_short hshort, announced_eq hshort⟩⟩

/-! ## A field whose name ends like `Content-Length` -/

section Concrete

theorem statusLine_ok : Http.IsLine (ascii "HTTP/1.1 200 OK") := ⟨by decide, by decide⟩

theorem plainLines_ok : ∀ line ∈ [ascii "HTTP/1.1 200 OK"] ++ [], Http.IsLine line :=
  List.forall_mem_singleton.mpr statusLine_ok

theorem plainLines_only : ∀ line ∈ [ascii "HTTP/1.1 200 OK"] ++ [],
    (line.takeWhile (· ≠ 58)).map toLower ≠ ascii "content-length" := by
  decide

theorem sharedLines_ok : ∀ line ∈ [ascii "HTTP/1.1 200 OK", ascii "X-Content-Length: 0"] ++ [],
    Http.IsLine line :=
  List.forall_mem_cons.mpr ⟨statusLine_ok, List.forall_mem_singleton.mpr ⟨by decide, by decide⟩⟩

theorem sharedLines_only : ∀ line ∈ [ascii "HTTP/1.1 200 OK", ascii "X-Content-Length: 0"] ++ [],
    (line.takeWhile (· ≠ 58)).map toLower ≠ ascii "content-length" := by
  decide

theorem two_ok : ∀ d ∈ ascii "2", isDecimal d = true := by decide

def plain : Response where
  before := [ascii "HTTP/1.1 200 OK"]
  name := ascii "content-length"
  digits := ascii "2"
  after := []
  body := ascii "ok"
  lines_ok := plainLines_ok
  name_eq := rfl
  only_field := plainLines_only
  digits_ne_nil := List.cons_ne_nil _ _
  digits_ok := two_ok
  value_eq := rfl
  small := Nat.le_of_ble_eq_true rfl

/-- The other field speaks of no bytes at all. -/
def shared : Response where
  before := [ascii "HTTP/1.1 200 OK", ascii "X-Content-Length: 0"]
  name := ascii "Content-Length"
  digits := ascii "2"
  after := []
  body := ascii "ok"
  lines_ok := sharedLines_ok
  name_eq := rfl
  only_field := sharedLines_only
  digits_ne_nil := List.cons_ne_nil _ _
  digits_ok := two_ok
  value_eq := rfl
  small := Nat.le_of_ble_eq_true rfl

theorem received_iff_plain : plain.Received ∧ plain.announced = 2 := by
  have hshort : plain.header.length < 2 ^ 31 := by decide +kernel
  obtain ⟨hiff, hplain⟩ := received_iff plain
  have hvalue : plain.announced = plain.body.length := (hplain hshort).2 (by decide +kernel)
  exact ⟨hiff.mpr ((hplain hshort).1.mpr (.inl hvalue)), hvalue⟩

theorem shared_not_received : ¬ shared.Received := by
  intro h
  have hshort : shared.header.length < 2 ^ 31 := by decide +kernel
  have hnumber : ¬ (shared.announced = shared.body.length ∨
      shared.body = [] ∧ -shared.header.length ≤ shared.announced ∧ shared.announced ≤ 0) := by
    decide +kernel
  exact hnumber ((fits_iff_of_short hshort).mp h.fits)

end Concrete

end Response

end PCom.Library
