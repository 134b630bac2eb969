import PCom.Lib.Bisection
import PCom.Router.RoutingTable

namespace PCom.Router

open Lib

def netMask (len : Nat) : Word32 := htonl (BitVec.ofNat 32 (2 ^ 32 - 2 ^ (32 - len)))

def maskLength (m : Word32) : Nat := (List.range 32).countP fun i => m.getLsbD i

def Contiguous (m : Word32) : Prop := ∃ len : Fin 33, m = netMask len

theorem getSubnetMask_eq_netMask (len : Fin 33) : getSubnetMask len = netMask len := by
  revert len
  decide

@[simp] theorem getPrefixLength_netMask (len : Fin 33) :
    getPrefixLength (netMask len) = some len.val := by
  revert len
  decide

@[simp] theorem maskLength_netMask (len : Fin 33) : maskLength (netMask len) = len := by
  revert len
  decide

theorem Contiguous.spec {m : Word32} (h : Contiguous m) :
    ∃ len : Fin 33, getPrefixLength m = some len.val ∧ maskLength m = len ∧ getSubnetMask len = m := by
  obtain ⟨len, rfl⟩ := h
  exact ⟨len, getPrefixLength_netMask len, maskLength_netMask len, getSubnetMask_eq_netMask len⟩

def bucketOf (es : List RtableEntry) (i : Fin 33) : List RtableEntry :=
  es.filter fun e => getPrefixLength e.mask = some i.val

def Rtable.addAll (rt : Rtable) (es : List RtableEntry) : Option Rtable := es.foldlM Rtable.add rt

theorem Bucket.add_entries {b b' : Bucket} {e : RtableEntry} (h : b.add e = some b') :
    b'.entries = b.entries ++ [e] := by
  unfold Bucket.add at h
  split at h
  · split at h
    · cases h
      rfl
    · cases h
  · cases h
    rfl

theorem Rtable.add_some {rt rt' : Rtable} {e : RtableEntry} (h : rt.add e = some rt') :
    ∃ i : Fin 33, getPrefixLength e.mask = some i.val ∧ (rt' i).entries = (rt i).entries ++ [e] ∧
      ∀ j ≠ i, rt' j = rt j := by
  unfold Rtable.add at h
  obtain ⟨idx, hidx, h⟩ := Option.bind_eq_some_iff.mp h
  split at h
  next hlt =>
    obtain ⟨b, hb, h⟩ := Option.bind_eq_some_iff.mp h
    obtain rfl := Option.some.inj h
    refine ⟨⟨idx, hlt⟩, hidx, ?_, fun j hj => Function.update_of_ne hj _ _⟩
    rw [Function.update_self, Bucket.add_entries hb]
  next => cases h

theorem Rtable.add_entries {rt rt' : Rtable} {e : RtableEntry} (h : rt.add e = some rt')
    (i : Fin 33) : (rt' i).entries = (rt i).entries ++ bucketOf [e] i := by
  obtain ⟨j, hj, hself, hother⟩ := Rtable.add_some h
  by_cases hij : i = j
  · subst hij
    simp [hself, bucketOf, hj]
  · have hne : ¬ getPrefixLength e.mask = some i.val := by
      rw [hj]
      intro h
      exact hij (Fin.ext (Option.some.inj h).symm)
    simp [hother i hij, bucketOf, hne]

theorem Rtable.addAll_entries {es : List RtableEntry} {rt rt' : Rtable}
    (h : rt.addAll es = some rt') (i : Fin 33) :
    (rt' i).entries = (rt i).entries ++ bucketOf es i := by
  induction es generalizing rt with
  | nil =>
    obtain rfl := Option.some.inj h
    simp [bucketOf]
  | cons e es ih =>
    rw [Rtable.addAll, List.foldlM_cons] at h
    obtain ⟨rt₁, h₁, h⟩ := Option.bind_eq_some_iff.mp h
    rw [ih h, Rtable.add_entries h₁, List.append_assoc]
    congr 1
    rw [bucketOf, bucketOf, bucketOf, ← List.filter_append, List.singleton_append]

/-! ## Reading the file -/

/-- A word that `%s` reads back and that fits a `char[16]`. -/
structure IsWord (w : List Char) : Prop where
  ne_nil : w ≠ []
  length_le : w.length ≤ 15
  no_space : ∀ c ∈ w, isSpace c = false

structure RouteLine where
  pfx : List Char
  nextHop : List Char
  mask : List Char
  negative : Bool
  digits : List Char
  pfx_word : IsWord pfx
  nextHop_word : IsWord nextHop
  mask_word : IsWord mask
  digits_ne_nil : digits ≠ []
  digits_digit : ∀ c ∈ digits, isDigit c = true

namespace RouteLine

def number (l : RouteLine) : List Char := if l.negative then '-' :: l.digits else l.digits

def text (l : RouteLine) : List Char :=
  l.pfx ++ ' ' :: (l.nextHop ++ ' ' :: (l.mask ++ ' ' :: l.number))

def fields (l : RouteLine) : Fields where
  pfx := l.pfx
  nextHop := l.nextHop
  mask := l.mask
  interface := toInt (if l.negative then -digitsValue l.digits else digitsValue l.digits)

def entry (l : RouteLine) : RtableEntry := l.fields.entry

end RouteLine

/-- The file of some lines.  `trail` follows the last one: nothing, a newline or blank lines. -/
def fileText (trail : List Char) : List RouteLine → List Char
  | [] => trail
  | [l] => l.text ++ trail
  | l :: ls => l.text ++ '\n' :: fileText trail ls

theorem dropWhile_append_of_neg {p : Char → Bool} {w : List Char} (hw : w ≠ [])
    (h : ∀ c ∈ w, p c = false) (s : List Char) : (w ++ s).dropWhile p = w ++ s := by
  cases w with
  | nil => exact absurd rfl hw
  | cons c w => simp [h c (by simp)]

theorem scanWord_append {w : List Char} (hw : IsWord w) (s : List Char) :
    scanWord (w ++ ' ' :: s) = some (w, ' ' :: s) := by
  have hskip := dropWhile_append_of_neg hw.ne_nil hw.no_space (' ' :: s)
  have htake : (w ++ ' ' :: s).takeWhile (!isSpace ·) = w := by
    rw [List.takeWhile_append_of_pos fun c hc => by simp [hw.no_space c hc]]
    simp [isSpace]
  have hdrop : (w ++ ' ' :: s).dropWhile (!isSpace ·) = ' ' :: s := by
    rw [List.dropWhile_append_of_pos fun c hc => by simp [hw.no_space c hc]]
    simp [isSpace]
  unfold scanWord
  rw [hskip]
  obtain ⟨c, w', rfl⟩ := List.exists_cons_of_ne_nil hw.ne_nil
  simpa using ⟨htake, hdrop⟩

theorem scanWord_space_append {w : List Char} (hw : IsWord w) (s : List Char) :
    scanWord (' ' :: (w ++ ' ' :: s)) = some (w, ' ' :: s) := by
  rw [← scanWord_append hw s]
  simp [scanWord, isSpace]

theorem isSpace_of_isDigit {c : Char} (h : isDigit c = true) : isSpace c = false := by
  simp only [isDigit, isSpace, Bool.and_eq_true, decide_eq_true_eq, Char.le_def,
    UInt32.le_iff_toNat_le] at *
  simp only [Bool.or_eq_false_iff, decide_eq_false_iff_not, Bool.and_eq_false_iff]
  have h0 : '0'.val.toNat = 48 := rfl
  have hr : '\r'.val.toNat = 13 := rfl
  refine ⟨?_, Or.inr (by omega)⟩
  rintro rfl
  have hs : ' '.val.toNat = 32 := rfl
  omega

theorem readSign_of_isDigit {c : Char} (h : isDigit c = true) (s : List Char) :
    readSign (c :: s) = (false, c :: s) := by
  have hminus : c ≠ '-' := by rintro rfl; revert h; decide
  have hplus : c ≠ '+' := by rintro rfl; revert h; decide
  unfold readSign
  split
  next heq => exact absurd (List.cons.inj heq).1 hminus
  next heq => exact absurd (List.cons.inj heq).1 hplus
  next => rfl

theorem scanInt_number (l : RouteLine) {s : List Char} (hs : ∀ c ∈ s.head?, isDigit c = false) :
    scanInt (' ' :: (l.number ++ s)) = (some l.fields.interface, s) := by
  obtain ⟨d, ds, hds⟩ := List.exists_cons_of_ne_nil l.digits_ne_nil
  have hd : isDigit d = true := l.digits_digit d (by simp [hds])
  have htake : (l.digits ++ s).takeWhile isDigit = l.digits := by
    rw [List.takeWhile_append_of_pos l.digits_digit]
    cases s with
    | nil => simp
    | cons c s => simp [hs c (by simp)]
  have hdrop : (l.digits ++ s).dropWhile isDigit = s := by
    rw [List.dropWhile_append_of_pos l.digits_digit]
    cases s with
    | nil => simp
    | cons c s => simp [hs c (by simp)]
  have hsp : isSpace ' ' = true := rfl
  have hminus : isSpace '-' = false := rfl
  rw [hds, List.cons_append] at htake hdrop
  cases hneg : l.negative with
  | false =>
    simp [RouteLine.number, RouteLine.fields, scanInt, hneg, hds, hsp, isSpace_of_isDigit hd,
      readSign_of_isDigit hd, htake, hdrop]
  | true =>
    simp [RouteLine.number, RouteLine.fields, scanInt, hneg, hds, hsp, hminus, readSign, htake,
      hdrop]

@[simp] theorem isSpace_newline : isSpace '\n' = true := rfl

theorem fscanfRoute_line (l : RouteLine) (f : Fields) {s : List Char}
    (hs : ∀ c ∈ s.head?, isDigit c = false) :
    fscanfRoute f (l.text ++ s) = some (l.fields, s.dropWhile isSpace) := by
  have hp := scanWord_append l.pfx_word (l.nextHop ++ ' ' :: (l.mask ++ ' ' :: (l.number ++ s)))
  have hn := scanWord_space_append l.nextHop_word (l.mask ++ ' ' :: (l.number ++ s))
  have hm := scanWord_space_append l.mask_word (l.number ++ s)
  have hlp := l.pfx_word.length_le
  have hln := l.nextHop_word.length_le
  have hlm := l.mask_word.length_le
  simp only [RouteLine.text, List.append_assoc, List.cons_append, fscanfRoute, hp, hn, hm,
    scanInt_number l hs, if_neg (not_lt.mpr hlp), if_neg (not_lt.mpr hln),
    if_neg (not_lt.mpr hlm)]
  rfl

theorem fileText_cons (trail : List Char) (l : RouteLine) (ls : List RouteLine) :
    ∃ s, fileText trail (l :: ls) = l.pfx ++ s := by
  cases ls with
  | nil => exact ⟨_, List.append_assoc l.pfx _ trail⟩
  | cons l' ls => exact ⟨_, List.append_assoc l.pfx _ ('\n' :: fileText trail (l' :: ls))⟩

theorem dropWhile_isSpace_fileText (trail : List Char) (l : RouteLine) (ls : List RouteLine) :
    (fileText trail (l :: ls)).dropWhile isSpace = fileText trail (l :: ls) := by
  obtain ⟨s, hs⟩ := fileText_cons trail l ls
  rw [hs, dropWhile_append_of_neg l.pfx_word.ne_nil l.pfx_word.no_space]

theorem fileText_ne_nil (trail : List Char) (l : RouteLine) (ls : List RouteLine) :
    fileText trail (l :: ls) ≠ [] := by
  obtain ⟨s, hs⟩ := fileText_cons trail l ls
  simp [hs, l.pfx_word.ne_nil]

theorem parseLoop_fileText {trail : List Char} (htrail : ∀ c ∈ trail, isSpace c = true)
    {ls : List RouteLine} (hne : ls ≠ []) {fuel : Nat} (hfuel : ls.length ≤ fuel)
    (rt : Rtable) (f : Fields) :
    parseLoop fuel rt f (fileText trail ls) = rt.addAll (ls.map RouteLine.entry) := by
  induction ls generalizing fuel rt f with
  | nil => exact absurd rfl hne
  | cons l ls ih =>
    obtain ⟨fuel, rfl⟩ := Nat.exists_eq_add_of_lt (Nat.lt_of_lt_of_le (Nat.succ_pos _) hfuel)
    cases ls with
    | nil =>
      have hdigit : ∀ c ∈ trail.head?, isDigit c = false := by
        intro c hc
        have hsp := htrail c (List.mem_of_mem_head? hc)
        by_contra hd
        simp [isSpace_of_isDigit (by simpa using hd)] at hsp
      have hdrop : trail.dropWhile isSpace = [] := by
        simpa [List.dropWhile_eq_nil_iff] using htrail
      simp [parseLoop, fileText, fscanfRoute_line l f hdigit, hdrop, Rtable.addAll,
        RouteLine.entry]
    | cons l' ls =>
      have hline : fscanfRoute f (l.text ++ '\n' :: fileText trail (l' :: ls)) =
          some (l.fields, fileText trail (l' :: ls)) := by
        rw [fscanfRoute_line l f (by simp [isDigit]), List.dropWhile_cons, isSpace_newline,
          if_pos rfl, dropWhile_isSpace_fileText]
      have hlen : (l' :: ls).length ≤ fuel := by simpa using hfuel
      have hstep := fun rt => ih (by simp) hlen rt l.fields
      simp only [parseLoop, fileText, Nat.zero_add, hline, Option.bind_eq_bind, Option.bind_some,
        if_neg (fileText_ne_nil trail l' ls), hstep]
      rfl

/-! ## Searching -/

/-- The prefix at an index of a bucket, as the unsigned number the search compares. -/
def keyAt (es : List RtableEntry) (i : Nat) : Nat := (es[i]?.map (·.pfx.toNat)).getD 0

theorem keyAt_of_getElem? {es : List RtableEntry} {i : Nat} {e : RtableEntry}
    (h : es[i]? = some e) : keyAt es i = e.pfx.toNat := by simp [keyAt, h]

theorem wrapInt_of_bounds {n : Int} (hlo : -2 ^ 31 ≤ n) (hhi : n < 2 ^ 31) : wrapInt n = n :=
  Int.bmod_eq_of_le (by omega) (by omega)

theorem searchLoop_eq {es : List RtableEntry} (hsize : es.length < 2 ^ 30) (k : Word32)
    {fuel lo hi : Nat} (hle : lo ≤ hi) (hhi : hi ≤ es.length) (hfuel : hi - lo < fuel) :
    searchLoop es k fuel lo (hi - 1) =
      .ok ((Bisection.search (keyAt es) k.toNat lo hi).bind (es[·]?)) := by
  induction fuel generalizing lo hi with
  | zero => omega
  | succ fuel ih =>
    by_cases hlt : lo < hi
    · obtain ⟨mid, hmid⟩ : ∃ mid, mid = (lo + (hi - 1)) / 2 := ⟨_, rfl⟩
      have hlen : mid < es.length := by omega
      have hleft : lo ≤ mid ∧ mid ≤ es.length ∧ mid - lo < fuel := by omega
      have hright : mid + 1 ≤ hi ∧ hi - (mid + 1) < fuel := by omega
      have hget : es[mid]? = some es[mid] := List.getElem?_eq_getElem hlen
      have hkey := keyAt_of_getElem? hget
      have hm : (wrapInt (lo + (hi - 1))).tdiv 2 = mid := by
        rw [wrapInt_of_bounds (by omega) (by omega), Int.tdiv_eq_ediv_of_nonneg (by omega)]
        omega
      have hw : wrapInt (mid - 1) = mid - 1 := wrapInt_of_bounds (by omega) (by omega)
      have hw' : wrapInt (mid + 1) = mid + 1 := wrapInt_of_bounds (by omega) (by omega)
      rw [searchLoop, if_pos (by omega), Bisection.search_step hlt hmid]
      simp only [hm, Int.toNat_natCast, hget, if_neg (not_lt.mpr (Int.natCast_nonneg mid)), hw,
        hw', hkey]
      by_cases heq : k = es[mid].pfx
      · simp [heq, hget]
      · rw [if_neg heq, if_neg (fun h => heq (BitVec.eq_of_toNat_eq h))]
        by_cases hklt : k < es[mid].pfx
        · have hnot : ¬ k > es[mid].pfx := by simp only [gt_iff_lt, BitVec.lt_def] at *; omega
          rw [if_pos hklt, if_neg hnot, if_pos (BitVec.lt_def.mp hklt)]
          exact ih hleft.1 hleft.2.1 hleft.2.2
        · have hgt : k > es[mid].pfx := by
            have hne : k.toNat ≠ es[mid].pfx.toNat := fun h => heq (BitVec.eq_of_toNat_eq h)
            simp only [gt_iff_lt, BitVec.lt_def] at *
            omega
          rw [if_neg hklt, if_pos hgt, if_neg (fun h => hklt (BitVec.lt_def.mpr h))]
          have := ih hright.1 hhi hright.2
          rwa [Nat.cast_add, Nat.cast_one] at this
    · rw [searchLoop, if_neg (by omega), Bisection.search_of_ge (by omega)]
      rfl

def hit (rt : Rtable) (destIp : Word32) (i : Fin 33) : Option RtableEntry :=
  let es := (rt i).entries
  (Bisection.search (keyAt es) (destIp &&& getSubnetMask i).toNat 0 es.length).bind (es[·]?)

theorem searchBucket_eq (rt : Rtable) (destIp : Word32) (i : Fin 33) :
    searchBucket (rt i).entries (destIp &&& getSubnetMask i) = .ok (hit rt destIp i) := by
  have hsize := Nat.lt_of_lt_of_le (rt i).size_lt (rt i).capacity_le
  rw [searchBucket]
  split
  · rw [wrapInt_of_bounds (by omega) (by omega)]
    exact searchLoop_eq hsize _ (Nat.zero_le _) le_rfl (by omega)
  next h =>
    have hzero : (rt i).entries.length = 0 := by simpa using h
    simp [hit, hzero, Bisection.search_of_ge]

def bestRoute (rt : Rtable) (destIp : Word32) : Option RtableEntry :=
  (List.finRange 33).reverse.findSome? (hit rt destIp)

theorem getBestRoute_eq (rt : Rtable) (destIp : Word32) :
    getBestRoute rt destIp = .ok (bestRoute rt destIp) := by
  have h : ∀ is, searchBuckets rt destIp is = .ok (is.findSome? (hit rt destIp)) := by
    intro is
    induction is with
    | nil => rfl
    | cons i is ih =>
      rw [searchBuckets, searchBucket_eq, List.findSome?_cons]
      cases hit rt destIp i with
      | none => exact ih
      | some e => rfl
  exact h _

theorem hit_some {rt : Rtable} {destIp : Word32} {i : Fin 33} {e : RtableEntry}
    (h : hit rt destIp i = some e) :
    e ∈ (rt i).entries ∧ e.pfx = destIp &&& getSubnetMask i := by
  obtain ⟨j, hj, he⟩ := Option.bind_eq_some_iff.mp h
  obtain ⟨-, -, hkey, -⟩ := Bisection.search_some hj
  rw [keyAt_of_getElem? he] at hkey
  exact ⟨List.mem_of_getElem? he, BitVec.eq_of_toNat_eq hkey⟩

theorem hit_isSome_iff (rt : Rtable) (destIp : Word32) (i : Fin 33) :
    (hit rt destIp i).isSome ↔
      ∃ j < (rt i).entries.length,
        keyAt (rt i).entries j = (destIp &&& getSubnetMask i).toNat ∧
        Bisection.LeadsTo (keyAt (rt i).entries) (destIp &&& getSubnetMask i).toNat 0
          (rt i).entries.length j := by
  have hbind : (hit rt destIp i).isSome ↔ (Bisection.search (keyAt (rt i).entries)
      (destIp &&& getSubnetMask i).toNat 0 (rt i).entries.length).isSome := by
    rw [hit]
    cases hs : Bisection.search (keyAt (rt i).entries) (destIp &&& getSubnetMask i).toNat 0
      (rt i).entries.length with
    | none => simp
    | some j =>
      have := (Bisection.search_some hs).2.1
      simp [this]
  rw [hbind, Bisection.search_isSome_iff]
  simp

/-- A route comes from a bucket no longer bucket of which has a hit. -/
theorem bestRoute_eq_some_iff (rt : Rtable) (destIp : Word32) (e : RtableEntry) :
    bestRoute rt destIp = some e ↔
      ∃ i, hit rt destIp i = some e ∧ ∀ j, i < j → hit rt destIp j = none := by
  have hsorted : (List.finRange 33).reverse.Pairwise (· > ·) := by
    rw [List.pairwise_reverse]
    exact List.pairwise_lt_finRange 33
  constructor
  · intro h
    obtain ⟨l₁, i, l₂, hl, hi, hnone⟩ := List.findSome?_eq_some_iff.mp h
    refine ⟨i, hi, fun j hj => hnone j ?_⟩
    rw [hl] at hsorted
    have hmem : j ∈ l₁ ++ i :: l₂ := by rw [← hl]; simp
    rcases List.mem_append.mp hmem with hj₁ | hj₂
    · exact hj₁
    · -- everything after `i` in the descending list is a shorter bucket
      rcases List.mem_cons.mp hj₂ with rfl | hj₂
      · exact absurd hj (lt_irrefl j)
      · have := (List.pairwise_cons.mp (List.pairwise_append.mp hsorted).2.1).1 j hj₂
        exact absurd hj (not_lt.mpr this.le)
  · rintro ⟨i, hi, hnone⟩
    obtain ⟨l₁, l₂, hl⟩ := List.append_of_mem (show i ∈ (List.finRange 33).reverse by simp)
    refine List.findSome?_eq_some_iff.mpr ⟨l₁, i, l₂, hl, hi, fun j hj => hnone j ?_⟩
    rw [hl] at hsorted
    exact (List.pairwise_append.mp hsorted).2.2 j hj i (by simp)

theorem bestRoute_eq_none_iff (rt : Rtable) (destIp : Word32) :
    bestRoute rt destIp = none ↔ ∀ i, hit rt destIp i = none := by
  simp [bestRoute]

end PCom.Router
