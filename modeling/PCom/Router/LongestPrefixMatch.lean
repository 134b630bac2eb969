import Mathlib.Data.Finset.Max
import PCom.Router.RoutingTableLaws

namespace PCom.Router

open Lib

def Matches (e : RtableEntry) (destIp : Word32) : Prop := destIp &&& e.mask = e.pfx

/-- `r` answers the lookup of `destIp` among the routes `es`: a matching route with a longest
mask, or no route when none matches. -/
def LongestPrefixMatch (es : List RtableEntry) (destIp : Word32) : Option RtableEntry → Prop
  | some e => e ∈ es ∧ Matches e destIp ∧
      ∀ e' ∈ es, Matches e' destIp → maskLength e'.mask ≤ maskLength e.mask
  | none => ∀ e ∈ es, ¬ Matches e destIp

theorem exists_longestPrefixMatch {es : List RtableEntry} {destIp : Word32} {e : RtableEntry}
    (he : e ∈ es) (hm : Matches e destIp) : ∃ e', LongestPrefixMatch es destIp (some e') := by
  classical
  have hne : (es.filter (Matches · destIp)).toFinset.Nonempty := ⟨e, by simp [he, hm]⟩
  obtain ⟨e', he', hmax⟩ := Finset.exists_max_image _ (fun x => maskLength x.mask) hne
  simp only [List.mem_toFinset, List.mem_filter, decide_eq_true_eq, and_imp] at he' hmax
  exact ⟨e', he'.1, he'.2, hmax⟩

section Table

/-! ## From buckets to the whole table -/

variable {es : List RtableEntry} {rt : Rtable} {destIp : Word32}

theorem mem_bucketOf {e : RtableEntry} {i : Fin 33} :
    e ∈ bucketOf es i ↔ e ∈ es ∧ getPrefixLength e.mask = some i.val := by
  simp [bucketOf]

theorem matches_iff_of_bucket {e : RtableEntry} {i : Fin 33} (hc : Contiguous e.mask)
    (hi : getPrefixLength e.mask = some i.val) :
    Matches e destIp ↔ destIp &&& getSubnetMask i = e.pfx := by
  obtain ⟨len, hlen, -, hmask⟩ := hc.spec
  have hli : len = i := Fin.ext (Option.some.inj (hlen.symm.trans hi))
  rw [Matches, ← hli, hmask]

theorem maskLength_of_bucket {e : RtableEntry} {i : Fin 33} (hc : Contiguous e.mask)
    (hi : getPrefixLength e.mask = some i.val) : maskLength e.mask = i := by
  obtain ⟨len, hlen, hones, -⟩ := hc.spec
  rw [hones]
  exact Option.some.inj (hlen.symm.trans hi)

/-- The lookup is right exactly when the bucket of the longest match has a hit: every hit
matches, so a longer bucket never answers in its place. -/
theorem longestPrefixMatch_bestRoute_iff (hc : ∀ e ∈ es, Contiguous e.mask)
    (hrt : ∀ i, ∀ e ∈ (rt i).entries, e ∈ bucketOf es i) :
    LongestPrefixMatch es destIp (bestRoute rt destIp) ↔
      ∀ e, LongestPrefixMatch es destIp (some e) →
        ∀ i : Fin 33, getPrefixLength e.mask = some i.val → (hit rt destIp i).isSome := by
  have hhit : ∀ {i e}, hit rt destIp i = some e →
      e ∈ es ∧ Matches e destIp ∧ maskLength e.mask = i := by
    intro i e h
    obtain ⟨hmem, hpfx⟩ := hit_some h
    obtain ⟨hes, hi⟩ := mem_bucketOf.mp (hrt i e hmem)
    exact ⟨hes, (matches_iff_of_bucket (hc e hes) hi).mpr hpfx.symm,
      maskLength_of_bucket (hc e hes) hi⟩
  constructor
  · intro h e he i hi
    cases hb : bestRoute rt destIp with
    | none =>
      rw [hb] at h
      exact absurd he.2.1 (h e he.1)
    | some r =>
      rw [hb] at h
      obtain ⟨i', hi', -⟩ := (bestRoute_eq_some_iff rt destIp r).mp hb
      obtain ⟨hr, hrm, hlen⟩ := hhit hi'
      have hle := he.2.2 r hr hrm
      have hge := h.2.2 e he.1 he.2.1
      rw [maskLength_of_bucket (hc e he.1) hi, hlen] at hle hge
      have : i = i' := Fin.ext (le_antisymm hge hle)
      rw [this, hi']
      rfl
  · intro h
    have hlonger : ∀ e ∈ es, Matches e destIp →
        ∃ i e', hit rt destIp i = some e' ∧ maskLength e.mask ≤ i := by
      intro e he hm
      obtain ⟨e', he'⟩ := exists_longestPrefixMatch he hm
      obtain ⟨i, hi, hlen, -⟩ := (hc e' he'.1).spec
      obtain ⟨r, hr⟩ := Option.isSome_iff_exists.mp (h e' he' i hi)
      exact ⟨i, r, hr, hlen ▸ he'.2.2 e he hm⟩
    cases hb : bestRoute rt destIp with
    | none =>
      intro e he hm
      obtain ⟨i, e', hi, -⟩ := hlonger e he hm
      rw [(bestRoute_eq_none_iff rt destIp).mp hb i] at hi
      cases hi
    | some r =>
      obtain ⟨i, hi, hnone⟩ := (bestRoute_eq_some_iff rt destIp r).mp hb
      obtain ⟨hr, hrm, hlen⟩ := hhit hi
      refine ⟨hr, hrm, fun e he hm => ?_⟩
      obtain ⟨i', e', hi', hle⟩ := hlonger e he hm
      have hnot : ¬ i < i' := by
        intro hlt
        rw [hnone i' hlt] at hi'
        cases hi'
      have : (i' : Nat) ≤ i := not_lt.mp hnot
      rw [hlen]
      exact hle.trans this

end Table

/-! ## The two comparisons -/

/-- Unsigned words less than `2 ^ 31` apart. -/
def Near (x y : Nat) : Prop := x < y + 2 ^ 31 ∧ y < x + 2 ^ 31

theorem entryCompare_eq (a b : RtableEntry) :
    entryCompare a b = ((a.pfx.toNat : Int) - b.pfx.toNat).bmod (2 ^ 32) := by
  rw [entryCompare, BitVec.toInt_sub, BitVec.toInt_eq_toNat_bmod, BitVec.toInt_eq_toNat_bmod,
    Int.bmod_sub_bmod, Int.sub_bmod_bmod]

theorem entryCompare_of_near {a b : RtableEntry} (h : Near a.pfx.toNat b.pfx.toNat) :
    entryCompare a b = (a.pfx.toNat : Int) - b.pfx.toNat := by
  rw [entryCompare_eq]
  unfold Near at h
  exact Int.bmod_eq_of_le (by omega) (by omega)

/-- On words further apart it orders the other way, or calls each less than the other. -/
theorem near_of_entryCompare {es : List RtableEntry} (hc : ConsistentOn entryCompare es)
    {a b : RtableEntry} (ha : a ∈ es) (hb : b ∈ es) (hle : a.pfx.toNat ≤ b.pfx.toNat)
    (hcmp : entryCompare a b ≤ 0) : Near a.pfx.toNat b.pfx.toNat := by
  have hbb := b.pfx.isLt
  refine ⟨by omega, ?_⟩
  by_contra hfar
  have hanti := hc.antisymm a ha b hb
  rw [entryCompare_eq] at hcmp hanti
  rw [entryCompare_eq] at hanti
  rw [Int.bmod_def] at hcmp hanti
  rw [Int.bmod_def] at hanti
  omega

theorem entryCompare_eq_zero_of_pfx {a b : RtableEntry} (h : a.pfx = b.pfx) :
    entryCompare a b = 0 := by
  simp [entryCompare, h]

/-- In a bucket that `entry_compare` orders, the unsigned search is led to an index exactly
when all it meets on the way is near the word it looks for. -/
theorem leadsTo_iff_near {a : List RtableEntry} (hc : ConsistentOn entryCompare a)
    (hs : a.Pairwise fun x y => entryCompare x y ≤ 0) {j : Nat} (hj : j < a.length) :
    Bisection.LeadsTo (keyAt a) (keyAt a j) 0 a.length j ↔
      ∀ m ∈ Bisection.path 0 a.length j, Near (keyAt a m) (keyAt a j) := by
  have hkey : ∀ {i} (hi : i < a.length), keyAt a i = a[i].pfx.toNat := fun hi =>
    keyAt_of_getElem? (List.getElem?_eq_getElem hi)
  have hcmp : ∀ {i i'} (hi' : i' < a.length) (hlt : i < i'), entryCompare a[i] a[i'] ≤ 0 :=
    fun hi' hlt => List.pairwise_iff_getElem.mp hs _ _ _ hi' hlt
  constructor
  · intro h m hm
    have hmlt := (Bisection.mem_path_bounds hm).2
    obtain ⟨hleft, hright⟩ := h m hm
    rw [hkey hj, hkey hmlt] at *
    rcases lt_trichotomy m j with hmj | rfl | hjm
    · exact near_of_entryCompare hc (List.getElem_mem _) (List.getElem_mem _) (hleft hmj)
        (hcmp hj hmj)
    · exact ⟨by omega, by omega⟩
    · exact (near_of_entryCompare hc (List.getElem_mem _) (List.getElem_mem _) (hright hjm)
        (hcmp hmlt hjm)).symm
  · intro h m hm
    have hmlt := (Bisection.mem_path_bounds hm).2
    have hnear := h m hm
    rw [hkey hj, hkey hmlt] at *
    refine ⟨fun hmj => ?_, fun hjm => ?_⟩
    · have := hcmp hj hmj
      rw [entryCompare_of_near hnear] at this
      omega
    · have := hcmp hmlt hjm
      rw [entryCompare_of_near hnear.symm] at this
      omega

def withMask (es : List RtableEntry) (m : Word32) : List RtableEntry := es.filter (·.mask = m)

theorem bucketOf_eq_withMask {es : List RtableEntry} (hc : ∀ e ∈ es, Contiguous e.mask)
    {m : Word32} (hm : Contiguous m) {i : Fin 33} (hi : getPrefixLength m = some i.val) :
    bucketOf es i = withMask es m := by
  refine List.filter_congr fun e he => ?_
  obtain ⟨len, hlen, -, hmask⟩ := (hc e he).spec
  obtain ⟨len', hlen', -, hmask'⟩ := hm.spec
  rw [hlen'] at hi
  rw [decide_eq_decide, hlen]
  constructor
  · intro h
    rw [← hmask, ← hmask', Option.some.inj h, Option.some.inj hi]
  · intro h
    rw [← hlen, h, hlen', hi]

/-- Halving `a` towards some entry with prefix `k` meets only words near `k`. -/
def MeetsNear (a : List RtableEntry) (k : Word32) : Prop :=
  ∃ j < a.length, keyAt a j = k.toNat ∧
    ∀ m ∈ Bisection.path 0 a.length j, Near (keyAt a m) k.toNat

/-- When the table loaded from `ls` answers for `destIp`: the file has a line, and in the bucket
of a longest match `entry_compare` is an order in which halving meets only near words. -/
def SearchReaches (ls : List RouteLine) (destIp : Word32) : Prop :=
  ls ≠ [] ∧ ∀ e, LongestPrefixMatch (ls.map RouteLine.entry) destIp (some e) →
    let bucket := withMask (ls.map RouteLine.entry) e.mask
    ConsistentOn entryCompare bucket ∧
      ∀ a, a.Perm bucket → a.Pairwise (fun x y => entryCompare x y ≤ 0) → MeetsNear a e.pfx

section Load

variable {qsort : Qsort RtableEntry} {f : Fields} {trail : List Char} {ls : List RouteLine}

theorem Bucket.sort_entries (b : Bucket) :
    (b.sort qsort).entries = qsort.sort entryCompare b.entries := by
  unfold Bucket.sort
  split
  · rfl
  next h =>
    have hnil : b.entries = [] := by simpa using h
    have : (qsort.sort entryCompare []).length = 0 := qsort.length_sort entryCompare []
    rw [hnil, List.length_eq_zero_iff.mp this]

theorem fileText_length (trail : List Char) (ls : List RouteLine) :
    ls.length ≤ (fileText trail ls).length := by
  induction ls with
  | nil => simp
  | cons l ls ih =>
    have hpos : 0 < l.text.length := by simp [RouteLine.text]
    cases ls with
    | nil => simp only [fileText, List.length_append, List.length_singleton]; omega
    | cons l' ls => simp only [fileText, List.length_append, List.length_cons] at *; omega

theorem parseRtable_fileText (htrail : ∀ c ∈ trail, isSpace c = true) (hne : ls ≠ []) :
    parseRtable qsort f (fileText trail ls) =
      (initRtable.addAll (ls.map RouteLine.entry)).map fun rt i => (rt i).sort qsort := by
  rw [parseRtable, parseLoop_fileText htrail hne (Nat.le_succ_of_le (fileText_length trail ls))]

theorem entries_of_parseRtable (htrail : ∀ c ∈ trail, isSpace c = true) (hne : ls ≠ [])
    {rt : Rtable} (h : parseRtable qsort f (fileText trail ls) = some rt) (i : Fin 33) :
    (rt i).entries = qsort.sort entryCompare (bucketOf (ls.map RouteLine.entry) i) := by
  rw [parseRtable_fileText htrail hne] at h
  obtain ⟨rt', h', rfl⟩ := Option.map_eq_some_iff.mp h
  have := Rtable.addAll_entries h' i
  rw [Bucket.sort_entries, this]
  rfl

theorem exists_parseRtable (htrail : ∀ c ∈ trail, isSpace c = true) (hne : ls ≠ [])
    (hload : (parseRtable qsort f (fileText trail ls)).isSome) (qsort' : Qsort RtableEntry)
    (f' : Fields) : ∃ rt, parseRtable qsort' f' (fileText trail ls) = some rt := by
  rw [parseRtable_fileText htrail hne, Option.isSome_map] at hload
  obtain ⟨rt, hrt⟩ := Option.isSome_iff_exists.mp hload
  exact ⟨_, by rw [parseRtable_fileText htrail hne, hrt]; rfl⟩

end Load

/-! ## Loading, then looking up -/

section Lookup

variable {trail : List Char} {ls : List RouteLine} {destIp : Word32}

theorem hit_isSome_iff_of_longest {es : List RtableEntry} {rt : Rtable}
    (hc : ∀ e ∈ es, Contiguous e.mask) {e : RtableEntry}
    (he : LongestPrefixMatch es destIp (some e)) {i : Fin 33}
    (hi : getPrefixLength e.mask = some i.val) :
    (hit rt destIp i).isSome ↔
      ∃ j < (rt i).entries.length, keyAt (rt i).entries j = e.pfx.toNat ∧
        Bisection.LeadsTo (keyAt (rt i).entries) e.pfx.toNat 0 (rt i).entries.length j := by
  rw [hit_isSome_iff, (matches_iff_of_bucket (hc e he.1) hi).mp he.2.1]

def defaultRoute : Fields where
  pfx := ['0']
  nextHop := ['0']
  mask := ['0']
  interface := 0

/-- An empty file still yields one route, made of whatever the locals held. -/
theorem bestRoute_of_empty_file (destIp : Word32) (htrail : ∀ c ∈ trail, isSpace c = true) :
    ∃ rt, parseRtable .insertion defaultRoute (fileText trail []) = some rt ∧
      bestRoute rt destIp ≠ none := by
  have hdrop : trail.dropWhile isSpace = [] := by
    simpa [List.dropWhile_eq_nil_iff] using htrail
  have hscan : fscanfRoute defaultRoute trail = some (defaultRoute, []) := by
    simp [fscanfRoute, scanWord, hdrop]
  have hadd : (initRtable.add defaultRoute.entry).isSome := by decide
  obtain ⟨rt, hrt⟩ := Option.isSome_iff_exists.mp hadd
  have hentries : (rt 0).entries = [defaultRoute.entry] := by
    have := Rtable.add_entries hrt 0
    rw [this]
    decide
  have hsort : ((rt 0).sort .insertion).entries = [defaultRoute.entry] := by
    rw [Bucket.sort_entries, hentries]
    rfl
  refine ⟨fun i => (rt i).sort .insertion, ?_, ?_⟩
  · simp [parseRtable, parseLoop, fileText, hscan, hrt]
  · intro hnone
    have hmiss := (bestRoute_eq_none_iff _ destIp).mp hnone 0
    have hhit : (hit (fun i => (rt i).sort .insertion) destIp 0).isSome := by
      have hmask : destIp &&& getSubnetMask (0 : Fin 33) = 0#32 := by
        rw [show getSubnetMask (0 : Fin 33) = 0#32 by decide, BitVec.and_zero]
      rw [hit_isSome_iff, hsort, hmask]
      refine ⟨0, by simp, by decide, fun m hm => ?_⟩
      have hmid : 0 = (0 + (1 - 1)) / 2 := by omega
      rw [List.length_singleton, Bisection.path_step (by omega) hmid] at hm
      simp at hm
    rw [hmiss] at hhit
    cases hhit

theorem searchReaches_of_lookups (hmask : ∀ l ∈ ls, Contiguous l.entry.mask) (hne : ls ≠ [])
    (hits : ∀ qsort : Qsort RtableEntry, ∃ rt : Rtable,
      (∀ i, (rt i).entries = qsort.sort entryCompare (bucketOf (ls.map RouteLine.entry) i)) ∧
      LongestPrefixMatch (ls.map RouteLine.entry) destIp (bestRoute rt destIp)) :
    SearchReaches ls destIp := by
  have hc : ∀ e ∈ ls.map RouteLine.entry, Contiguous e.mask := by simpa using hmask
  refine ⟨hne, fun e he => ?_⟩
  obtain ⟨i, hi, -, -⟩ := (hc e he.1).spec
  have hbucket := bucketOf_eq_withMask hc (hc e he.1) hi
  rw [← hbucket]
  -- whatever `qsort` leaves in the bucket of `e`, the search there finds the prefix of `e`
  have hfind : ∀ a, a.length = (bucketOf (ls.map RouteLine.entry) i).length →
      (∀ x ∈ a, x ∈ bucketOf (ls.map RouteLine.entry) i) →
      (ConsistentOn entryCompare (bucketOf (ls.map RouteLine.entry) i) →
        a.Perm (bucketOf (ls.map RouteLine.entry) i) ∧
          a.Pairwise fun x y => entryCompare x y ≤ 0) →
      ∃ j < a.length, keyAt a j = e.pfx.toNat ∧
        Bisection.LeadsTo (keyAt a) e.pfx.toNat 0 a.length j := by
    intro a hlen hmem ha
    obtain ⟨rt, hrt, hlpm⟩ := hits (.leaving entryCompare _ a hlen hmem ha)
    have hall : ∀ i, ∀ x ∈ (rt i).entries, x ∈ bucketOf (ls.map RouteLine.entry) i := by
      intro i' x hx
      rw [hrt i'] at hx
      exact Qsort.mem_of_mem_sort _ _ _ x hx
    have hhit := (longestPrefixMatch_bestRoute_iff hc hall).mp hlpm e he i hi
    rw [hit_isSome_iff_of_longest hc he hi, hrt i, Qsort.leaving_sort] at hhit
    exact hhit
  have hmem : e ∈ bucketOf (ls.map RouteLine.entry) i := mem_bucketOf.mpr ⟨he.1, hi⟩
  have hcons : ConsistentOn entryCompare (bucketOf (ls.map RouteLine.entry) i) := by
    by_contra hnot
    -- an inconsistent bucket holds another prefix, and may be left with that one only
    obtain ⟨x, hx, hne⟩ : ∃ x ∈ bucketOf (ls.map RouteLine.entry) i, x.pfx ≠ e.pfx := by
      by_contra hall
      push Not at hall
      have hzero : ∀ a ∈ bucketOf (ls.map RouteLine.entry) i,
          ∀ b ∈ bucketOf (ls.map RouteLine.entry) i, entryCompare a b = 0 := fun a ha b hb =>
        entryCompare_eq_zero_of_pfx ((hall a ha).trans (hall b hb).symm)
      refine hnot ⟨fun a ha b hb => ?_, fun a ha b hb c hc _ _ => ?_⟩
      · rw [hzero a ha b hb, hzero b hb a ha]
      · rw [hzero a ha c hc]
    obtain ⟨j, hj, hkey, -⟩ := hfind (List.replicate (bucketOf _ i).length x)
      List.length_replicate (fun y hy => (List.eq_of_mem_replicate hy) ▸ hx) (fun h => absurd h hnot)
    rw [keyAt, List.getElem?_eq_getElem hj, List.getElem_replicate] at hkey
    exact hne (BitVec.eq_of_toNat_eq hkey)
  refine ⟨hcons, fun a hperm hsorted => ?_⟩
  obtain ⟨j, hj, hkey, hleads⟩ := hfind a hperm.length_eq (fun x => hperm.mem_iff.mp)
    fun _ => ⟨hperm, hsorted⟩
  refine ⟨j, hj, hkey, ?_⟩
  rw [← hkey] at hleads ⊢
  exact (leadsTo_iff_near (hcons.subset fun x => hperm.mem_iff.mp) hsorted hj).mp hleads

theorem lookup_of_searchReaches {qsort : Qsort RtableEntry} {rt : Rtable}
    (hmask : ∀ l ∈ ls, Contiguous l.entry.mask) (h : SearchReaches ls destIp)
    (hrt : ∀ i, (rt i).entries = qsort.sort entryCompare (bucketOf (ls.map RouteLine.entry) i)) :
    LongestPrefixMatch (ls.map RouteLine.entry) destIp (bestRoute rt destIp) := by
  have hc : ∀ e ∈ ls.map RouteLine.entry, Contiguous e.mask := by simpa using hmask
  refine (longestPrefixMatch_bestRoute_iff hc fun i x hx => ?_).mpr fun e he i hi => ?_
  · rw [hrt i] at hx
    exact qsort.mem_of_mem_sort _ _ x hx
  · obtain ⟨hcons, hnear⟩ := h.2 e he
    rw [← bucketOf_eq_withMask hc (hc e he.1) hi] at hcons hnear
    have hperm := qsort.perm_sort entryCompare _ hcons
    have hsorted := qsort.sorted_sort entryCompare _ hcons
    rw [hit_isSome_iff_of_longest hc he hi, hrt i]
    obtain ⟨j, hj, hkey, hpath⟩ := hnear _ hperm hsorted
    refine ⟨j, hj, hkey, ?_⟩
    rw [← hkey] at hpath ⊢
    exact (leadsTo_iff_near (hcons.subset fun x => hperm.mem_iff.mp) hsorted hj).mpr hpath

theorem searchReaches_of_near (hne : ls ≠ [])
    (hnear : ∀ l ∈ ls, ∀ l' ∈ ls, l.entry.mask = l'.entry.mask →
      Near l.entry.pfx.toNat l'.entry.pfx.toNat) : SearchReaches ls destIp := by
  refine ⟨hne, fun e he => ?_⟩
  have hbucket : ∀ x ∈ withMask (ls.map RouteLine.entry) e.mask,
      ∀ y ∈ withMask (ls.map RouteLine.entry) e.mask, Near x.pfx.toNat y.pfx.toNat := by
    intro x hx y hy
    simp only [withMask, List.mem_filter, List.mem_map, decide_eq_true_eq] at hx hy
    obtain ⟨⟨l, hl, rfl⟩, hlm⟩ := hx
    obtain ⟨⟨l', hl', rfl⟩, hlm'⟩ := hy
    exact hnear l hl l' hl' (hlm.trans hlm'.symm)
  have hcmp := fun x hx y hy => entryCompare_of_near (hbucket x hx y hy)
  refine ⟨⟨fun a ha b hb => ?_, fun a ha b hb c hc => ?_⟩, fun a hperm _ => ?_⟩
  · rw [hcmp a ha b hb, hcmp b hb a ha]
    omega
  · rw [hcmp a ha b hb, hcmp b hb c hc, hcmp a ha c hc]
    omega
  · have hmem : e ∈ a := hperm.mem_iff.mpr (by simpa [withMask] using he.1)
    obtain ⟨j, hj, rfl⟩ := List.getElem_of_mem hmem
    have hkey : ∀ {i} (hi : i < a.length), keyAt a i = a[i].pfx.toNat := fun hi =>
      keyAt_of_getElem? (List.getElem?_eq_getElem hi)
    refine ⟨j, hj, hkey hj, fun m hm => ?_⟩
    rw [hkey (Bisection.mem_path_bounds hm).2]
    exact hbucket _ (hperm.mem_iff.mp (List.getElem_mem _)) _ (hperm.mem_iff.mp hmem)

/-- Loading a file of routes with contiguous masks and looking up `destIp` gives a longest
prefix match, whatever `qsort` does within its promises, exactly when `SearchReaches` holds. -/
theorem getBestRoute_parseRtable_iff (htrail : ∀ c ∈ trail, isSpace c = true)
    (hmask : ∀ l ∈ ls, Contiguous l.entry.mask)
    (hload : ∃ (qsort : Qsort RtableEntry) (f : Fields),
      (parseRtable qsort f (fileText trail ls)).isSome) :
    (∀ (qsort : Qsort RtableEntry) f rt, parseRtable qsort f (fileText trail ls) = some rt →
      ∃ r, getBestRoute rt destIp = .ok r ∧
        LongestPrefixMatch (ls.map RouteLine.entry) destIp r) ↔
      SearchReaches ls destIp := by
  simp only [getBestRoute_eq, Except.ok.injEq, exists_eq_left']
  constructor
  · intro h
    by_cases hne : ls = []
    · subst hne
      obtain ⟨rt, hrt, hsome⟩ := bestRoute_of_empty_file destIp htrail
      have := h _ _ rt hrt
      cases hb : bestRoute rt destIp with
      | none => exact absurd hb hsome
      | some e =>
        rw [hb] at this
        exact absurd this.1 (by simp)
    · refine searchReaches_of_lookups hmask hne fun qsort => ?_
      obtain ⟨_, _, hsome⟩ := hload
      obtain ⟨rt, hrt⟩ := exists_parseRtable htrail hne hsome qsort defaultRoute
      exact ⟨rt, entries_of_parseRtable htrail hne hrt, h qsort _ rt hrt⟩
  · intro h qsort f rt hrt
    exact lookup_of_searchReaches hmask h (entries_of_parseRtable htrail h.1 hrt)

end Lookup

instance (w : List Char) : Decidable (IsWord w) :=
  decidable_of_iff (w ≠ [] ∧ w.length ≤ 15 ∧ w.all fun c => !isSpace c)
    ⟨fun h => ⟨h.1, h.2.1, by simpa using h.2.2⟩,
      fun h => ⟨h.ne_nil, h.length_le, by simpa using h.no_space⟩⟩

/-- The first and the last quarter of 10.0.0.0/24, whose words differ in their top byte. -/
def quarterLines : List RouteLine :=
  [{ pfx := "10.0.0.0".toList, nextHop := "10.0.0.1".toList, mask := "255.255.255.192".toList
     negative := false, digits := ['0']
     pfx_word := by decide, nextHop_word := by decide, mask_word := by decide
     digits_ne_nil := by decide, digits_digit := by simp [isDigit] },
   { pfx := "10.0.0.192".toList, nextHop := "10.0.0.193".toList
     mask := "255.255.255.192".toList
     negative := false, digits := ['1']
     pfx_word := by decide, nextHop_word := by decide, mask_word := by decide
     digits_ne_nil := by decide, digits_digit := by simp [isDigit] }]

/-- `entry_compare` puts 10.0.0.192 before 10.0.0.0, and the search for 10.0.0.5 goes left. -/
theorem getBestRoute_misses_first_quarter :
    ¬ ∀ (qsort : Qsort RtableEntry) f rt,
      parseRtable qsort f (fileText ['\n'] quarterLines) = some rt →
      ∃ r, getBestRoute rt (inetAddr "10.0.0.5".toList) = .ok r ∧
        LongestPrefixMatch (quarterLines.map RouteLine.entry) (inetAddr "10.0.0.5".toList) r := by
  intro h
  have hrun : (parseRtable .insertion defaultRoute (fileText ['\n'] quarterLines)).map
      (fun rt => getBestRoute rt (inetAddr "10.0.0.5".toList)) = some (.ok none) := by
    rfl
  obtain ⟨rt, hrt, hnone⟩ := Option.map_eq_some_iff.mp hrun
  obtain ⟨r, hr, hlpm⟩ := h _ _ rt hrt
  rw [hnone] at hr
  obtain rfl := Except.ok.inj hr
  have hmatch : Matches (RouteLine.entry quarterLines[0]) (inetAddr "10.0.0.5".toList) := by
    unfold Matches
    decide
  exact hlpm _ (by simp [quarterLines]) hmatch

theorem getBestRoute_parseRtable_iff_quarterLines :
    (∀ (qsort : Qsort RtableEntry) f rt,
      parseRtable qsort f (fileText ['\n'] quarterLines) = some rt →
      ∃ r, getBestRoute rt (inetAddr "10.0.0.200".toList) = .ok r ∧
        LongestPrefixMatch (quarterLines.map RouteLine.entry)
          (inetAddr "10.0.0.200".toList) r) ↔
      SearchReaches quarterLines (inetAddr "10.0.0.200".toList) :=
  getBestRoute_parseRtable_iff (by simp [isSpace])
    (by simpa [quarterLines] using ⟨⟨26, by decide⟩, ⟨26, by decide⟩⟩)
    ⟨.insertion, defaultRoute, by rfl⟩

end PCom.Router
