import Mathlib.Data.List.ReduceOption
import PCom.Router.SortedTables
import PCom.Router.SubnetMasks

/-! Which routes `parse_rtable` loads from a file. -/

namespace PCom.Router

open Lib

/-- What one step reads, if it fills all four fields, and what it leaves of the file. -/
def readRecord (s : List Char) : Option Fields × List Char :=
  match scanWord s with
  | none => (none, [])
  | some (pfx, s) =>
    match scanWord s with
    | none => (none, [])
    | some (nextHop, s) =>
      match scanWord s with
      | none => (none, [])
      | some (mask, s) =>
        match scanInt s with
        | (none, s) => (none, s)
        | (some n, s) => (some ⟨pfx, nextHop, mask, n⟩, s.dropWhile isSpace)

/-- The steps that a file takes, of which there are never more than its characters and one. -/
def steps : Nat → List Char → List (Option Fields)
  | 0, _ => []
  | n + 1, s =>
    (readRecord s).1 :: if (readRecord s).2 = [] then [] else steps n (readRecord s).2

def fileSteps (file : List Char) : List (Option Fields) := steps (file.length + 1) file

def fileRoutes (file : List Char) : List RtableEntry :=
  (fileSteps file).reduceOption.map Fields.entry

/-- The table has the routes of the file, each in the bucket of its mask. -/
def LoadsRoutes (q : Qsort RtableEntry) (f : Fields) (file : List Char) : Prop :=
  ∃ rt, parseRtable q f file = some rt ∧
    (∀ i, ∀ e ∈ (rt i).entries, getPrefixLength e.mask = some i.val) ∧
      rt.entries.Perm (fileRoutes file)

structure Fields.Fits (r : Fields) : Prop where
  pfx : r.pfx.length ≤ 15
  nextHop : r.nextHop.length ≤ 15
  mask : r.mask.length ≤ 15

/-- Every step reads a record that fits, and the capacity of no bucket overflows. -/
structure Loadable (file : List Char) : Prop where
  complete : none ∉ fileSteps file
  fits : ∀ r, some r ∈ fileSteps file → r.Fits
  room : ∀ i, (bucketOf (fileRoutes file) i).length < 2 ^ 30

/-- `qsort` only exchanges elements, also where the comparison is no order. -/
def Exchanges (q : Qsort RtableEntry) : Prop := ∀ cmp es, (q.sort cmp es).Perm es

/-! ## Steps -/

section Steps

variable {s s' : List Char} {r : Fields}

theorem exists_of_readRecord (h : readRecord s = (some r, s')) : ∃ s₁ s₂ s₃ s₄,
    scanWord s = some (r.pfx, s₁) ∧ scanWord s₁ = some (r.nextHop, s₂) ∧
      scanWord s₂ = some (r.mask, s₃) ∧ scanInt s₃ = (some r.interface, s₄) ∧
        s' = s₄.dropWhile isSpace := by
  unfold readRecord at h
  split at h
  next => cases h
  next pfx s₁ hpfx =>
    split at h
    next => cases h
    next nextHop s₂ hnextHop =>
      split at h
      next => cases h
      next mask s₃ hmask =>
        split at h
        next => cases h
        next n s₄ hn =>
          cases h
          exact ⟨s₁, s₂, s₃, s₄, hpfx, hnextHop, hmask, hn, rfl⟩

theorem fscanfRoute_of_readRecord (h : readRecord s = (some r, s')) (hfits : r.Fits) (f : Fields) :
    fscanfRoute f s = some (r, s') := by
  obtain ⟨s₁, s₂, s₃, s₄, hpfx, hnextHop, hmask, hn, rfl⟩ := exists_of_readRecord h
  rw [fscanfRoute, hpfx]
  dsimp only
  rw [if_neg (Nat.not_lt.mpr hfits.pfx), hnextHop]
  dsimp only
  rw [if_neg (Nat.not_lt.mpr hfits.nextHop), hmask]
  dsimp only
  rw [if_neg (Nat.not_lt.mpr hfits.mask), hn]

theorem readRecord_of_fscanfRoute {f : Fields} (h : fscanfRoute f s = some (r, s')) :
    readRecord s = (some r, s') ∧ r.Fits ∨ readRecord s = (none, s') := by
  rw [fscanfRoute] at h
  rw [readRecord]
  cases hpfx : scanWord s with
  | none =>
    rw [hpfx] at h
    cases h
    exact .inr rfl
  | some p =>
    obtain ⟨pfx, s₁⟩ := p
    rw [hpfx] at h
    dsimp only at h ⊢
    split at h
    next => cases h
    next hpfxFits =>
      cases hnextHop : scanWord s₁ with
      | none =>
        rw [hnextHop] at h
        cases h
        exact .inr rfl
      | some p =>
        obtain ⟨nextHop, s₂⟩ := p
        rw [hnextHop] at h
        dsimp only at h ⊢
        split at h
        next => cases h
        next hnextHopFits =>
          cases hmask : scanWord s₂ with
          | none =>
            rw [hmask] at h
            cases h
            exact .inr rfl
          | some p =>
            obtain ⟨mask, s₃⟩ := p
            rw [hmask] at h
            dsimp only at h ⊢
            split at h
            next => cases h
            next hmaskFits =>
              cases hn : scanInt s₃ with
              | mk o s₄ =>
                rw [hn] at h
                cases o with
                | none =>
                  cases h
                  exact .inr rfl
                | some n =>
                  cases h
                  exact .inl ⟨rfl, Nat.not_lt.mp hpfxFits, Nat.not_lt.mp hnextHopFits,
                    Nat.not_lt.mp hmaskFits⟩

theorem length_of_scanWord {w : List Char} (h : scanWord s = some (w, s')) :
    s'.length < s.length := by
  have hle := (List.dropWhile_suffix isSpace (l := s)).length_le
  unfold scanWord at h
  split at h
  next => cases h
  next hne =>
    cases h
    cases ht : s.dropWhile isSpace with
    | nil => exact absurd ht hne
    | cons c t =>
      have hc : isSpace c = false := by
        have hnot := List.head?_dropWhile_not isSpace s
        rwa [ht] at hnot
      have htail := (List.dropWhile_suffix (!isSpace ·) (l := t)).length_le
      rw [ht, List.length_cons] at hle
      rw [List.dropWhile_cons_of_pos (by simp [hc])]
      omega

theorem length_readSign_le (s : List Char) : (readSign s).2.length ≤ s.length := by
  unfold readSign
  split <;> simp

theorem length_scanInt_le (s : List Char) : (scanInt s).2.length ≤ s.length := by
  have hspace := (List.dropWhile_suffix isSpace (l := s)).length_le
  have hsign := length_readSign_le (s.dropWhile isSpace)
  have hdigits := (List.dropWhile_suffix isDigit
    (l := (readSign (s.dropWhile isSpace)).2)).length_le
  unfold scanInt
  dsimp only
  split
  · dsimp only
    omega
  · dsimp only
    omega

theorem length_of_readRecord (h : readRecord s = (some r, s')) : s'.length < s.length := by
  obtain ⟨s₁, s₂, s₃, s₄, hpfx, hnextHop, hmask, hn, rfl⟩ := exists_of_readRecord h
  have h₁ := length_of_scanWord hpfx
  have h₂ := length_of_scanWord hnextHop
  have h₃ := length_of_scanWord hmask
  have h₄ := length_scanInt_le s₃
  have h₅ := (List.dropWhile_suffix isSpace (l := s₄)).length_le
  rw [hn] at h₄
  dsimp only at h₄
  omega

end Steps

/-! ## The loop -/

section Loop

variable {n : Nat} {s : List Char} {rt rt' : Rtable} {f : Fields}

theorem addAll_of_parseLoop (h : parseLoop n rt f s = some rt') :
    ∃ es, rt.addAll es = some rt' ∧ es.length = (steps n s).length ∧
      (none ∉ steps n s → es = (steps n s).reduceOption.map Fields.entry ∧
        ∀ r, some r ∈ steps n s → r.Fits) := by
  induction n generalizing rt f s with
  | zero => cases h
  | succ n ih =>
    obtain ⟨⟨r, s'⟩, hscan, h⟩ := Option.bind_eq_some_iff.mp h
    obtain ⟨rt₁, hadd, h⟩ := Option.bind_eq_some_iff.mp h
    obtain ⟨es, hes, hlength, hcomplete⟩ : ∃ es, rt₁.addAll es = some rt' ∧
        es.length = (if s' = [] then [] else steps n s').length ∧
        (none ∉ (if s' = [] then [] else steps n s') →
          es = (if s' = [] then [] else steps n s').reduceOption.map Fields.entry ∧
            ∀ r, some r ∈ (if s' = [] then [] else steps n s') → r.Fits) := by
      split at h
      next hs' =>
        rw [if_pos hs']
        exact ⟨[], h, rfl, fun _ => ⟨rfl, by simp⟩⟩
      next hs' =>
        rw [if_neg hs']
        exact ih h
    have hall : rt.addAll (r.entry :: es) = some rt' := by
      rw [Rtable.addAll, List.foldlM_cons, hadd]
      exact hes
    refine ⟨r.entry :: es, hall, ?_⟩
    rw [steps]
    rcases readRecord_of_fscanfRoute hscan with ⟨hread, hfits⟩ | hread
    · rw [hread]
      refine ⟨congrArg Nat.succ hlength, fun hnone => ?_⟩
      obtain ⟨hes, hrest⟩ := hcomplete fun hmem => hnone (List.mem_cons_of_mem _ hmem)
      refine ⟨?_, fun r' hr' => ?_⟩
      · rw [List.reduceOption_cons_of_some, List.map_cons, ← hes]
      · rcases List.mem_cons.mp hr' with heq | hr'
        · rw [Option.some.inj heq]
          exact hfits
        · exact hrest r' hr'
    · rw [hread]
      exact ⟨congrArg Nat.succ hlength, fun hnone => absurd List.mem_cons_self hnone⟩

theorem parseLoop_of_complete (hcomplete : none ∉ steps n s)
    (hfits : ∀ r, some r ∈ steps n s → r.Fits) (hn : s.length < n) (rt : Rtable) (f : Fields) :
    parseLoop n rt f s = rt.addAll ((steps n s).reduceOption.map Fields.entry) := by
  induction n generalizing rt f s with
  | zero => omega
  | succ n ih =>
    rw [steps] at hcomplete hfits ⊢
    cases hread : readRecord s with
    | mk o s' =>
      rw [hread] at hcomplete hfits
      cases o with
      | none => exact absurd List.mem_cons_self hcomplete
      | some r =>
        have hscan := fscanfRoute_of_readRecord hread (hfits r List.mem_cons_self) f
        have hlength := length_of_readRecord hread
        rw [parseLoop, hscan, List.reduceOption_cons_of_some, List.map_cons, Rtable.addAll,
          List.foldlM_cons]
        dsimp only [Option.bind_eq_bind, Option.bind_some]
        refine congrArg (Option.bind _) (funext fun rt => ?_)
        split
        next hs' => rfl
        next hs' =>
          rw [if_neg hs'] at hcomplete hfits
          exact ih (fun hmem => hcomplete (List.mem_cons_of_mem _ hmem))
            (fun r hr => hfits r (List.mem_cons_of_mem _ hr))
            (Nat.lt_of_lt_of_le hlength (Nat.le_of_lt_succ hn)) rt r

end Loop

/-! ## Buckets -/

section Buckets

variable {rt rt' : Rtable} {es : List RtableEntry}

def Bucket.Doubled (b : Bucket) : Prop := ∃ k, b.capacity = 2 ^ k

theorem Bucket.Doubled.add {b b' : Bucket} {e : RtableEntry} (h : b.Doubled)
    (hadd : b.add e = some b') : b'.Doubled := by
  obtain ⟨k, hk⟩ := h
  unfold Bucket.add at hadd
  split at hadd
  · split at hadd
    · cases hadd
      exact ⟨k + 1, congrArg (· * 2) hk⟩
    · cases hadd
  · cases hadd
    exact ⟨k, hk⟩

theorem Bucket.Doubled.exists_add {b : Bucket} (h : b.Doubled)
    (hroom : b.entries.length + 1 < 2 ^ 30) (e : RtableEntry) : ∃ b', b.add e = some b' := by
  obtain ⟨k, hk⟩ := h
  unfold Bucket.add
  split
  next hfull =>
    have hlt : k < 30 := by
      rw [hfull, hk] at hroom
      exact (Nat.pow_lt_pow_iff_right (by decide)).mp hroom
    have hcap : b.capacity * 2 ≤ 2 ^ 30 := by
      rw [hk, ← Nat.pow_succ]
      exact Nat.pow_le_pow_right (by decide) hlt
    rw [dif_pos hcap]
    exact ⟨_, rfl⟩
  next => exact ⟨_, rfl⟩

theorem Rtable.doubled_of_add {e : RtableEntry} (h : ∀ i, (rt i).Doubled)
    (hadd : rt.add e = some rt') (i : Fin 33) : (rt' i).Doubled := by
  unfold Rtable.add at hadd
  obtain ⟨idx, hidx, hadd⟩ := Option.bind_eq_some_iff.mp hadd
  split at hadd
  next hlt =>
    obtain ⟨b, hb, hadd⟩ := Option.bind_eq_some_iff.mp hadd
    obtain rfl := Option.some.inj hadd
    rw [Function.update_apply]
    split
    · exact (h _).add hb
    · exact h i
  next => cases hadd

theorem Rtable.exists_addAll (h : ∀ i, (rt i).Doubled)
    (hroom : ∀ i, ((rt i).entries ++ bucketOf es i).length < 2 ^ 30) :
    ∃ rt', rt.addAll es = some rt' := by
  induction es generalizing rt with
  | nil => exact ⟨rt, rfl⟩
  | cons e es ih =>
    obtain ⟨i, hi⟩ := exists_bucket e.mask
    have hbucket : bucketOf (e :: es) i = e :: bucketOf es i := by
      rw [bucketOf, List.filter_cons_of_pos (by simpa using hi)]
      rfl
    have hlength : (rt i).entries.length + 1 < 2 ^ 30 := by
      have := hroom i
      rw [hbucket, List.length_append, List.length_cons] at this
      omega
    obtain ⟨b, hb⟩ := (h i).exists_add hlength e
    have hadd : rt.add e = some (Function.update rt i b) := by
      unfold Rtable.add
      simp [hi, hb]
    have hentries (j : Fin 33) : (Function.update rt i b j).entries ++ bucketOf es j
        = (rt j).entries ++ bucketOf (e :: es) j := by
      rw [Rtable.add_entries hadd j, List.append_assoc]
      congr 1
      rw [bucketOf, bucketOf, bucketOf, ← List.filter_append, List.singleton_append]
    obtain ⟨rt', hrt'⟩ := ih (Rtable.doubled_of_add h hadd) fun j => by
      rw [hentries]
      exact hroom j
    exact ⟨rt', by rw [Rtable.addAll, List.foldlM_cons, hadd]; exact hrt'⟩

theorem flatMap_bucketOf_perm {is : List (Fin 33)} (h : is.Nodup) (es : List RtableEntry) :
    (is.flatMap (bucketOf es)).Perm
      (es.filter fun e => is.any fun i => getPrefixLength e.mask = some i.val) := by
  induction is with
  | nil => simp
  | cons i is ih =>
    obtain ⟨hi, his⟩ := List.nodup_cons.mp h
    have hbucket : bucketOf es i
        = (es.filter fun e => (i :: is).any fun i => getPrefixLength e.mask = some i.val).filter
            fun e => getPrefixLength e.mask = some i.val := by
      rw [bucketOf, List.filter_filter]
      refine List.filter_congr fun e _ => ?_
      rw [List.any_cons]
      cases decide (getPrefixLength e.mask = some i.val) <;> rfl
    have hrest : (es.filter fun e => is.any fun i => getPrefixLength e.mask = some i.val)
        = (es.filter fun e => (i :: is).any fun i => getPrefixLength e.mask = some i.val).filter
            fun e => !decide (getPrefixLength e.mask = some i.val) := by
      rw [List.filter_filter]
      refine List.filter_congr fun e _ => ?_
      rw [List.any_cons]
      by_cases he : getPrefixLength e.mask = some i.val
      · have hnone : (is.any fun j => getPrefixLength e.mask = some j.val) = false := by
          refine List.any_eq_false.mpr fun j hj hej => ?_
          rw [he, decide_eq_true_eq] at hej
          exact hi (Fin.ext (Option.some.inj hej) ▸ hj)
        rw [hnone, decide_eq_true he]
        rfl
      · simp [he]
    rw [List.flatMap_cons, hbucket]
    refine ((ih his).append_left _).trans ?_
    rw [hrest]
    exact List.filter_append_perm _ _

theorem entries_perm (es : List RtableEntry) :
    ((List.finRange 33).flatMap (bucketOf es)).Perm es := by
  have hall : (es.filter fun e => (List.finRange 33).any fun i =>
      getPrefixLength e.mask = some i.val) = es := by
    refine List.filter_eq_self.mpr fun e _ => ?_
    obtain ⟨i, hi⟩ := exists_bucket e.mask
    exact List.any_eq_true.mpr ⟨i, List.mem_finRange i, decide_eq_true hi⟩
  have hperm := flatMap_bucketOf_perm (List.nodup_finRange 33) es
  rwa [hall] at hperm

theorem bucketOf_entries (h : ∀ i, ∀ e ∈ (rt i).entries, getPrefixLength e.mask = some i.val)
    (i : Fin 33) : bucketOf rt.entries i = (rt i).entries := by
  have hfilter (j : Fin 33) : bucketOf (rt j).entries i = if j = i then (rt i).entries else [] := by
    split
    next hji =>
      subst hji
      exact List.filter_eq_self.mpr fun e he => decide_eq_true (h j e he)
    next hji =>
      refine List.filter_eq_nil_iff.mpr fun e he hei => ?_
      rw [h j e he, decide_eq_true_eq] at hei
      exact hji (Fin.ext (Option.some.inj hei))
  have hflatMap (is : List (Fin 33)) (his : is.Nodup) :
      bucketOf (is.flatMap fun j => (rt j).entries) i = if i ∈ is then (rt i).entries else [] := by
    induction is with
    | nil => rfl
    | cons j is ih =>
      obtain ⟨hj, his⟩ := List.nodup_cons.mp his
      rw [List.flatMap_cons, bucketOf, List.filter_append]
      refine (congrArg₂ (· ++ ·) (hfilter j) (ih his)).trans ?_
      by_cases hji : j = i
      · subst hji
        simp [hj]
      · simp [hji, Ne.symm hji]
  rw [Rtable.entries, hflatMap _ (List.nodup_finRange 33), if_pos (List.mem_finRange i)]

end Buckets

/-! ## The loaded table -/

section Loaded

variable {q : Qsort RtableEntry} {f : Fields} {file : List Char}

theorem doubled_initRtable (i : Fin 33) : (initRtable i).Doubled := ⟨0, rfl⟩

theorem entries_initRtable (es : List RtableEntry) (i : Fin 33) :
    (initRtable i).entries ++ bucketOf es i = bucketOf es i := rfl

theorem exists_of_parseRtable {rt : Rtable} (h : parseRtable q f file = some rt) :
    ∃ es, (∀ i, (rt i).entries = q.sort entryCompare (bucketOf es i)) ∧
      (∀ i, (bucketOf es i).length < 2 ^ 30) ∧ es.length = (fileSteps file).length ∧
      (none ∉ fileSteps file → es = fileRoutes file ∧ ∀ r, some r ∈ fileSteps file → r.Fits) := by
  obtain ⟨rt₀, hloop, rfl⟩ := Option.map_eq_some_iff.mp h
  obtain ⟨es, hes, hlength, hcomplete⟩ := addAll_of_parseLoop hloop
  have hentries (i : Fin 33) : (rt₀ i).entries = bucketOf es i :=
    (Rtable.addAll_entries hes i).trans (entries_initRtable es i)
  refine ⟨es, fun i => ?_, fun i => ?_, hlength, hcomplete⟩
  · rw [Bucket.sort_entries, hentries]
  · rw [← hentries]
    exact Nat.lt_of_lt_of_le (rt₀ i).size_lt (rt₀ i).capacity_le

theorem Loadable.exists_parseRtable (h : Loadable file) (q : Qsort RtableEntry) (f : Fields) :
    ∃ rt, parseRtable q f file = some rt ∧
      ∀ i, (rt i).entries = q.sort entryCompare (bucketOf (fileRoutes file) i) := by
  obtain ⟨rt, hrt⟩ := @Rtable.exists_addAll initRtable (fileRoutes file) doubled_initRtable h.room
  have hloop : parseLoop (file.length + 1) initRtable f file = some rt :=
    (parseLoop_of_complete h.complete h.fits (Nat.lt_succ_self _) initRtable f).trans hrt
  refine ⟨_, by rw [parseRtable, hloop]; rfl, fun i => ?_⟩
  rw [Bucket.sort_entries, Rtable.addAll_entries hrt i]
  rfl

theorem LoadsRoutes.loadable (h : LoadsRoutes q f file) : Loadable file := by
  obtain ⟨rt, hrt, hbuckets, hperm⟩ := h
  obtain ⟨es, hentries, hroom, hlength, hcomplete⟩ := exists_of_parseRtable hrt
  have hsum : rt.entries.length = es.length := by
    rw [← (entries_perm es).length_eq, Rtable.entries, List.length_flatMap, List.length_flatMap]
    simp only [hentries, q.length_sort]
  have hcount : (fileSteps file).reduceOption.length = (fileSteps file).length := by
    rw [← hlength, ← hsum, hperm.length_eq, fileRoutes, List.length_map]
  have hnone : none ∉ fileSteps file := by
    rw [← List.reduceOption_length_lt_iff, hcount]
    exact Nat.lt_irrefl _
  obtain ⟨rfl, hfits⟩ := hcomplete hnone
  exact ⟨hnone, hfits, hroom⟩

theorem Loadable.loadsRoutes (h : Loadable file) (f : Fields)
    (hq : ∀ i, (q.sort entryCompare (bucketOf (fileRoutes file) i)).Perm
      (bucketOf (fileRoutes file) i)) : LoadsRoutes q f file := by
  obtain ⟨rt, hrt, hentries⟩ := h.exists_parseRtable q f
  refine ⟨rt, hrt, fun i e he => ?_, ?_⟩
  · rw [hentries] at he
    exact (mem_bucketOf.mp ((hq i).mem_iff.mp he)).2
  · refine List.Perm.trans ?_ (entries_perm (fileRoutes file))
    rw [Rtable.entries]
    exact List.Perm.flatMap_left _ fun i _ => hentries i ▸ hq i

theorem LoadsRoutes.bucket_perm (h : LoadsRoutes q f file) (i : Fin 33) :
    (q.sort entryCompare (bucketOf (fileRoutes file) i)).Perm (bucketOf (fileRoutes file) i) := by
  have hloadable := h.loadable
  obtain ⟨rt, hrt, hbuckets, hperm⟩ := h
  obtain ⟨rt', hrt', hentries⟩ := hloadable.exists_parseRtable q f
  obtain rfl := Option.some.inj (hrt.symm.trans hrt')
  rw [← hentries, ← bucketOf_entries hbuckets]
  exact hperm.filter _

/-- Copies of one entry are no permutation of entries that differ. -/
theorem consistentOn_of_loads (h : ∀ q, LoadsRoutes q f file) (i : Fin 33) :
    ConsistentOn entryCompare (bucketOf (fileRoutes file) i) := by
  by_contra hc
  obtain ⟨es, hes⟩ : ∃ es, es = bucketOf (fileRoutes file) i := ⟨_, rfl⟩
  rw [← hes] at hc
  cases es with
  | nil => exact hc ⟨fun a ha => absurd ha List.not_mem_nil, fun a ha => absurd ha List.not_mem_nil⟩
  | cons e es =>
    obtain ⟨copies, hcopies⟩ : ∃ copies, copies = List.replicate (e :: es).length e := ⟨_, rfl⟩
    have hlength : copies.length = (e :: es).length := by rw [hcopies, List.length_replicate]
    have hmem : ∀ x ∈ copies, x ∈ e :: es := by
      intro x hx
      rw [hcopies] at hx
      rw [List.eq_of_mem_replicate hx]
      exact List.mem_cons_self
    have hperm := (h (Qsort.leaving entryCompare (e :: es) copies hlength hmem
      fun hc' => absurd hc' hc)).bucket_perm i
    rw [← hes, Qsort.leaving_sort] at hperm
    have hall : ∀ x ∈ e :: es, x = e := by
      intro x hx
      rw [hcopies] at hperm
      exact List.eq_of_mem_replicate (hperm.mem_iff.mpr hx)
    have hzero (a b : RtableEntry) (ha : a ∈ e :: es) (hb : b ∈ e :: es) :
        entryCompare a b = 0 := by
      rw [hall a ha, hall b hb]
      exact entryCompare_eq_zero_of_pfx rfl
    refine hc ⟨fun a ha b hb => ?_, fun a ha b hb c hc _ _ => ?_⟩
    · rw [hzero a b ha hb, hzero b a hb ha]
    · exact (hzero a c ha hc).le

end Loaded

/-- Whatever the locals hold at the start: where `qsort` only exchanges elements, the table has the
routes of the file exactly if every step reads a complete record whose words fit and no bucket
outgrows its capacity.  With no more than the promises of `qsort` the prefixes of each bucket must
also be ones that `entry_compare` orders. -/
theorem loadsRoutes_iff (f : Fields) (file : List Char) :
    (∀ q, Exchanges q → (LoadsRoutes q f file ↔ Loadable file)) ∧
      ((∀ q, LoadsRoutes q f file) ↔
        Loadable file ∧ ∀ i, ConsistentOn entryCompare (bucketOf (fileRoutes file) i)) := by
  refine ⟨fun q hq => ⟨LoadsRoutes.loadable, fun h => ?_⟩, fun h => ⟨?_, ?_⟩, fun h q => ?_⟩
  · exact h.loadsRoutes f fun i => hq _ _
  · exact (h .insertion).loadable
  · exact consistentOn_of_loads h
  · exact h.1.loadsRoutes f fun i => q.perm_sort _ _ (h.2 i)

def startFields : Fields := ⟨[], [], [], 0⟩

/-- Four routes in three buckets, the two of one bucket not in their order. -/
def shortRouteFile : List Char := ("10.0.0.0 10.0.0.1 255.0.0.0 0\n" ++
  "192.168.2.0 192.168.2.2 255.255.255.0 1\n192.168.1.0 192.168.1.2 255.255.255.0 2\n" ++
  "0.0.0.0 10.0.0.1 0.0.0.0 0\n").toList

def shortRecords : List Fields :=
  [⟨"10.0.0.0".toList, "10.0.0.1".toList, "255.0.0.0".toList, 0⟩,
    ⟨"192.168.2.0".toList, "192.168.2.2".toList, "255.255.255.0".toList, 1⟩,
    ⟨"192.168.1.0".toList, "192.168.1.2".toList, "255.255.255.0".toList, 2⟩,
    ⟨"0.0.0.0".toList, "10.0.0.1".toList, "0.0.0.0".toList, 0⟩]

set_option maxRecDepth 20000 in
theorem fileSteps_shortRouteFile : fileSteps shortRouteFile = shortRecords.map some := by
  rfl

theorem loadable_shortRouteFile : Loadable shortRouteFile where
  complete := by
    rw [fileSteps_shortRouteFile]
    simp
  fits r hr := by
    rw [fileSteps_shortRouteFile, List.mem_map_of_injective (Option.some_injective _)] at hr
    have hall : ∀ r ∈ shortRecords, r.pfx.length ≤ 15 ∧ r.nextHop.length ≤ 15 ∧
        r.mask.length ≤ 15 := by decide
    obtain ⟨hpfx, hnextHop, hmask⟩ := hall r hr
    exact ⟨hpfx, hnextHop, hmask⟩
  room i := by
    have hle : (bucketOf (fileRoutes shortRouteFile) i).length ≤ 4 := by
      refine (List.length_filter_le _ _).trans ?_
      rw [fileRoutes, fileSteps_shortRouteFile]
      exact le_rfl
    exact Nat.lt_of_le_of_lt hle (by decide)

theorem loadsRoutes_shortRouteFile : LoadsRoutes .insertion startFields shortRouteFile :=
  ((loadsRoutes_iff startFields shortRouteFile).1 .insertion fun cmp es => insertBy_perm cmp es).mpr
    loadable_shortRouteFile

def cutFile : List Char := "10.0.0.0 10.0.0.1 255.0.0.0 0\n10.1.0.0 10.0.0.2".toList

/-- A second route gets the mask and the interface of the first one. -/
theorem cutFile_phantom : ¬ LoadsRoutes .insertion startFields cutFile := by
  have hstep : (fileSteps cutFile)[1]? = some none := by rfl
  exact fun h => h.loadable.complete (List.mem_of_getElem? hstep)

end PCom.Router
