import PCom.Router.LongestPrefixMatch

/-! Lookups in tables whose buckets are sorted as the search reads them. -/

namespace PCom.Router

open Lib

variable {rt : Rtable}

def Rtable.entries (rt : Rtable) : List RtableEntry :=
  (List.finRange 33).flatMap fun i => (rt i).entries

/-- Each bucket holds the entries of its own mask, with strictly increasing prefixes. -/
structure Rtable.Sorted (rt : Rtable) : Prop where
  mask : ∀ i, ∀ e ∈ (rt i).entries, e.mask = getSubnetMask i
  increasing : ∀ i, (rt i).entries.Pairwise fun a b => a.pfx < b.pfx

theorem Rtable.mem_entries {e : RtableEntry} : e ∈ rt.entries ↔ ∃ i, e ∈ (rt i).entries := by
  simp [entries]

namespace Rtable.Sorted

theorem contiguous (h : rt.Sorted) : ∀ e ∈ rt.entries, Contiguous e.mask := by
  intro e he
  obtain ⟨i, hi⟩ := Rtable.mem_entries.mp he
  exact ⟨i, (h.mask i e hi).trans (getSubnetMask_eq_netMask i)⟩

theorem getPrefixLength (h : rt.Sorted) {i : Fin 33} {e : RtableEntry} (he : e ∈ (rt i).entries) :
    getPrefixLength e.mask = some i.val := by
  rw [h.mask i e he, getSubnetMask_eq_netMask, getPrefixLength_netMask]

theorem mem_bucketOf (h : rt.Sorted) (i : Fin 33) :
    ∀ e ∈ (rt i).entries, e ∈ bucketOf rt.entries i := fun _ he =>
  Router.mem_bucketOf.mpr ⟨Rtable.mem_entries.mpr ⟨i, he⟩, h.getPrefixLength he⟩

theorem mem_bucket (h : rt.Sorted) {i : Fin 33} {e : RtableEntry} (he : e ∈ rt.entries)
    (hi : Router.getPrefixLength e.mask = some i.val) : e ∈ (rt i).entries := by
  obtain ⟨j, hj⟩ := Rtable.mem_entries.mp he
  have hij : i = j := Fin.ext (Option.some.inj (hi.symm.trans (h.getPrefixLength hj)))
  rwa [hij]

theorem hit_isSome (h : rt.Sorted) {i : Fin 33} {e : RtableEntry} {destIp : Word32}
    (he : e ∈ (rt i).entries) (hpfx : destIp &&& getSubnetMask i = e.pfx) :
    (hit rt destIp i).isSome := by
  obtain ⟨j, hj, rfl⟩ := List.getElem_of_mem he
  have hkey {k : Nat} (hk : k < (rt i).entries.length) :
      keyAt (rt i).entries k = (rt i).entries[k].pfx.toNat :=
    keyAt_of_getElem? (List.getElem?_eq_getElem hk)
  have hsorted : ∀ k k', k < k' → k' < (rt i).entries.length →
      keyAt (rt i).entries k ≤ keyAt (rt i).entries k' := by
    intro k k' hlt hk'
    rw [hkey (hlt.trans hk'), hkey hk']
    exact (BitVec.lt_def.mp (List.pairwise_iff_getElem.mp (h.increasing i) k k' _ hk' hlt)).le
  rw [hit_isSome_iff, hpfx]
  refine ⟨j, hj, hkey hj, ?_⟩
  rw [← hkey hj]
  exact Bisection.leadsTo_of_sorted hj hsorted

theorem longestPrefixMatch (h : rt.Sorted) (destIp : Word32) :
    LongestPrefixMatch rt.entries destIp (bestRoute rt destIp) := by
  refine (longestPrefixMatch_bestRoute_iff h.contiguous h.mem_bucketOf).mpr fun e he i hi => ?_
  have hmatch := (matches_iff_of_bucket (h.contiguous e he.1) hi).mp he.2.1
  exact h.hit_isSome (h.mem_bucket he.1 hi) hmatch

theorem eq_of_pfx (h : rt.Sorted) {i : Fin 33} {e e' : RtableEntry} (he : e ∈ (rt i).entries)
    (he' : e' ∈ (rt i).entries) (hpfx : e.pfx = e'.pfx) : e = e' := by
  obtain ⟨j, hj, rfl⟩ := List.getElem_of_mem he
  obtain ⟨k, hk, rfl⟩ := List.getElem_of_mem he'
  have hlt := List.pairwise_iff_getElem.mp (h.increasing i)
  rcases Nat.lt_trichotomy j k with hjk | rfl | hkj
  · exact absurd hpfx (BitVec.ne_of_lt (hlt j k hj hk hjk))
  · rfl
  · exact absurd hpfx.symm (BitVec.ne_of_lt (hlt k j hk hj hkj))

theorem longestPrefixMatch_unique (h : rt.Sorted) {destIp : Word32} {r r' : Option RtableEntry}
    (hr : LongestPrefixMatch rt.entries destIp r) (hr' : LongestPrefixMatch rt.entries destIp r') :
    r = r' := by
  cases r with
  | none =>
    cases r' with
    | none => rfl
    | some e' => exact absurd hr'.2.1 (hr e' hr'.1)
  | some e =>
    cases r' with
    | none => exact absurd hr.2.1 (hr' e hr.1)
    | some e' =>
      obtain ⟨i, hi⟩ := Rtable.mem_entries.mp hr.1
      obtain ⟨i', hi'⟩ := Rtable.mem_entries.mp hr'.1
      have hlen := maskLength_of_bucket (h.contiguous e hr.1) (h.getPrefixLength hi)
      have hlen' := maskLength_of_bucket (h.contiguous e' hr'.1) (h.getPrefixLength hi')
      have hle := hr.2.2 e' hr'.1 hr'.2.1
      have hge := hr'.2.2 e hr.1 hr.2.1
      obtain rfl : i = i' := Fin.ext (by omega)
      have hpfx : e.pfx = e'.pfx := by
        rw [← hr.2.1, ← hr'.2.1, h.mask i e hi, h.mask i e' hi']
      rw [h.eq_of_pfx hi hi' hpfx]

end Rtable.Sorted

/-- In a sorted table `get_best_route` ends, reads inside the buckets and returns the one entry
with the longest mask that matches, or none if none matches. -/
theorem getBestRoute_longestPrefixMatch (h : rt.Sorted) (destIp : Word32) :
    ∃ r, getBestRoute rt destIp = .ok r ∧
      ∀ r', LongestPrefixMatch rt.entries destIp r' ↔ r' = r := by
  refine ⟨bestRoute rt destIp, getBestRoute_eq rt destIp, fun r' => ⟨fun hr' => ?_, ?_⟩⟩
  · exact h.longestPrefixMatch_unique hr' (h.longestPrefixMatch destIp)
  · rintro rfl
    exact h.longestPrefixMatch destIp

def tenEntry : RtableEntry := ⟨le32 10 0 0 0, le32 10 0 0 1, le32 255 0 0 0, 0⟩

theorem sorted_add_tenEntry (h : initRtable.add tenEntry = some rt) : rt.Sorted := by
  have hentries (i : Fin 33) : (rt i).entries = bucketOf [tenEntry] i := Rtable.add_entries h i
  constructor
  · intro i e he
    rw [hentries, mem_bucketOf, List.mem_singleton] at he
    obtain ⟨rfl, hi⟩ := he
    have height : getPrefixLength tenEntry.mask = some 8 := by decide
    have hval : i.val = 8 := Option.some.inj (hi.symm.trans height)
    rw [hval]
    decide
  · intro i
    rw [hentries]
    exact (List.pairwise_singleton _ tenEntry).filter _

theorem getBestRoute_longestPrefixMatch_tenEntry :
    ∃ rt, initRtable.add tenEntry = some rt ∧ rt.Sorted ∧
      ∃ r, getBestRoute rt (le32 10 9 9 9) = .ok r ∧
        ∀ r', LongestPrefixMatch rt.entries (le32 10 9 9 9) r' ↔ r' = r := by
  have hsome : (initRtable.add tenEntry).isSome := by decide
  obtain ⟨rt, hrt⟩ := Option.isSome_iff_exists.mp hsome
  have hsorted := sorted_add_tenEntry hrt
  exact ⟨rt, hrt, hsorted, getBestRoute_longestPrefixMatch hsorted _⟩

end PCom.Router
