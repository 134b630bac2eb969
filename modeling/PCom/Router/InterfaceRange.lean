import PCom.Router.HeldPackets
import PCom.Router.LongestPrefixMatch

/-! Where the indices into `interfaces` come from: a number in the routing table file travels
through the table, the lookup and the queue to an access that nothing guards. -/

namespace PCom.Router

open Lib

variable {env : Interfaces} {rt : Rtable}

/-- No index into `interfaces` is ever out of range, whatever frames the router receives. -/
def IndicesInRange (env : Interfaces) (rt : Rtable) : Prop :=
  ∀ s, Reachable env rt s → ∀ a : Arrival, mainStep env rt s a.1 a.2 ≠ .error .badIndex

def RoutesInRange (rt : Rtable) : Prop :=
  ∀ destIp route, bestRoute rt destIp = some route → InRange route.interface

theorem badIndex_iff_misrouted {s : State} {a : Arrival} (hs : Reachable env rt s) :
    mainStep env rt s a.1 a.2 = .error .badIndex ↔ Misrouted env rt s a := by
  refine ⟨fun h => ?_, mainStep_of_misrouted⟩
  by_contra hnot
  obtain ⟨act, s', hturn⟩ := exists_turn_of_not_misrouted hs.queueRouted hnot
  rw [hturn.mainStep_eq] at h
  cases h

/-- A UDP packet from 10.0.1.7 to `destIp`; `hi` and `lo` are its checksum. -/
def udpFrame (hi lo : Byte) (destIp : Word32) : List Byte :=
  (exampleMac 1).toList ++ (exampleMac 7).toList ++ [8, 0] ++
    ([0x45, 0, 0, 0x14, 0, 1, 0, 0, 0x40, 0x11, hi, lo, 10, 0, 1, 7] ++ bytes32 destIp)

theorem exists_udpFrame (destIp : Word32) : ∃ hi lo : Byte,
    wordSum ((udpFrame hi lo destIp).drop 14) ≡ 0 [MOD 65535] := by
  obtain ⟨n, hn⟩ : ∃ n, n = wordSum ((udpFrame 0 0 destIp).drop 14) := ⟨_, rfl⟩
  obtain ⟨c, hc, hsum⟩ : ∃ c < 65536, c + n ≡ 0 [MOD 65535] := by
    refine ⟨65535 - n % 65535, by omega, ?_⟩
    unfold Nat.ModEq
    omega
  refine ⟨BitVec.ofNat 8 (c / 256), BitVec.ofNat 8 c, ?_⟩
  have hdrop (hi lo : Byte) : (udpFrame hi lo destIp).drop 14
      = [0x45, 0, 0, 0x14, 0, 1, 0, 0, 0x40, 0x11, hi, lo, 10, 0, 1, 7] ++ bytes32 destIp := rfl
  have hsplit : wordSum ((udpFrame (BitVec.ofNat 8 (c / 256)) (BitVec.ofNat 8 c) destIp).drop 14)
      = c + n := by
    rw [hn, hdrop, hdrop, wordSum_append (by simp), wordSum_append (by simp)]
    have hzero : (0 : Byte).toNat = 0 := rfl
    simp only [wordSum, BitVec.toNat_ofNat, hzero]
    omega
  rw [hsplit]
  exact hsum

theorem exists_misrouted {destIp : Word32} {route : RtableEntry}
    (hroute : bestRoute rt destIp = some route) (hout : ¬ InRange route.interface) (m : Mem) :
    ∃ a, Misrouted env rt (start m) a := by
  obtain ⟨hi, lo, hsum⟩ := exists_udpFrame destIp
  refine ⟨(1, udpFrame hi lo destIp), isOther_of_udp rfl rfl, ?_, ?_, route, ?_, hout⟩
  · have httl : ipTtl (buffer (start m) (1, udpFrame hi lo destIp)) = 64#8 := rfl
    rw [httl]
    decide
  · have hhdr : ipHeader (buffer (start m) (1, udpFrame hi lo destIp))
        = (udpFrame hi lo destIp).drop 14 := rfl
    rw [accepted_iff, hhdr]
    exact hsum
  · have hdaddr : ipDaddr (buffer (start m) (1, udpFrame hi lo destIp)) = destIp :=
      le32_bytes32 destIp
    rw [hdaddr]
    exact hroute

theorem indicesInRange_iff_routesInRange : IndicesInRange env rt ↔ RoutesInRange rt := by
  constructor
  · intro h destIp route hroute
    by_contra hout
    have hmisrouted : ∃ a, Misrouted env rt (start fun _ => 0) a := exists_misrouted hroute hout _
    obtain ⟨a, ha⟩ := hmisrouted
    exact h _ ⟨_, _, .nil⟩ a (mainStep_of_misrouted ha)
  · intro h s hs a hbad
    obtain ⟨-, -, -, route, hroute, hout⟩ := (badIndex_iff_misrouted hs).mp hbad
    exact hout (h _ route hroute)

section Load

variable {qsort : Qsort RtableEntry} {f : Fields} {trail : List Char} {ls : List RouteLine}

theorem exists_line_of_bestRoute (htrail : ∀ c ∈ trail, isSpace c = true) (hne : ls ≠ [])
    (h : parseRtable qsort f (fileText trail ls) = some rt) {destIp : Word32}
    {route : RtableEntry} (hroute : bestRoute rt destIp = some route) :
    ∃ l ∈ ls, l.entry = route := by
  obtain ⟨i, hi, -⟩ := (bestRoute_eq_some_iff rt destIp route).mp hroute
  obtain ⟨hmem, -⟩ := hit_some hi
  rw [entries_of_parseRtable htrail hne h i] at hmem
  have hbucket := qsort.mem_of_mem_sort _ _ route hmem
  exact List.mem_map.mp (mem_bucketOf.mp hbucket).1

/-- With a table loaded from a file of route lines, all indices into `interfaces` stay in range in
all runs exactly when no lookup answers with a route that has a number out of range.  It is enough
that no line of the file has one, and in each run only the frames so routed go wrong. -/
theorem indicesInRange_iff (htrail : ∀ c ∈ trail, isSpace c = true)
    (h : parseRtable qsort f (fileText trail ls) = some rt) :
    (IndicesInRange env rt ↔ RoutesInRange rt) ∧
      (ls ≠ [] → (∀ l ∈ ls, InRange l.entry.interface) → RoutesInRange rt) ∧
      ∀ s, Reachable env rt s → ∀ a : Arrival,
        (mainStep env rt s a.1 a.2 = .error .badIndex ↔ Misrouted env rt s a) := by
  refine ⟨indicesInRange_iff_routesInRange, fun hne hlines destIp route hroute => ?_,
    fun s hs a => badIndex_iff_misrouted hs⟩
  obtain ⟨l, hl, rfl⟩ := exists_line_of_bestRoute htrail hne h hroute
  exact hlines l hl

end Load

/-- The shipped tables have many such lines. -/
def fourthLine : RouteLine where
  pfx := "0.0.0.0".toList
  nextHop := "10.0.0.9".toList
  mask := "0.0.0.0".toList
  negative := false
  digits := ['3']
  pfx_word := by decide
  nextHop_word := by decide
  mask_word := by decide
  digits_ne_nil := by decide
  digits_digit := by simp [isDigit]

theorem exists_rtable_fourthLine : ∃ rt,
    parseRtable .insertion defaultRoute (fileText ['\n'] [fourthLine]) = some rt ∧
      bestRoute rt (le32 10 9 9 9) = some fourthLine.entry := by
  have hrun : (parseRtable .insertion defaultRoute (fileText ['\n'] [fourthLine])).map
      (fun rt => getBestRoute rt (le32 10 9 9 9)) = some (.ok (some fourthLine.entry)) := rfl
  obtain ⟨rt, hrt, hroute⟩ := Option.map_eq_some_iff.mp hrun
  rw [getBestRoute_eq] at hroute
  exact ⟨rt, hrt, Except.ok.inj hroute⟩

theorem indicesInRange_iff_fourthLine : ∃ rt,
    parseRtable .insertion defaultRoute (fileText ['\n'] [fourthLine]) = some rt ∧
      (IndicesInRange exampleInterfaces rt ↔ RoutesInRange rt) ∧
      ([fourthLine] ≠ [] → (∀ l ∈ [fourthLine], InRange l.entry.interface) → RoutesInRange rt) ∧
      ∀ s, Reachable exampleInterfaces rt s → ∀ a : Arrival,
        (mainStep exampleInterfaces rt s a.1 a.2 = .error .badIndex ↔
          Misrouted exampleInterfaces rt s a) := by
  obtain ⟨rt, hrt, -⟩ := exists_rtable_fourthLine
  exact ⟨rt, hrt, indicesInRange_iff (by simp [isSpace]) hrt⟩

/-- The first packet to 10.9.9.9 makes the router read `interfaces[3]`. -/
theorem fourthLine_out_of_range : ∃ rt,
    parseRtable .insertion defaultRoute (fileText ['\n'] [fourthLine]) = some rt ∧
      ¬ IndicesInRange exampleInterfaces rt := by
  obtain ⟨rt, hrt, hroute⟩ := exists_rtable_fourthLine
  refine ⟨rt, hrt, fun h => ?_⟩
  have hin := indicesInRange_iff_routesInRange.mp h _ _ hroute
  exact absurd hin.2 (by decide)

end PCom.Router
