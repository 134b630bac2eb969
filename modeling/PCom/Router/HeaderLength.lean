import Mathlib.Data.List.GetD
import PCom.Router.Dispatch
import PCom.Router.HeldPackets

/-! The header check of `main` against headers of every length. -/

namespace PCom.Router

open Lib

def ihl (frame : List Byte) : Nat := (frame.getD 14 0).toNat % 16

def fullHeader (frame : List Byte) : List Byte := (frame.drop 14).take (4 * ihl frame)

/-- The part of it that `sizeof(struct iphdr)` covers, and the options behind. -/
def fixedHeader (frame : List Byte) : List Byte := (frame.drop 14).take 20

def ipOptions (frame : List Byte) : List Byte := (frame.drop 34).take (4 * ihl frame - 20)

def onesSum (bytes : List Byte) : Nat := foldCarries (wordSum bytes)

structure Checked (env : Interfaces) (s : State) (a : Arrival) : Prop where
  ipv4 : IsIpv4 (buffer s a)
  no_echo : ¬ IsEchoRequest env a.1 (buffer s a)
  ttl : 1 < (ipTtl (buffer s a)).toNat
  ihl_ge : 5 ≤ ihl a.2
  covered : 14 + 4 * ihl a.2 ≤ a.2.length

/-- The router drops the frame exactly if the sum over the header is not all ones. -/
def DropsCorrupt (env : Interfaces) (rt : Rtable) (s : State) (a : Arrival) : Prop :=
  NoEffect env rt s a.1 a.2 ↔ onesSum (fullHeader a.2) ≠ 0xffff

def OptionsNeutral (frame : List Byte) : Prop :=
  wordSum (ipOptions frame) ≡ 0 [MOD 65535] ∨
    ¬ wordSum (fixedHeader frame) ≡ 0 [MOD 65535] ∧
      ¬ wordSum (fixedHeader frame) + wordSum (ipOptions frame) ≡ 0 [MOD 65535]

section Header

variable {env : Interfaces} {rt : Rtable} {s : State} {a : Arrival} {frame : List Byte}

theorem loadBytes_getPacket {m : Mem} {i : Fin routerNumInterfaces} {off n : Nat}
    (hlen : off + n ≤ frame.length) (hmax : off + n ≤ maxLen) :
    loadBytes (getPacket m i frame).payload off n = (frame.drop off).take n := by
  refine List.ext_getElem ?_ fun k hk hk' => ?_
  · rw [loadBytes, List.length_map, List.length_range, List.length_take, List.length_drop]
    omega
  · have hkn : k < n := by simpa [loadBytes] using hk
    have htake : off + k < (frame.take maxLen).length := by
      rw [List.length_take]
      omega
    simp only [loadBytes, List.getElem_map, List.getElem_range, List.getElem_take,
      List.getElem_drop, getPacket_apply, if_pos htake]
    rw [List.getD_eq_getElem _ _ htake, List.getElem_take]

theorem wordSum_cons_pos {b : Byte} (h : 0 < b.toNat) (bs : List Byte) :
    0 < wordSum (b :: bs) := by
  cases bs with
  | nil =>
    rw [wordSum]
    omega
  | cons c bs =>
    rw [wordSum]
    omega

theorem fullHeader_eq (h : 5 ≤ ihl frame) :
    fullHeader frame = fixedHeader frame ++ ipOptions frame := by
  have hsplit : 4 * ihl frame = 20 + (4 * ihl frame - 20) := by omega
  rw [fullHeader, hsplit, List.take_add, List.drop_drop]
  rfl

namespace Checked

theorem ipHeader_eq (h : Checked env s a) : ipHeader (buffer s a) = fixedHeader a.2 := by
  have hihl := h.ihl_ge
  have hcovered := h.covered
  exact loadBytes_getPacket (by omega) (by decide)

theorem wordSum_pos (h : Checked env s a) : 0 < wordSum (fullHeader a.2) := by
  have hihl := h.ihl_ge
  have hcovered := h.covered
  have hlt : 14 < a.2.length := by omega
  have hfirst : 0 < a.2[14].toNat := by
    rw [ihl, List.getD_eq_getElem _ _ hlt] at hihl
    omega
  obtain ⟨n, hn⟩ : ∃ n, 4 * ihl a.2 = n + 1 := ⟨4 * ihl a.2 - 1, by omega⟩
  rw [fullHeader, hn, List.drop_eq_getElem_cons hlt, List.take_succ_cons]
  exact wordSum_cons_pos hfirst _

theorem wordSum_eq (h : Checked env s a) :
    wordSum (fullHeader a.2) = wordSum (fixedHeader a.2) + wordSum (ipOptions a.2) := by
  have hihl := h.ihl_ge
  have hcovered := h.covered
  have hlength : (fixedHeader a.2).length = 20 := by
    rw [fixedHeader, List.length_take, List.length_drop]
    omega
  rw [fullHeader_eq hihl, wordSum_append (by rw [hlength])]

theorem noEffect_iff (h : Checked env s a) :
    NoEffect env rt s a.1 a.2 ↔ ¬ wordSum (fixedHeader a.2) ≡ 0 [MOD 65535] := by
  have harp := h.ipv4.not_parseArp
  rw [@noEffect_iff_of_forwarded _ _ _ _ _ (buffer s a) rfl h.no_echo (fun hreq => harp hreq.1)
    (fun hreply => harp hreply.1), and_iff_right h.ttl, accepted_iff, h.ipHeader_eq]

theorem onesSum_eq_iff (h : Checked env s a) : onesSum (fullHeader a.2) = 0xffff ↔
    wordSum (fixedHeader a.2) + wordSum (ipOptions a.2) ≡ 0 [MOD 65535] := by
  rw [onesSum, foldCarries_eq_ones_iff h.wordSum_pos, h.wordSum_eq]

end Checked

/-- The check of 20 bytes is a check of the header exactly if the options change nothing. -/
theorem dropsCorrupt_iff (h : Checked env s a) :
    DropsCorrupt env rt s a ↔ OptionsNeutral a.2 := by
  rw [DropsCorrupt, h.noEffect_iff, Ne, h.onesSum_eq_iff, OptionsNeutral]
  unfold Nat.ModEq
  omega

end Header

/-- A correct packet whose header has a sixth word. -/
def optionsFrame : List Byte :=
  (exampleMac 1).toList ++ (exampleMac 7).toList ++ [8, 0] ++
    [0x46, 0, 0, 0x18, 0, 1, 0, 0, 64, 0x11, 0x59, 0xbb, 10, 0, 1, 7, 10, 9, 9, 9, 1, 1, 1, 0]

def optionsBuffer : Mem := buffer (start fun _ => 0) (1, optionsFrame)

theorem isOther_optionsBuffer : IsOther exampleInterfaces 1 optionsBuffer := isOther_of_udp rfl rfl

theorem isIpv4_optionsBuffer : IsIpv4 optionsBuffer := by
  have htype : etherType optionsBuffer = le16 8 0 := rfl
  rw [IsIpv4, htype]
  decide

theorem ipTtl_optionsBuffer : ipTtl optionsBuffer = 64 := rfl

theorem checked_optionsFrame : Checked exampleInterfaces (start fun _ => 0) (1, optionsFrame) where
  ipv4 := isIpv4_optionsBuffer
  no_echo := isOther_optionsBuffer.echo
  ttl := by
    change 1 < (ipTtl optionsBuffer).toNat
    rw [ipTtl_optionsBuffer]
    decide
  ihl_ge := by decide
  covered := by decide

theorem dropsCorrupt_iff_optionsFrame :
    Checked exampleInterfaces (start fun _ => 0) (1, optionsFrame) ∧
      (DropsCorrupt exampleInterfaces defaultRtable (start fun _ => 0) (1, optionsFrame) ↔
        OptionsNeutral optionsFrame) :=
  ⟨checked_optionsFrame, dropsCorrupt_iff checked_optionsFrame⟩

/-- The packet is dropped although its header is correct. -/
theorem optionsFrame_dropped :
    Reachable exampleInterfaces defaultRtable (start fun _ => 0) ∧
      Checked exampleInterfaces (start fun _ => 0) (1, optionsFrame) ∧
      ¬ DropsCorrupt exampleInterfaces defaultRtable (start fun _ => 0) (1, optionsFrame) := by
  refine ⟨⟨_, _, .nil⟩, checked_optionsFrame, fun h => ?_⟩
  rw [DropsCorrupt, checked_optionsFrame.noEffect_iff, Ne, checked_optionsFrame.onesSum_eq_iff] at h
  have hfixed : ¬ wordSum (fixedHeader optionsFrame) ≡ 0 [MOD 65535] := by decide
  have hfull : wordSum (fixedHeader optionsFrame) + wordSum (ipOptions optionsFrame)
      ≡ 0 [MOD 65535] := by decide
  exact h.mp hfixed hfull

end PCom.Router
