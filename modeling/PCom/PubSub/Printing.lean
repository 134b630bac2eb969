import PCom.Lib.Floating
import PCom.PubSub.Codec

/-! What the printers of `subscriber.cpp` write: their numbers go through a `double` and a `float`,
and come out as they were sent. -/

namespace PCom.PubSub

open Lib

def convertedShort (num : Word16) : Option Binary32 :=
  (Binary64.ofNat num.toNat).bind fun x =>
    (Binary64.ofNat 100).bind fun y => (x.div y).bind Binary64.toBinary32

def converted (num : Word32) : Nat → Option Binary64
  | 0 => Binary64.ofNat num.toNat
  | j + 1 => (converted num j).bind fun x => (Binary64.ofNat 10).bind fun y => x.div y

/-- The line of a printer, `none` if a number is not finite. -/
def Printed.text : Printed → Option Str
  | .int negative num =>
    some (ascii "INT - " ++ signPart negative ++ decimal num.toNat ++ ascii "\n")
  | .shortReal num =>
    (convertedShort num).map fun x => ascii "SHORT_REAL - " ++ x.printF 2 ++ ascii "\n"
  | .real negative num pow =>
    (converted num pow.toNat).map fun x =>
      ascii "FLOAT - " ++ signPart negative ++ x.printF pow.toNat ++ ascii "\n"
  | .string str => some (ascii "STRING - " ++ str ++ ascii "\n")

/-- The line with the numbers as they are meant: hundredths, and a quotient by a power of ten. -/
def Printed.denoted : Printed → Str
  | .int negative num => ascii "INT - " ++ signPart negative ++ decimal num.toNat ++ ascii "\n"
  | .shortReal num => ascii "SHORT_REAL - " ++ fixed 2 num.toNat ++ ascii "\n"
  | .real negative num pow =>
    ascii "FLOAT - " ++ signPart negative ++ fixed pow.toNat num.toNat ++ ascii "\n"
  | .string str => ascii "STRING - " ++ str ++ ascii "\n"

theorem binary64Units_large : 10 ^ 255 * (2 * (2 ^ 52 * 10)) < binary64Units := by
  decide +kernel

theorem converted_close (num : Word32) {j : Nat} (hj : j ≤ 255) :
    ∃ x, converted num j = some x ∧ x.negative = false ∧
      Close (2 * j) (2 ^ 53) (x.magnitude * 10 ^ j) (num.toNat * binary64Units) := by
  induction j with
  | zero =>
    have hnum : num.toNat < 2 ^ 53 := Nat.lt_trans num.isLt (by decide)
    obtain ⟨x, hx, hnegative, hmagnitude⟩ := Binary64.ofNat_eq hnum
    refine ⟨x, hx, hnegative, ?_⟩
    rw [hmagnitude, Nat.pow_zero, Nat.mul_one]
    exact .refl _ _ _
  | succ j ih =>
    obtain ⟨x, hx, hnegative, hclose⟩ := ih (by omega)
    obtain ⟨y, hy, hynegative, hymagnitude⟩ := Binary64.ofNat_eq (n := 10) (by decide)
    have hunits := Binary64.binary64Units_pos
    have hdigits : x.magnitude = 0 ∨ 2 ^ 52 * y.magnitude ≤ x.magnitude * binary64Units := by
      rcases Nat.eq_zero_or_pos num.toNat with hzero | hnum
      · left
        have hle := hclose.le_two_mul' (by omega) (by decide)
        rw [hzero, Nat.zero_mul, Nat.mul_zero, Nat.le_zero, Nat.mul_eq_zero] at hle
        exact hle.resolve_right (Nat.pow_pos (by decide)).ne'
      · right
        have hle := hclose.le_two_mul (by omega) (by decide)
        have hlarge : 10 ^ j * (2 * (2 ^ 52 * 10)) ≤ 10 ^ j * (2 * x.magnitude) :=
          calc 10 ^ j * (2 * (2 ^ 52 * 10)) ≤ 10 ^ 255 * (2 * (2 ^ 52 * 10)) :=
                Nat.mul_le_mul_right _ (Nat.pow_le_pow_right (by decide) (by omega))
            _ ≤ binary64Units := binary64Units_large.le
            _ ≤ num.toNat * binary64Units := Nat.le_mul_of_pos_left _ hnum
            _ ≤ 2 * (x.magnitude * 10 ^ j) := hle
            _ = 10 ^ j * (2 * x.magnitude) := by ring
        have hle' := Nat.le_of_mul_le_mul_left
          (Nat.le_of_mul_le_mul_left hlarge (Nat.pow_pos (by decide))) (by decide : 0 < 2)
        calc 2 ^ 52 * y.magnitude = 2 ^ 52 * 10 * binary64Units := by rw [hymagnitude, Nat.mul_assoc]
          _ ≤ x.magnitude * binary64Units := Nat.mul_le_mul_right _ hle'
    obtain ⟨z, hz, hznegative, hzclose⟩ :=
      Binary64.div_eq (x := x) (y := y) (by rw [hymagnitude]; omega) hdigits
    refine ⟨z, ?_, ?_, ?_⟩
    · rw [converted, hx, Option.bind_some, hy, Option.bind_some, hz]
    · rw [hznegative, hnegative, hynegative]
      rfl
    · have hstep : Close 1 (2 ^ 53) (z.magnitude * 10 ^ (j + 1)) (x.magnitude * 10 ^ j) := by
        have hscaled := hzclose.scale (10 ^ j)
        rw [hymagnitude] at hscaled
        apply Close.of_scale hunits
        convert hscaled using 1
        · ring
        · ring
      have htrans := hstep.trans (by decide) (by omega) hclose
      convert htrans using 1
      omega

theorem convertedShort_close (num : Word16) : ∃ x, convertedShort num = some x ∧ x.negative = false ∧
    Close 3 (2 ^ 24) (x.magnitude * 10 ^ 2) (num.toNat * binary32Units) := by
  have hnum : num.toNat < 2 ^ 16 := num.isLt
  obtain ⟨x, hx, hnegative, hmagnitude⟩ :=
    Binary64.ofNat_eq (n := num.toNat) (Nat.lt_trans hnum (by decide))
  obtain ⟨y, hy, hynegative, hymagnitude⟩ := Binary64.ofNat_eq (n := 100) (by decide)
  have hunits := Binary64.binary64Units_pos
  have hdigits : x.magnitude = 0 ∨ 2 ^ 52 * y.magnitude ≤ x.magnitude * binary64Units := by
    rcases Nat.eq_zero_or_pos num.toNat with hzero | hpos
    · left
      rw [hmagnitude, hzero, Nat.zero_mul]
    · right
      rw [hymagnitude, ← Nat.mul_assoc]
      apply Nat.mul_le_mul_right
      calc 2 ^ 52 * 100 ≤ binary64Units := by decide +kernel
        _ ≤ x.magnitude := hmagnitude ▸ Nat.le_mul_of_pos_left _ hpos
  obtain ⟨z, hz, hznegative, hzclose⟩ :=
    Binary64.div_eq (x := x) (y := y) (by rw [hymagnitude]; omega) hdigits
  have hquotient : Close 1 (2 ^ 53) (z.magnitude * 100) (num.toNat * binary64Units) := by
    rw [hymagnitude] at hzclose
    apply Close.of_scale hunits
    convert hzclose using 1
    · ring
    · rw [hmagnitude]
      ring
  have hlow : z.magnitude = 0 ∨ 2 ^ 23 * unitsPerBinary32 ≤ z.magnitude := by
    rcases Nat.eq_zero_or_pos num.toNat with hzero | hpos
    · left
      have hle := hquotient.le_two_mul' (by decide) (by decide)
      rw [hzero, Nat.zero_mul, Nat.mul_zero, Nat.le_zero, Nat.mul_eq_zero] at hle
      exact hle.resolve_right (by decide)
    · right
      have hle := hquotient.le_two_mul (by decide) (by decide)
      have hone : binary64Units ≤ num.toNat * binary64Units := Nat.le_mul_of_pos_left _ hpos
      have hsmall : 2 * (2 ^ 23 * unitsPerBinary32 * 100) ≤ binary64Units := by decide +kernel
      omega
  have hhigh : z.magnitude ≤ 2 ^ 100 * binary64Units := by
    have hle := hquotient.le_two_mul' (by decide) (by decide)
    have hnum' : num.toNat * binary64Units ≤ 2 ^ 16 * binary64Units := Nat.mul_le_mul_right _ hnum.le
    omega
  obtain ⟨f, hf, hfnegative, hfclose⟩ := Binary64.toBinary32_eq hlow hhigh
  refine ⟨f, ?_, ?_, ?_⟩
  · rw [convertedShort, hx, Option.bind_some, hy, Option.bind_some, hz, Option.bind_some, hf]
  · rw [hfnegative, hznegative, hnegative, hynegative]
    rfl
  · have hcoarse : Close 1 (2 ^ 24) (100 * z.magnitude) (num.toNat * binary64Units) := by
      rw [Nat.mul_comm 100]
      exact hquotient.coarsen (by decide)
    have htrans := (hfclose.scale 100).trans (by decide) (by decide) hcoarse
    apply Close.of_scale unitsPerBinary32_pos
    convert htrans using 1
    · ring
    · rw [binary64Units_eq]
      ring

/-- No rounding is seen in a line. -/
theorem Printed.text_eq_denoted (p : Printed) : p.text = some p.denoted := by
  cases p with
  | int negative num => rfl
  | string str => rfl
  | shortReal num =>
    obtain ⟨x, hx, hnegative, hclose⟩ := convertedShort_close num
    have hnum : num.toNat < 2 ^ 16 := num.isLt
    have hprint : x.printF 2 = fixed 2 num.toNat := by
      rw [Binary32.printF, printF, hclose.roundQuotient binary32Units_pos (by omega), hnegative]
      rfl
    rw [text, hx, Option.map_some, hprint, denoted]
  | real negative num pow =>
    have hpow : pow.toNat ≤ 255 := Nat.le_of_lt_succ pow.isLt
    obtain ⟨x, hx, hnegative, hclose⟩ := converted_close num hpow
    have hnum : num.toNat < 2 ^ 32 := num.isLt
    have hparts : 2 * (2 * pow.toNat) * num.toNat < 2 ^ 53 :=
      calc 2 * (2 * pow.toNat) * num.toNat ≤ 2 * (2 * 255) * 2 ^ 32 :=
            Nat.mul_le_mul (by omega) hnum.le
        _ < 2 ^ 53 := by decide
    have hprint : x.printF pow.toNat = fixed pow.toNat num.toNat := by
      rw [Binary64.printF, printF, hclose.roundQuotient Binary64.binary64Units_pos hparts, hnegative]
      rfl
    rw [text, hx, Option.map_some, hprint, denoted]

theorem take_denoted (p : Printed) : p.denoted.take 2 = match p with
    | .int _ _ => ascii "IN"
    | .shortReal _ => ascii "SH"
    | .real _ _ _ => ascii "FL"
    | .string _ => ascii "ST" := by
  cases p <;> rfl

theorem Printed.denoted_injective : Function.Injective Printed.denoted := by
  intro p q h
  have htake : p.denoted.take 2 = q.denoted.take 2 := by rw [h]
  rw [take_denoted, take_denoted] at htake
  cases p with
  | int negative num =>
    cases q with
    | int negative' num' =>
      simp only [denoted, List.append_assoc] at h
      have h := List.append_cancel_left h
      rw [← List.append_assoc, ← List.append_assoc] at h
      obtain ⟨rfl, hnum⟩ := signPart_inj (head_decimal_digit _) (head_decimal_digit _)
        (List.append_cancel_right h)
      have hvalue := congrArg decimalValue hnum
      rw [decimalValue_decimal, decimalValue_decimal] at hvalue
      rw [BitVec.eq_of_toNat_eq hvalue]
    | _ => exact absurd htake (by dsimp only; decide)
  | shortReal num =>
    cases q with
    | shortReal num' =>
      have h := List.append_cancel_left (List.append_cancel_right h)
      rw [BitVec.eq_of_toNat_eq (fixed_inj h).2]
    | _ => exact absurd htake (by dsimp only; decide)
  | real negative num pow =>
    cases q with
    | real negative' num' pow' =>
      simp only [denoted, List.append_assoc] at h
      have h := List.append_cancel_left h
      rw [← List.append_assoc, ← List.append_assoc] at h
      obtain ⟨rfl, hfixed⟩ := signPart_inj (head_fixed_digit _ _) (head_fixed_digit _ _)
        (List.append_cancel_right h)
      obtain ⟨hpow, hnum⟩ := fixed_inj hfixed
      rw [BitVec.eq_of_toNat_eq hpow, BitVec.eq_of_toNat_eq hnum]
    | _ => exact absurd htake (by dsimp only; decide)
  | string str =>
    cases q with
    | string str' =>
      rw [List.append_cancel_left (List.append_cancel_right h)]
    | _ => exact absurd htake (by dsimp only; decide)

/-- Whoever reads a line knows what was sent, the sign of a zero included. -/
theorem Printed.text_injective : Function.Injective Printed.text := by
  intro p q h
  rw [text_eq_denoted, text_eq_denoted, Option.some.injEq] at h
  exact denoted_injective h

/-- The bytes in memory order. -/
def inetNtoa (ip : Word32) : Str :=
  (ascii ".").intercalate ((bytes32 ip).map fun b => decimal b.toNat)

/-- What `main` writes for a packet, with `topic` in the place of the topic. -/
def Packet.lineOn (pkt : Packet) (topic line : Str) : Str :=
  inetNtoa pkt.udpClientIp ++ ascii ":" ++ decimal (ntohs pkt.udpClientPort).toNat ++ ascii " - " ++
    topic ++ ascii " - " ++ line

/-- The line of a packet on the standard output.  A data type that there is not is only complained
about on the other stream. -/
def Packet.line (pkt : Packet) : Option Str :=
  match pkt.printed with
  | none => some (pkt.lineOn pkt.topicStr [])
  | some printed => printed.text.map (pkt.lineOn pkt.topicStr)

/-- The topic as the subscriber sees it: one that fills its field goes on with the data type, and with
as much of the content as was sent. -/
def Packet.topicSeen (pkt : Packet) : Str :=
  cstr pkt.topic ++
    if strlen pkt.topic < topicLen ∨ pkt.dataType = 0 then []
    else pkt.dataType :: cstr (pkt.content.take (pkt.contentSize 0))

theorem zero_not_mem_cstr (bs : List Byte) : 0#8 ∉ cstr bs := by
  intro h
  simpa using List.mem_takeWhile_imp h

theorem trimmed_topicStr {pkt : Packet} (h : pkt.Typed) (uninit : Nat) :
    (pkt.trimmed uninit).topicStr = pkt.topicSeen := by
  have hlen := pkt.length_topic
  have hsize : pkt.contentSize uninit = pkt.contentSize 0 := by
    rw [Packet.contentSize_eq, Packet.contentSize_eq]
    rcases h.cases with htype | htype | htype | htype <;> simp [htype]
  have hfield :
      zeroPad topicLen (pkt.topic.take pkt.topicSize) = zeroPad topicLen (cstr pkt.topic) := by
    rw [Packet.topicSize_eq, ← zeroPad_take_strlen hlen.le, ← List.take_take,
      List.take_of_length_le hlen.le]
  rw [Packet.topicStr, Packet.udpMsg_trimmed, hfield, Packet.topicSeen, strlen,
    cstr_zeroPad_append (zero_not_mem_cstr _) (hlen ▸ strlen_le _),
    Nat.min_eq_left (contentSize_le h uninit), hsize]
  congr 1
  by_cases hshort : (cstr pkt.topic).length < topicLen
  · rw [if_pos hshort, if_pos (.inl hshort)]
  · rw [if_neg hshort]
    by_cases htype : pkt.dataType = 0
    · rw [if_pos (.inr htype), htype]
      exact cstr_zero_cons _
    · rw [if_neg (not_or.mpr ⟨hshort, htype⟩), cstr_cons_of_ne htype, cstr_zeroPad]

/-- A packet on its way from `send_packet` to the standard output of the subscriber, which shows the
numbers exactly as they were sent. -/
theorem printsLine {pkt : Packet} (h : pkt.Typed) (uninit : Nat) : ∃ pkt' printed,
    Mode.act .main (received (pkt.header uninit)) = some (.body (pkt.sizes uninit), []) ∧
      Mode.act (.body (pkt.sizes uninit)) (received (pkt.body uninit))
        = some (.main, [.packet pkt']) ∧
      pkt.printed = some printed ∧
      pkt'.line = some (pkt.lineOn pkt.topicSeen printed.denoted) := by
  have hsize := Server.typed_contentSize_le h uninit
  obtain ⟨printed, hprinted⟩ : ∃ printed, pkt.printed = some printed := by
    rw [Packet.printed]
    rcases h.cases with htype | htype | htype | htype <;> simp [htype]
  refine ⟨_, printed, act_header hsize, act_body hsize, hprinted, ?_⟩
  rw [Packet.line, trimmed_printed h, hprinted, trimmed_topicStr h]
  simp only [Printed.text_eq_denoted, Option.map_some]
  rfl

/-- `-0.05` on the topic `up`. -/
def realPacket : Packet :=
  Packet.ofDatagram 0 0 (datagram (zeroPad topicLen [0x75, 0x70]) 2 [1, 0, 0, 0, 5, 2])

theorem printsLine_real : ∃ pkt' printed,
    Mode.act .main (received (realPacket.header 0)) = some (.body (realPacket.sizes 0), []) ∧
    Mode.act (.body (realPacket.sizes 0)) (received (realPacket.body 0)) =
      some (.main, [.packet pkt']) ∧
    realPacket.printed = some printed ∧
    pkt'.line = some (realPacket.lineOn realPacket.topicSeen printed.denoted) :=
  printsLine (typed_datagram (length_zeroPad (by decide)) 0 0 (by decide) _) 0

end PCom.PubSub
