import PCom.Router.Conservation
import PCom.Router.Originated

/-! What bytes that an earlier frame left in the buffer can change. -/

namespace PCom.Router

open Lib

variable {env : Interfaces} {rt : Rtable}

abbrev readOver (m : Mem) (a : Arrival) : Mem := (getPacket m a.1 a.2).payload

/-- What can be seen of a turn: its packets end where their length says. -/
structure Outcome where
  arptable : List ArptableEntry
  q : List Transmission
  sent : List Transmission

def outcomeOf (r : State × List Transmission) : Outcome where
  arptable := r.1.arptable
  q := r.1.q.map fun p => ⟨p.interface, p.bytes⟩
  sent := r.2

def outcome (env : Interfaces) (rt : Rtable) (s : State) (a : Arrival) : Except Fault Outcome :=
  (mainStep env rt s a.1 a.2).map outcomeOf

/-- What was in the buffer before the frame makes no difference. -/
def JudgedAlone (env : Interfaces) (a : Arrival) : Prop :=
  ∀ rt arptable q m m', outcome env rt ⟨arptable, q, m⟩ a = outcome env rt ⟨arptable, q, m'⟩ a

/-- A packet that the IP path drops silently. -/
def Dropped (p : Mem) : Prop := 1 < (ipTtl p).toNat ∧ ¬ Accepted p

def Complete (env : Interfaces) (a : Arrival) : Prop :=
  42 ≤ a.2.length ∨ (32 ≤ a.2.length ∧ IsArpReply (readOver (fun _ => 0) a)) ∨
    (∀ m, IsOther env a.1 (readOver m a)) ∧
      (34 ≤ a.2.length ∨ ∀ m, Dropped (readOver m a))

def Agree (n : Nat) (p p' : Mem) : Prop := ∀ i < n, p i = p' i

namespace Agree

variable {n : Nat} {p p' : Mem}

theorem symm (h : Agree n p p') : Agree n p' p := fun i hi => (h i hi).symm

theorem load16 (h : Agree n p p') {off : Nat} (hoff : off + 2 ≤ n) :
    Router.load16 p off = Router.load16 p' off := by
  rw [Router.load16, Router.load16, h off (by omega), h (off + 1) (by omega)]

theorem load32 (h : Agree n p p') {off : Nat} (hoff : off + 4 ≤ n) :
    Router.load32 p off = Router.load32 p' off := by
  rw [Router.load32, Router.load32, h off (by omega), h (off + 1) (by omega),
    h (off + 2) (by omega), h (off + 3) (by omega)]

theorem loadBytes (h : Agree n p p') {off k : Nat} (hoff : off + k ≤ n) :
    Router.loadBytes p off k = Router.loadBytes p' off k := by
  refine List.map_congr_left fun i hi => h (off + i) ?_
  have := List.mem_range.mp hi
  omega

theorem loadMac (h : Agree n p p') {off : Nat} (hoff : off + 6 ≤ n) :
    Router.loadMac p off = Router.loadMac p' off := by
  refine Vector.ext fun i hi => ?_
  simp only [Router.loadMac, Vector.getElem_ofFn]
  exact h (off + i) (by omega)

theorem storeBytes (h : Agree n p p') (off : Nat) (bs : List Byte) :
    Agree n (Router.storeBytes p off bs) (Router.storeBytes p' off bs) := by
  intro i hi
  rw [Router.storeBytes, Router.storeBytes, h i hi]

theorem update (h : Agree n p p') (i : Nat) (b : Byte) :
    Agree n (Function.update p i b) (Function.update p' i b) := by
  intro j hj
  by_cases hij : j = i
  · subst hij
    simp
  · simp [hij, h j hj]

theorem decrementTtl (h : Agree n p p') (hn : 34 ≤ n) :
    Agree n (Router.decrementTtl p) (Router.decrementTtl p') := by
  have httl : ipTtl p = ipTtl p' := h 22 (by omega)
  have hupd := h.update 22 (ipTtl p - 1)
  have hsum : calculateChecksum (Function.update p 22 (ipTtl p - 1))
      = calculateChecksum (Function.update p' 22 (ipTtl p - 1)) := by
    rw [calculateChecksum_eq, calculateChecksum_eq, ipCheck, hupd.load16 (by omega)]
    rfl
  simp only [Router.decrementTtl, store16, ← httl, hsum]
  exact hupd.storeBytes 24 _

end Agree

theorem readOver_apply (m : Mem) (a : Arrival) (i : Nat) : readOver m a i =
    if i < (a.2.take maxLen).length then (a.2.take maxLen).getD i 0 else m i :=
  getPacket_apply m a.1 a.2 i

theorem agree_readOver (m m' : Mem) (a : Arrival) :
    Agree (a.2.take maxLen).length (readOver m a) (readOver m' a) := by
  intro i hi
  rw [readOver_apply, readOver_apply, if_pos hi, if_pos hi]

/-! ## Equal bytes, equal turns -/

section Congr

variable {n : Nat} {p p' : Mem} {i : Fin routerNumInterfaces}

theorem parseArp_congr (h : Agree n p p') (hn : 14 ≤ n) : parseArp p = parseArp p' := by
  rw [parseArp, parseArp, etherType, etherType, h.load16 hn]

theorem isEchoRequest_congr (h : Agree n p p') (hn : 42 ≤ n) :
    IsEchoRequest env i p ↔ IsEchoRequest env i p' := by
  have htype : etherType p = etherType p' := h.load16 (by omega)
  have hproto : ipProtocol p = ipProtocol p' := h 23 (by omega)
  have hicmp : icmpType p = icmpType p' := h 34 (by omega)
  have hdaddr : ipDaddr p = ipDaddr p' := h.load32 (by omega)
  rw [IsEchoRequest, IsEchoRequest, parseIcmp, parseIcmp, htype, hproto, hicmp, hdaddr]

theorem isArpRequest_congr (h : Agree n p p') (hn : 42 ≤ n) :
    IsArpRequest env i p ↔ IsArpRequest env i p' := by
  have hop : arpOp p = arpOp p' := h.load16 (by omega)
  have htpa : arpTpa p = arpTpa p' := h.load32 (by omega)
  rw [IsArpRequest, IsArpRequest, parseArp_congr h (by omega), hop, htpa]

theorem isArpReply_congr (h : Agree n p p') (hn : 22 ≤ n) : IsArpReply p ↔ IsArpReply p' := by
  have hop : arpOp p = arpOp p' := h.load16 (by omega)
  rw [IsArpReply, IsArpReply, parseArp_congr h (by omega), hop]

theorem echoReply_congr (h : Agree n p p') (hn : 42 ≤ n) : echoReply i p = echoReply i p' := by
  have hsaddr : ipSaddr p = ipSaddr p' := h.load32 (by omega)
  have hdaddr : ipDaddr p = ipDaddr p' := h.load32 (by omega)
  have hdhost : etherDhost p = etherDhost p' := h.loadMac (by omega)
  have hshost : etherShost p = etherShost p' := h.loadMac (by omega)
  have hid : icmpId p = icmpId p' := h.load16 (by omega)
  have hseq : icmpSequence p = icmpSequence p' := h.load16 (by omega)
  rw [echoReply, echoReply, hsaddr, hdaddr, hdhost, hshost, hid, hseq]

theorem arpReply_congr (h : Agree n p p') (hn : 42 ≤ n) : arpReply env i p = arpReply env i p' := by
  have hspa : arpSpa p = arpSpa p' := h.load32 (by omega)
  have htpa : arpTpa p = arpTpa p' := h.load32 (by omega)
  have hsha : arpSha p = arpSha p' := h.loadMac (by omega)
  rw [arpReply, arpReply, hspa, htpa, hsha]

theorem icmpError_congr (h : Agree n p p') (hn : 34 ≤ n) (type : Byte) :
    icmpError type i p = icmpError type i p' := by
  have hsaddr : ipSaddr p = ipSaddr p' := h.load32 (by omega)
  have hdaddr : ipDaddr p = ipDaddr p' := h.load32 (by omega)
  have hdhost : etherDhost p = etherDhost p' := h.loadMac (by omega)
  have hshost : etherShost p = etherShost p' := h.loadMac (by omega)
  rw [icmpError, icmpError, hsaddr, hdaddr, hdhost, hshost]

theorem bytes_congr {len : Nat} (h : Agree len p p') :
    Packet.bytes ⟨len, p, i⟩ = Packet.bytes ⟨len, p', i⟩ := h.loadBytes (Nat.zero_add len).le

theorem outgoing_congr {len : Nat} (h : Agree len p p') (hn : 34 ≤ len)
    (out : Fin routerNumInterfaces) :
    Agree len (outgoing env out ⟨len, p, i⟩).payload (outgoing env out ⟨len, p', i⟩).payload :=
  (h.decrementTtl hn).storeBytes 6 _

theorem forward_congr {len : Nat} (h : Agree len p p') (hn : 34 ≤ len)
    (arptable : List ArptableEntry) (q : List Packet) (b b' : Mem) :
    (forward env rt ⟨arptable, q, b⟩ ⟨len, p, i⟩).map outcomeOf
      = (forward env rt ⟨arptable, q, b'⟩ ⟨len, p', i⟩).map outcomeOf := by
  have httl : ipTtl p = ipTtl p' := h 22 (by omega)
  have hhdr : ipHeader p = ipHeader p' := h.loadBytes (by omega)
  have hdaddr : ipDaddr p = ipDaddr p' := h.load32 (by omega)
  by_cases hle : (ipTtl p).toNat ≤ 1
  · have hle' : (ipTtl p').toNat ≤ 1 := httl ▸ hle
    rw [forward_expired (m := ⟨len, p, i⟩) hle, forward_expired (m := ⟨len, p', i⟩) hle',
      icmpError_congr h hn]
    rfl
  have hgt : 1 < (ipTtl p).toNat := by omega
  have hgt' : 1 < (ipTtl p').toNat := httl ▸ hgt
  by_cases hacc : Accepted p
  · have hacc' : Accepted p' := by rwa [Accepted, ← hhdr]
    rw [forward_accepted (m := ⟨len, p, i⟩) hgt hacc,
      forward_accepted (m := ⟨len, p', i⟩) hgt' hacc', ← hdaddr]
    cases bestRoute rt (ipDaddr p) with
    | none =>
      have herror := icmpError_congr (i := i) (h.decrementTtl hn) hn icmpDestUnreach
      simp only [herror, Except.map, outcomeOf]
    | some route =>
      cases hout : interfaceIndex route.interface with
      | error fault => simp only [hout, Except.bind, Except.map]
      | ok out =>
        have hagree : Agree len (outgoing env out ⟨len, p, i⟩).payload
            (outgoing env out ⟨len, p', i⟩).payload := outgoing_congr h hn out
        have hqueued : (outgoing env out ⟨len, p, i⟩).bytes = (outgoing env out ⟨len, p', i⟩).bytes :=
          bytes_congr hagree
        simp only [hout, Except.bind, Except.map]
        cases hmac : getMac arptable route.nextHop with
        | none =>
          simp only [outcomeOf, List.map_append, List.map_cons, List.map_nil, hqueued]
          rfl
        | some entry =>
          have hsent : ((outgoing env out ⟨len, p, i⟩).addressedTo entry.mac).bytes
              = ((outgoing env out ⟨len, p', i⟩).addressedTo entry.mac).bytes :=
            bytes_congr (hagree.storeBytes 0 _)
          simp only [outcomeOf, sendPacket, hsent]
  · have hacc' : ¬ Accepted p' := by rwa [Accepted, ← hhdr]
    rw [forward_corrupt (m := ⟨len, p, i⟩) hgt hacc, forward_corrupt (m := ⟨len, p', i⟩) hgt' hacc']
    rfl

end Congr

theorem arpReplyReceived_congr (arptable : List ArptableEntry) (q : List Packet) (b b' : Mem)
    (spa : Word32) (sha : Mac) :
    (arpReplyReceived rt ⟨arptable, q, b⟩ spa sha).map outcomeOf
      = (arpReplyReceived rt ⟨arptable, q, b'⟩ spa sha).map outcomeOf := by
  cases q with
  | nil => rfl
  | cons front behind =>
    simp only [arpReplyReceived, List.isEmpty_cons, queueTop, getBestRoute_eq, ok_bind]
    cases hroute : bestRoute rt (ipDaddr front.payload) with
    | none => rfl
    | some route =>
      simp only [Bool.false_eq_true, if_false]
      cases drainLoop rt (addToArptable arptable spa sha) front.payload true route
        (getMac (addToArptable arptable spa sha) route.nextHop) (front :: behind) with
      | error fault => rfl
      | ok r => rfl

theorem outcome_of_arpReply {s : State} {a : Arrival} (h : IsArpReply (buffer s a)) :
    outcome env rt s a = (arpReplyReceived rt ⟨s.arptable, s.q, buffer s a⟩ (arpSpa (buffer s a))
      (arpSha (buffer s a))).map outcomeOf := by
  rw [outcome, mainStep_arpReply rfl h]

theorem outcome_of_isOther {s : State} {a : Arrival} (h : IsOther env a.1 (buffer s a)) :
    outcome env rt s a
      = (forward env rt ⟨s.arptable, s.q, buffer s a⟩ (received s a)).map outcomeOf := by
  rw [outcome, mainStep_of_forwarded rfl h.echo h.request h.reply]

section TwoRuns

variable {a : Arrival} {arptable : List ArptableEntry} {q : List Packet} {m m' : Mem}

theorem outcome_eq_of_turns {act act' : Action} {s s' t t' : State} (h : Turn env rt s a act t)
    (h' : Turn env rt s' a act' t') (htable : t.arptable = t'.arptable) (hq : t.q = t'.q)
    (hsent : act.transmissions = act'.transmissions) : outcome env rt s a = outcome env rt s' a := by
  rw [outcome, outcome, h.mainStep_eq, h'.mainStep_eq]
  simp only [Except.map, outcomeOf, htable, hq, hsent]

theorem outcome_eq_of_originate {t t' : Transmission}
    (h : Turn env rt ⟨arptable, q, m⟩ a (.originate t) ⟨arptable, q, readOver m a⟩)
    (h' : Turn env rt ⟨arptable, q, m'⟩ a (.originate t') ⟨arptable, q, readOver m' a⟩)
    (hsame : t = t') : outcome env rt ⟨arptable, q, m⟩ a = outcome env rt ⟨arptable, q, m'⟩ a :=
  outcome_eq_of_turns h h' rfl rfl (by rw [hsame])

theorem outcome_eq_of_arpReply {n : Nat} (h : Agree n (readOver m a) (readOver m' a)) (hn : 32 ≤ n)
    (hreply : IsArpReply (readOver m a)) :
    outcome env rt ⟨arptable, q, m⟩ a = outcome env rt ⟨arptable, q, m'⟩ a := by
  have hreply' : IsArpReply (readOver m' a) := (isArpReply_congr h (by omega)).mp hreply
  have hspa : arpSpa (readOver m a) = arpSpa (readOver m' a) := h.load32 (by omega)
  have hsha : arpSha (readOver m a) = arpSha (readOver m' a) := h.loadMac (by omega)
  rw [outcome_of_arpReply (s := ⟨arptable, q, m⟩) hreply,
    outcome_of_arpReply (s := ⟨arptable, q, m'⟩) hreply', hspa, hsha]
  exact arpReplyReceived_congr arptable q _ _ _ _

theorem outcome_eq_of_isOther
    (h : Agree (a.2.take maxLen).length (readOver m a) (readOver m' a))
    (hn : 34 ≤ (a.2.take maxLen).length) (hother : IsOther env a.1 (readOver m a))
    (hother' : IsOther env a.1 (readOver m' a)) :
    outcome env rt ⟨arptable, q, m⟩ a = outcome env rt ⟨arptable, q, m'⟩ a := by
  rw [outcome_of_isOther (s := ⟨arptable, q, m⟩) hother,
    outcome_of_isOther (s := ⟨arptable, q, m'⟩) hother']
  exact forward_congr h hn arptable q _ _

/-- A frame with all the bytes that are looked at is judged on these. -/
theorem judgedAlone_of_complete (h : Complete env a) : JudgedAlone env a := by
  intro rt arptable q m m'
  have hagree := agree_readOver m m' a
  have htake {k : Nat} (hk : k ≤ maxLen) (hlen : k ≤ a.2.length) :
      k ≤ (a.2.take maxLen).length := by
    rw [List.length_take]
    omega
  rcases h with hlen | ⟨hlen, hreply⟩ | ⟨hother, hlen | hdrop⟩
  · have hn := htake (by decide) hlen
    by_cases hecho : IsEchoRequest env a.1 (readOver m a)
    · have hecho' := (isEchoRequest_congr hagree hn).mp hecho
      exact outcome_eq_of_originate (.echoed hecho) (.echoed hecho') (echoReply_congr hagree hn)
    by_cases hreq : IsArpRequest env a.1 (readOver m a)
    · have hreq' := (isArpRequest_congr hagree hn).mp hreq
      exact outcome_eq_of_originate (.answered hreq) (.answered hreq') (arpReply_congr hagree hn)
    by_cases hreply : IsArpReply (readOver m a)
    · exact outcome_eq_of_arpReply hagree (by omega) hreply
    have hother' : IsOther env a.1 (readOver m' a) :=
      ⟨fun h => hecho ((isEchoRequest_congr hagree hn).mpr h),
        fun h => hreq ((isArpRequest_congr hagree hn).mpr h),
        fun h => hreply ((isArpReply_congr hagree (by omega)).mpr h)⟩
    exact outcome_eq_of_isOther hagree (by omega) ⟨hecho, hreq, hreply⟩ hother'
  · have hn := htake (by decide) hlen
    have hreply' : IsArpReply (readOver m a) :=
      (isArpReply_congr (agree_readOver _ m a) (by omega)).mp hreply
    exact outcome_eq_of_arpReply hagree hn hreply'
  · exact outcome_eq_of_isOther hagree (htake (by decide) hlen) (hother m) (hother m')
  · exact outcome_eq_of_turns (.corrupt (hother m) (hdrop m).1 (hdrop m).2)
      (.corrupt (hother m') (hdrop m').1 (hdrop m').2) rfl rfl rfl

end TwoRuns

/-! ## Stale bytes that tell -/

section Stale

variable {a : Arrival} {m : Mem}

def touched (m : Mem) (k : Nat) : Mem := Function.update m k (m k + 1)

theorem agree_touched (m : Mem) (k : Nat) (a : Arrival) :
    Agree k (readOver m a) (readOver (touched m k) a) := by
  intro i hi
  have hne : i ≠ k := by omega
  rw [readOver_apply, readOver_apply, touched, Function.update_of_ne hne]

theorem touched_ne {k : Nat} (h : a.2.length ≤ k) :
    readOver m a k ≠ readOver (touched m k) a k := by
  have hstale : ¬ k < (a.2.take maxLen).length := by
    rw [List.length_take]
    omega
  rw [readOver_apply, readOver_apply, if_neg hstale, if_neg hstale, touched, Function.update_self]
  bv_omega

theorem load32_ne {p p' : Mem} {off : Nat} (h : p (off + 3) ≠ p' (off + 3)) :
    load32 p off ≠ load32 p' off := by
  intro heq
  have hbyte := congrArg (byteOf · 3) heq
  simp only [load32, byteOf_le32_three] at hbyte
  exact h hbyte

@[simp] theorem bestRoute_initRtable (d : Word32) : bestRoute initRtable d = none := by
  rw [bestRoute_eq_none_iff]
  intro i
  have hempty : (initRtable i).entries.length = 0 := rfl
  simp [hit, hempty, Bisection.search_of_ge]

abbrev lone (env : Interfaces) (m : Mem) (a : Arrival) : Except Fault Outcome :=
  outcome env initRtable (start m) a

theorem lone_of_turn {act : Action} {s' : State} (h : Turn env initRtable (start m) a act s') :
    lone env m a = .ok (outcomeOf (s', act.transmissions)) := by
  rw [lone, outcome, h.mainStep_eq]
  rfl

theorem JudgedAlone.lone_eq (h : JudgedAlone env a) (m m' : Mem) : lone env m a = lone env m' a :=
  h initRtable [] [] m m'

@[simp] theorem etherTypeOf_icmpError (type : Byte) (i : Fin routerNumInterfaces) (p : Mem) :
    etherTypeOf (icmpError type i p).bytes = htons etherTypeIp := by
  simp only [icmpError, sendIcmpError, sendIcmp, List.append_assoc]
  exact etherTypeOf_append _ _

@[simp] theorem etherTypeOf_arpReply (i : Fin routerNumInterfaces) (p : Mem) :
    etherTypeOf (arpReply env i p).bytes = htons etherTypeArp := by
  simp only [arpReply, sendArp, List.append_assoc]
  exact etherTypeOf_append _ _

theorem wordAt_sendIcmp (daddr saddr : Word32) (sha dha : Mac) (type code : Byte)
    (i : Fin routerNumInterfaces) (id seq : Word16) :
    wordAt (sendIcmp daddr saddr sha dha type code i id seq).bytes 38
      = le32 (byteOf id 0) (byteOf id 1) (byteOf seq 0) (byteOf seq 1) := by
  simp only [sendIcmp, List.append_assoc]
  rw [wordAt_append (EtherHeader.length_bytes _) _ 24]
  rfl

theorem lone_of_isOther (h : IsOther env a.1 (readOver m a)) :
    ∃ sent, lone env m a = .ok ⟨[], [], sent⟩ ∧
      ((Dropped (readOver m a) ∧ sent = []) ∨ ¬ Dropped (readOver m a) ∧ ∃ type p,
        sent = [icmpError type a.1 p] ∧ ipDaddr p = ipDaddr (readOver m a)) := by
  by_cases hle : (ipTtl (readOver m a)).toNat ≤ 1
  · refine ⟨_, lone_of_turn (.expired h hle), .inr ⟨fun hdrop => ?_, _, _, rfl, rfl⟩⟩
    have := hdrop.1
    omega
  have hgt : 1 < (ipTtl (readOver m a)).toNat := by omega
  by_cases hacc : Accepted (readOver m a)
  · exact ⟨_, lone_of_turn (.unreachable h hgt hacc (bestRoute_initRtable _)),
      .inr ⟨fun hdrop => hdrop.2 hacc, _, _, rfl, ipDaddr_decrementTtl _⟩⟩
  · exact ⟨_, lone_of_turn (.corrupt h hgt hacc), .inl ⟨⟨hgt, hacc⟩, rfl⟩⟩

theorem not_judgedAlone_of_arpReply (hlen : a.2.length < 32) (h : IsArpReply (readOver m a)) :
    ¬ JudgedAlone env a := by
  intro hjudged
  have hagree := agree_touched m 31 a
  have h' : IsArpReply (readOver (touched m 31) a) := (isArpReply_congr hagree (by omega)).mp h
  have heq := hjudged.lone_eq m (touched m 31)
  rw [lone_of_turn (.learned h (by simp [start])),
    lone_of_turn (m := touched m 31) (.learned h' (by simp [start]))] at heq
  have htable := congrArg Outcome.arptable (Except.ok.inj heq)
  simp only [outcomeOf, learnt, addToArptable, start, List.nil_append, List.cons.injEq,
    ArptableEntry.mk.injEq] at htable
  exact load32_ne (touched_ne (by omega)) htable.1.1

theorem not_judgedAlone_of_arpRequest (hlen : a.2.length < 42)
    (h : IsArpRequest env a.1 (readOver m a)) : ¬ JudgedAlone env a := by
  intro hjudged
  have hagree := agree_touched m 41 a
  have harp := parseArp_congr hagree (by omega)
  have hop : arpOp (readOver m a) = arpOp (readOver (touched m 41) a) := hagree.load16 (by omega)
  have htpa : arpTpa (readOver m a) ≠ arpTpa (readOver (touched m 41) a) :=
    load32_ne (touched_ne (by omega))
  have hother : IsOther env a.1 (readOver (touched m 41) a) := by
    refine ⟨fun hecho => hecho.not_parseArp (harp ▸ h.1), fun hreq => htpa (h.2.2.trans hreq.2.2.symm),
      fun hreply => ?_⟩
    have hreq := h.2.1
    rw [hop, hreply.2] at hreq
    exact absurd hreq (by decide)
  obtain ⟨sent, hsent, hcases⟩ := lone_of_isOther hother
  have heq := hjudged.lone_eq m (touched m 41)
  rw [lone_of_turn (.answered h), hsent] at heq
  have hanswer : [arpReply env a.1 (readOver m a)] = sent :=
    congrArg Outcome.sent (Except.ok.inj heq)
  rcases hcases with ⟨-, rfl⟩ | ⟨-, type, p, rfl, -⟩
  · cases hanswer
  · have htype := congrArg (fun t => etherTypeOf t.bytes) (List.singleton_inj.mp hanswer)
    simp only [etherTypeOf_arpReply, etherTypeOf_icmpError] at htype
    exact absurd htype (by decide)

theorem not_judgedAlone_of_echoRequest (hlen : a.2.length < 42)
    (h : IsEchoRequest env a.1 (readOver m a)) : ¬ JudgedAlone env a := by
  intro hjudged
  have hagree := agree_touched m 41 a
  have htype : etherType (readOver m a) = etherType (readOver (touched m 41) a) :=
    hagree.load16 (by omega)
  have hproto : ipProtocol (readOver m a) = ipProtocol (readOver (touched m 41) a) :=
    hagree 23 (by omega)
  have hicmp : icmpType (readOver m a) = icmpType (readOver (touched m 41) a) :=
    hagree 34 (by omega)
  have hdaddr : ipDaddr (readOver m a) = ipDaddr (readOver (touched m 41) a) :=
    hagree.load32 (by omega)
  have h' : IsEchoRequest env a.1 (readOver (touched m 41) a) := by
    rwa [IsEchoRequest, parseIcmp, htype, hproto, hicmp, hdaddr] at h
  have heq := hjudged.lone_eq m (touched m 41)
  rw [lone_of_turn (.echoed h), lone_of_turn (m := touched m 41) (.echoed h')] at heq
  have hanswer : [echoReply a.1 (readOver m a)] = [echoReply a.1 (readOver (touched m 41) a)] :=
    congrArg Outcome.sent (Except.ok.inj heq)
  have hword := congrArg (fun t => byteOf (wordAt t.bytes 38) 3) (List.singleton_inj.mp hanswer)
  simp only [echoReply, wordAt_sendIcmp, byteOf_le32_three, icmpSequence, load16,
    byteOf_le16_one] at hword
  exact touched_ne (by omega) hword

theorem not_judgedAlone_of_isOther (hlen : a.2.length < 34)
    (h : ∀ m, IsOther env a.1 (readOver m a)) (hdrop : ¬ Dropped (readOver m a)) :
    ¬ JudgedAlone env a := by
  intro hjudged
  have hdaddr : ipDaddr (readOver m a) ≠ ipDaddr (readOver (touched m 33) a) :=
    load32_ne (touched_ne (by omega))
  obtain ⟨sent, hsent, hcases⟩ := lone_of_isOther (h m)
  obtain ⟨sent', hsent', hcases'⟩ := lone_of_isOther (h (touched m 33))
  have heq := hjudged.lone_eq m (touched m 33)
  rw [hsent, hsent'] at heq
  have hsame : sent = sent' := congrArg Outcome.sent (Except.ok.inj heq)
  rcases hcases with ⟨hdrop', -⟩ | ⟨-, type, p, rfl, hp⟩
  · exact hdrop hdrop'
  rcases hcases' with ⟨-, rfl⟩ | ⟨-, type', p', rfl, hp'⟩
  · cases hsame
  · have hsender := congrArg (fun t => senderAddress t.bytes) (List.singleton_inj.mp hsame)
    simp only [senderAddress_icmpError, hp, hp'] at hsender
    exact hdaddr hsender

end Stale

/-- A frame is judged on its own bytes exactly when it has all that the router looks at. -/
theorem judgedAlone_iff (env : Interfaces) (a : Arrival) : JudgedAlone env a ↔ Complete env a := by
  refine ⟨fun hjudged => ?_, judgedAlone_of_complete⟩
  by_cases hlen : 42 ≤ a.2.length
  · exact .inl hlen
  by_cases hother : ∀ m, IsOther env a.1 (readOver m a)
  · refine .inr (.inr ⟨hother, ?_⟩)
    by_contra hnot
    obtain ⟨hshort, hdrop⟩ := not_or.mp hnot
    obtain ⟨m, hm⟩ := not_forall.mp hdrop
    exact not_judgedAlone_of_isOther (by omega) hother hm hjudged
  obtain ⟨m, hm⟩ := not_forall.mp hother
  by_cases hecho : IsEchoRequest env a.1 (readOver m a)
  · exact absurd hjudged (not_judgedAlone_of_echoRequest (by omega) hecho)
  by_cases hreq : IsArpRequest env a.1 (readOver m a)
  · exact absurd hjudged (not_judgedAlone_of_arpRequest (by omega) hreq)
  by_cases hreply : IsArpReply (readOver m a)
  · by_cases hlong : 32 ≤ a.2.length
    · have hread : 22 ≤ (a.2.take maxLen).length := by
        rw [List.length_take, maxLen]
        omega
      exact .inr (.inl ⟨hlong, (isArpReply_congr (agree_readOver m _ a) hread).mp hreply⟩)
    · exact absurd hjudged (not_judgedAlone_of_arpReply (by omega) hreply)
  exact absurd ⟨hecho, hreq, hreply⟩ hm

def residue (n : Byte) : Mem := buffer (start fun _ => 0) (0, replyFrom n)

@[simp] theorem readOver_nil (m : Mem) (i : Fin routerNumInterfaces) : readOver m (i, []) = m := by
  funext j
  rw [readOver_apply, List.take_nil]
  rfl

theorem outcome_nil {m : Mem} {spa : Word32} {sha : Mac} (hreply : IsArpReply m)
    (hspa : arpSpa m = spa) (hsha : arpSha m = sha) :
    outcome env rt (start m) (0, []) = .ok ⟨[⟨spa, sha⟩], [], []⟩ := by
  have hbuffer : buffer (start m) (0, []) = m := readOver_nil m 0
  have hturn : Turn env rt (start m) (0, []) .silent _ :=
    .learned (by rwa [hbuffer]) (by simp [start])
  rw [outcome, hturn.mainStep_eq, learnt, hbuffer, hspa, hsha]
  rfl

theorem outcome_residue (n : Byte) :
    outcome env rt (start (residue n)) (0, []) = .ok ⟨[⟨le32 10 0 0 9, exampleMac n⟩], [], []⟩ :=
  outcome_nil (isArpReply_replyFrom _ n) (arpSpa_replyFrom _ n) (arpSha_replyFrom _ n)

/-- An empty frame is taken for the ARP reply that is still in the buffer. -/
theorem empty_frame_judged_on_residue :
    outcome exampleInterfaces defaultRtable (start (residue 9)) (0, [])
      ≠ outcome exampleInterfaces defaultRtable (start (residue 8)) (0, []) := by
  rw [outcome_residue, outcome_residue]
  intro heq
  have htable := congrArg Outcome.arptable (Except.ok.inj heq)
  exact absurd htable (by decide)

end PCom.Router
