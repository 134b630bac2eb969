import Mathlib.Data.List.Forall2
import PCom.Router.HeldPackets

/-! What becomes of a packet: everything that enters the queue leaves it in order, and what leaves
is what was received. -/

namespace PCom.Router

open Lib

variable {env : Interfaces} {rt : Rtable}

/-- A turn of the model together with the action it amounts to. -/
def Taken (env : Interfaces) (rt : Rtable) (s : State) (e : Arrival × Action) (s' : State) : Prop :=
  mainStep env rt s e.1.1 e.1.2 = .ok (s', e.2.transmissions) ∧ Turn env rt s e.1 e.2 s'

abbrev History := List (State × (Arrival × Action))

theorem exists_taken {m : Mem} {log : List (State × Arrival)} {s : State}
    (h : Run (Step env rt) (start m) log s) : ∃ hist : History,
      Run (Taken env rt) (start m) hist s ∧ hist.map (fun x => (x.1, x.2.1)) = log := by
  induction h with
  | nil => exact ⟨[], .nil, rfl⟩
  | @snoc log s a s' h hs ih =>
    obtain ⟨hist, hrun, rfl⟩ := ih
    obtain ⟨sent, hstep⟩ := hs
    obtain ⟨act, hturn, rfl⟩ := exists_turn (Reachable.queueRouted ⟨m, _, h⟩) hstep
    exact ⟨hist ++ [(s, a, act)], .snoc hrun ⟨hstep, hturn⟩, by simp⟩

namespace History

/-- The frame received in step `n`, as far as the router reads it. -/
def frame (hist : History) (n : Nat) : Option (List Byte) :=
  hist[n]?.map fun x => x.2.1.2.take maxLen

/-- The packets put into the queue, each with the number of its frame. -/
def enqueued (hist : History) : List (Nat × Packet) :=
  hist.zipIdx.flatMap fun x => x.1.2.2.enqueued.map (x.2, ·)

def released (hist : History) : List Transmission := hist.flatMap fun x => x.2.2.released

def direct (hist : History) : List (Nat × Transmission) :=
  hist.zipIdx.flatMap fun x => x.1.2.2.direct.map (x.2, ·)

/-- All that was sent on.  What the queue released first was put into it first. -/
def forwarded (hist : History) : List (Nat × Transmission) :=
  hist.direct ++ (hist.enqueued.map Prod.fst).zip hist.released

end History

/-- The sent bytes are the received ones, apart from the Ethernet addresses, the TTL, which is one
less and not zero, and the IP checksum. -/
structure CopyOf (received sent : List Byte) : Prop where
  length : sent.length = received.length
  other : ∀ i, 12 ≤ i → i ≠ 22 → i ≠ 24 → i ≠ 25 → sent[i]? = received[i]?
  ttl : ∃ old new : Byte, received[22]? = some old ∧ sent[22]? = some new ∧
    new.toNat + 1 = old.toNat ∧ 1 ≤ new.toNat

def behindDhost (bytes : List Byte) : List Byte := bytes.drop 6

structure Conserved (hist : History) (s : State) : Prop where
  queue : hist.released.map (fun t => behindDhost t.bytes)
      ++ s.q.map (fun p => behindDhost p.bytes)
    = hist.enqueued.map (fun x => behindDhost x.2.bytes)
  once : (hist.forwarded.map Prod.fst).Nodup
  copy : ∀ x ∈ hist.forwarded, ∃ frame ∈ hist.frame x.1, CopyOf frame x.2.bytes

theorem Packet.getElem?_bytes (m : Packet) (i : Nat) :
    m.bytes[i]? = if i < m.len then some (m.payload i) else none := by
  rw [Packet.bytes, loadBytes, List.getElem?_map]
  by_cases h : i < m.len
  · simp [h]
  · simp [h]

@[simp] theorem bytes_received (s : State) (a : Arrival) : (received s a).bytes = a.2.take maxLen := by
  refine List.ext_getElem? fun i => ?_
  rw [Packet.getElem?_bytes]
  by_cases h : i < (a.2.take maxLen).length
  · have hcopied : 0 ≤ i ∧ i < 0 + (a.2.take maxLen).length := by omega
    simp only [getPacket, storeBytes]
    rw [if_pos h, if_pos hcopied, Nat.sub_zero, List.getD_eq_getElem?_getD,
      List.getElem?_eq_getElem h]
    rfl
  · simp only [getPacket]
    rw [if_neg h, List.getElem?_eq_none (by omega)]

theorem setEtherDhost_of_le (p : Mem) (mac : Mac) {i : Nat} (h : 6 ≤ i) :
    setEtherDhost p mac i = p i := storeBytes_of_le p (by simpa using h)

theorem setEtherShost_of_le (p : Mem) (mac : Mac) {i : Nat} (h : 12 ≤ i) :
    setEtherShost p mac i = p i := storeBytes_of_le p (by simpa using h)

@[simp] theorem behindDhost_addressedTo (p : Packet) (mac : Mac) :
    behindDhost (p.addressedTo mac).bytes = behindDhost p.bytes := by
  refine List.ext_getElem? fun i => ?_
  simp only [behindDhost, List.getElem?_drop, Packet.getElem?_bytes, Packet.addressedTo]
  rw [setEtherDhost_of_le _ _ (by omega)]

theorem copyOf_outgoing {m : Packet} (hlen : 34 ≤ m.len) (httl : 1 < (ipTtl m.payload).toNat)
    (out : Fin routerNumInterfaces) : CopyOf m.bytes (outgoing env out m).bytes where
  length := by simp [Packet.bytes, loadBytes, outgoing]
  other i h12 h22 h24 h25 := by
    simp only [Packet.getElem?_bytes, outgoing]
    rw [setEtherShost_of_le _ _ h12, decrementTtl_of_ne h22 h24 h25]
  ttl := by
    have hnew : (outgoing env out m).payload 22 = ipTtl m.payload - 1 := by
      simp only [outgoing]
      rw [setEtherShost_of_le _ _ (by omega)]
      exact ipTtl_decrementTtl m.payload
    refine ⟨ipTtl m.payload, ipTtl m.payload - 1, ?_, ?_, ?_, ?_⟩
    · rw [Packet.getElem?_bytes, if_pos (by omega)]
      rfl
    · rw [Packet.getElem?_bytes, if_pos (by simp only [outgoing]; omega), hnew]
    · bv_omega
    · bv_omega

theorem CopyOf.of_behindDhost {received sent sent' : List Byte} (h : CopyOf received sent)
    (heq : behindDhost sent' = behindDhost sent) : CopyOf received sent' := by
  have hget {i : Nat} (hi : 6 ≤ i) : sent'[i]? = sent[i]? := by
    obtain ⟨j, rfl⟩ := Nat.exists_eq_add_of_le hi
    rw [← List.getElem?_drop, ← List.getElem?_drop]
    exact congrArg (·[j]?) heq
  obtain ⟨old, new, hold, hnew, hdec, hpos⟩ := h.ttl
  have hlen := congrArg List.length heq
  simp only [behindDhost, List.length_drop] at hlen
  have hshort : 22 < sent.length := (List.getElem?_eq_some_iff.mp hnew).1
  refine ⟨?_, ?_, old, new, hold, ?_, hdec, hpos⟩
  · rw [← h.length]
    omega
  · intro i h12 h22 h24 h25
    rw [hget (by omega), h.other i h12 h22 h24 h25]
  · rw [hget (by omega), hnew]

theorem Turn.copyOf {s s' : State} {a : Arrival} {act : Action} (h : Turn env rt s a act s')
    (hlen : 34 ≤ a.2.length) :
    (∀ t ∈ act.direct, CopyOf (a.2.take maxLen) t.bytes) ∧
      ∀ p ∈ act.enqueued, CopyOf (a.2.take maxLen) p.bytes := by
  have hlen' : 34 ≤ (received s a).len := by
    simp only [getPacket, List.length_take, maxLen]
    omega
  rw [← bytes_received s a]
  cases h with
  | echoed | answered | learned | released | expired | corrupt | unreachable =>
    exact ⟨List.forall_mem_nil _, List.forall_mem_nil _⟩
  | @sent _ out entry _ httl =>
    refine ⟨?_, List.forall_mem_nil _⟩
    intro t ht
    obtain rfl := List.mem_singleton.mp ht
    exact (copyOf_outgoing hlen' httl out).of_behindDhost (behindDhost_addressedTo _ entry.mac)
  | @queued _ out _ httl =>
    refine ⟨List.forall_mem_nil _, ?_⟩
    intro p hp
    obtain rfl := List.mem_singleton.mp hp
    exact copyOf_outgoing hlen' httl out

namespace History

variable (hist : History) (s : State) (a : Arrival) (act : Action)

@[simp] theorem released_snoc : released (hist ++ [(s, a, act)]) = hist.released ++ act.released := by
  simp [released]

@[simp] theorem enqueued_snoc : enqueued (hist ++ [(s, a, act)])
    = hist.enqueued ++ act.enqueued.map (hist.length, ·) := by
  simp [enqueued, List.zipIdx_append]

@[simp] theorem direct_snoc : direct (hist ++ [(s, a, act)])
    = hist.direct ++ act.direct.map (hist.length, ·) := by
  simp [direct, List.zipIdx_append]

@[simp] theorem frame_snoc_self :
    frame (hist ++ [(s, a, act)]) hist.length = some (a.2.take maxLen) := by
  simp [frame]

theorem frame_snoc_of_lt {n : Nat} (h : n < hist.length) :
    frame (hist ++ [(s, a, act)]) n = hist.frame n := by
  rw [frame, frame, List.getElem?_append_left h]

end History

def Balanced (hist : History) (s : State) : Prop :=
  ∃ done waiting, hist.enqueued = done ++ waiting ∧ waiting.map Prod.snd = s.q ∧
    List.Forall₂ (fun x t => behindDhost t.bytes = behindDhost x.2.bytes) done hist.released

theorem Balanced.turn {hist : History} {s s' : State} {a : Arrival} {act : Action}
    (h : Balanced hist s) (hturn : Turn env rt s a act s') :
    Balanced (hist ++ [(s, a, act)]) s' := by
  obtain ⟨done, waiting, henq, hq, hrel⟩ := h
  simp only [Balanced, History.enqueued_snoc, History.released_snoc]
  cases hturn with
  | echoed | answered | learned | expired | corrupt | unreachable | sent =>
    exact ⟨done, waiting, by simpa [Action.enqueued] using henq, hq,
      by simpa [Action.released] using hrel⟩
  | @released front behind _ entry out _ hfront =>
    rw [hfront] at hq
    obtain ⟨x, rest, rfl, rfl, rfl⟩ := List.map_eq_cons_iff.mp hq
    refine ⟨done ++ x :: rest, [], by simpa [Action.enqueued] using henq, rfl, ?_⟩
    refine List.rel_append hrel (.cons (behindDhost_addressedTo x.2 entry.mac) ?_)
    rw [List.forall₂_map_right_iff, List.forall₂_map_right_iff, List.forall₂_same]
    exact fun y _ => rfl
  | @queued _ out =>
    refine ⟨done, waiting ++ [(hist.length, outgoing env out (received s a))], ?_, ?_, ?_⟩
    · simp [Action.enqueued, henq]
    · simp [hq]
    · simpa [Action.released] using hrel

def History.numbers (hist : History) : List Nat :=
  hist.direct.map Prod.fst ++ hist.enqueued.map Prod.fst

theorem History.numbers_snoc (hist : History) (s : State) (a : Arrival) (act : Action) :
    numbers (hist ++ [(s, a, act)]) = hist.numbers ∨
      (numbers (hist ++ [(s, a, act)])).Perm (hist.length :: hist.numbers) := by
  simp only [numbers, direct_snoc, enqueued_snoc]
  cases act with
  | silent | originate | release => exact .inl (by simp [Action.direct, Action.enqueued])
  | send p out =>
    refine .inr ?_
    simp only [Action.direct, Action.enqueued, List.map_cons, List.map_nil, List.map_append,
      List.append_nil, List.append_assoc, List.singleton_append]
    exact List.perm_middle
  | enqueue p request =>
    refine .inr ?_
    simp only [Action.direct, Action.enqueued, List.map_cons, List.map_nil, List.map_append,
      List.append_nil, ← List.append_assoc]
    exact List.perm_append_singleton _ _

def Numbered (hist : History) : Prop := hist.numbers.Nodup ∧ ∀ n ∈ hist.numbers, n < hist.length

theorem Numbered.snoc {hist : History} (h : Numbered hist) (s : State) (a : Arrival)
    (act : Action) : Numbered (hist ++ [(s, a, act)]) := by
  obtain ⟨hnodup, hlt⟩ := h
  have hlen : (hist ++ [(s, a, act)]).length = hist.length + 1 := by simp
  rw [Numbered, hlen]
  rcases History.numbers_snoc hist s a act with hsame | hnew
  · rw [hsame]
    exact ⟨hnodup, fun n hn => Nat.lt_succ_of_lt (hlt n hn)⟩
  · rw [hnew.nodup_iff, List.nodup_cons]
    refine ⟨⟨fun hmem => absurd (hlt _ hmem) (Nat.lt_irrefl _), hnodup⟩, fun n hn => ?_⟩
    rcases List.mem_cons.mp (hnew.mem_iff.mp hn) with rfl | hold
    · omega
    · have := hlt n hold
      omega

def Copied (hist : History) : Prop :=
  (∀ x ∈ hist.direct, ∃ frame ∈ hist.frame x.1, CopyOf frame x.2.bytes) ∧
    ∀ x ∈ hist.enqueued, ∃ frame ∈ hist.frame x.1, CopyOf frame x.2.bytes

theorem Copied.turn {hist : History} {s s' : State} {a : Arrival} {act : Action}
    (h : Copied hist) (hnum : Numbered hist) (hturn : Turn env rt s a act s')
    (hlen : 34 ≤ a.2.length) : Copied (hist ++ [(s, a, act)]) := by
  obtain ⟨hdirect, hqueued⟩ := hturn.copyOf hlen
  have hold {n : Nat} (hn : n ∈ hist.numbers) :
      History.frame (hist ++ [(s, a, act)]) n = hist.frame n :=
    History.frame_snoc_of_lt hist s a act (hnum.2 n hn)
  have hself := Option.mem_def.mpr (History.frame_snoc_self hist s a act)
  constructor
  · intro x hx
    rw [History.direct_snoc, List.mem_append, List.mem_map] at hx
    rcases hx with hx | ⟨t, ht, rfl⟩
    · rw [hold (List.mem_append_left _ (List.mem_map_of_mem hx))]
      exact h.1 x hx
    · exact ⟨_, hself, hdirect t ht⟩
  · intro x hx
    rw [History.enqueued_snoc, List.mem_append, List.mem_map] at hx
    rcases hx with hx | ⟨p, hp, rfl⟩
    · rw [hold (List.mem_append_right _ (List.mem_map_of_mem hx))]
      exact h.2 x hx
    · exact ⟨_, hself, hqueued p hp⟩

theorem conserved_of_taken {m : Mem} {hist : History} {s : State}
    (h : Run (Taken env rt) (start m) hist s) (hlen : ∀ x ∈ hist, 34 ≤ x.2.1.2.length) :
    Conserved hist s := by
  have hinv : Balanced hist s ∧ Numbered hist ∧ Copied hist := by
    induction h with
    | nil =>
      refine ⟨⟨[], [], rfl, rfl, .nil⟩, ⟨List.nodup_nil, ?_⟩, ?_, ?_⟩
      all_goals exact List.forall_mem_nil _
    | @snoc hist s e s' h hs ih =>
      obtain ⟨a, act⟩ := e
      have hlast : 34 ≤ a.2.length := hlen (s, a, act) (by simp)
      obtain ⟨hbal, hnum, hcopy⟩ := ih fun x hx => hlen x (List.mem_append_left _ hx)
      exact ⟨hbal.turn hs.2, hnum.snoc s a act, hcopy.turn hnum hs.2 hlast⟩
  obtain ⟨⟨done, waiting, henq, hq, hrel⟩, ⟨hnodup, -⟩, hdirect, hqueued⟩ := hinv
  have hcount := hrel.length_eq
  have hzip : (hist.enqueued.map Prod.fst).zip hist.released
      = (done.zip hist.released).map (Prod.map Prod.fst id) := calc
    _ = (done.map Prod.fst ++ waiting.map Prod.fst).zip (hist.released ++ []) := by
      rw [henq, List.map_append, List.append_nil]
    _ = (done.map Prod.fst).zip hist.released := by
      rw [List.zip_append (by simpa using hcount)]
      simp
    _ = _ := List.zip_map_left
  refine ⟨?_, ?_, ?_⟩
  · have hleft : hist.released.map (fun t => behindDhost t.bytes)
        = done.map fun x => behindDhost x.2.bytes := by
      rw [← List.forall₂_eq_eq_eq, List.forall₂_map_left_iff, List.forall₂_map_right_iff]
      exact hrel.flip
    rw [hleft, henq, ← hq, List.map_append, List.map_map]
    rfl
  · have hdone : ((done.zip hist.released).map (Prod.map Prod.fst id)).map Prod.fst
        = done.map Prod.fst := by
      rw [← List.zip_map_left, List.map_fst_zip (by simpa using hcount.le)]
    rw [History.forwarded, List.map_append, hzip, hdone]
    refine hnodup.sublist ?_
    rw [History.numbers, henq, List.map_append]
    exact (List.sublist_append_left _ _).append_left _
  · intro x hx
    rw [History.forwarded, hzip, List.mem_append] at hx
    rcases hx with hx | hx
    · exact hdirect x hx
    · obtain ⟨⟨np, t⟩, hmem, rfl⟩ := List.mem_map.mp hx
      have hnp : np ∈ hist.enqueued := henq ▸ List.mem_append_left _ (List.of_mem_zip hmem).1
      obtain ⟨frame, hframe, hcopy⟩ := hqueued np hnp
      exact ⟨frame, hframe, hcopy.of_behindDhost ((List.forall₂_iff_zip.mp hrel).2 hmem)⟩

/-- Forwarding neither loses, doubles, reorders nor changes packets: every run has a record, and
every record of it shows this. -/
theorem forwarding_conserved {m : Mem} {log : List (State × Arrival)} {s : State}
    (h : Run (Step env rt) (start m) log s) (hlen : ∀ x ∈ log, 34 ≤ x.2.2.length) :
    (∃ hist : History, Run (Taken env rt) (start m) hist s ∧
      hist.map (fun x => (x.1, x.2.1)) = log) ∧
    ∀ hist : History, Run (Taken env rt) (start m) hist s →
      hist.map (fun x => (x.1, x.2.1)) = log → Conserved hist s := by
  refine ⟨exists_taken h, fun hist hrun hlog => conserved_of_taken hrun fun x hx => ?_⟩
  exact hlen (x.1, x.2.1) (hlog ▸ List.mem_map_of_mem hx)

def passingLog : List (State × Arrival) :=
  [(start fun _ => 0, 1, frameTo 10 0x5c), (firstWaits, 0, replyFrom 9)]

def afterPassing : State :=
  ⟨learnt firstWaits (0, replyFrom 9), [], buffer firstWaits (0, replyFrom 9)⟩

theorem run_passingLog :
    Run (Step exampleInterfaces defaultRtable) (start fun _ => 0) passingLog afterPassing := by
  have hfirst : Turn exampleInterfaces defaultRtable (start fun _ => 0) (1, frameTo 10 0x5c) _
      firstWaits := turn_frameTo (by decide) (bestRoute_defaultRtable rfl) rfl rfl
  have hdaddr : ipDaddr (received (start fun _ => 0) (1, frameTo 10 0x5c)).payload
      = le32 10 9 9 9 := rfl
  have hentry : getMac (learnt firstWaits (0, replyFrom 9)) defaultEntry.nextHop
      = some ⟨arpSpa (buffer firstWaits (0, replyFrom 9)),
        arpSha (buffer firstWaits (0, replyFrom 9))⟩ := by
    rw [learnt, getMac_addToArptable, arpSpa_replyFrom]
    rfl
  have hsecond : Turn exampleInterfaces defaultRtable firstWaits (0, replyFrom 9) _ afterPassing :=
    .released (isArpReply_replyFrom firstWaits 9) rfl
      (bestRoute_defaultRtable ((ipDaddr_outgoing 0 _).trans hdaddr)) hentry rfl
  exact .snoc (.snoc .nil ⟨_, hfirst.mainStep_eq⟩) ⟨_, hsecond.mainStep_eq⟩

theorem forwarding_conserved_passingLog :
    (∀ x ∈ passingLog, 34 ≤ x.2.2.length) ∧
      (∃ hist : History,
        Run (Taken exampleInterfaces defaultRtable) (start fun _ => 0) hist afterPassing ∧
          hist.map (fun x => (x.1, x.2.1)) = passingLog) ∧
      ∀ hist : History,
        Run (Taken exampleInterfaces defaultRtable) (start fun _ => 0) hist afterPassing →
          hist.map (fun x => (x.1, x.2.1)) = passingLog → Conserved hist afterPassing := by
  have hlen : ∀ x ∈ passingLog, 34 ≤ x.2.2.length :=
    List.forall_mem_cons.mpr ⟨by decide, List.forall_mem_cons.mpr ⟨by decide, List.forall_mem_nil _⟩⟩
  exact ⟨hlen, forwarding_conserved run_passingLog hlen⟩

end PCom.Router
