import PCom.Router.ArpTable

/-! Which packets wait in the queue although their next hop is known. -/

namespace PCom.Router

open Lib

variable {env : Interfaces} {rt : Rtable}

/-- The packet's own next hop is in the ARP table. -/
def Deliverable (rt : Rtable) (arptable : List ArptableEntry) (p : Packet) : Prop :=
  ∃ route entry, Toward rt arptable p route entry

def NextHopIs (rt : Rtable) (p : Packet) (ip : Word32) : Prop :=
  ∃ route, bestRoute rt (ipDaddr p.payload) = some route ∧ route.nextHop = ip

def NoneHeld (rt : Rtable) (s : State) : Prop := ∀ p ∈ s.q, ¬ Deliverable rt s.arptable p

def FrontWaits (rt : Rtable) (s : State) : Prop := ∀ p ∈ s.q.head?, ¬ Deliverable rt s.arptable p

/-- A reply that any packet waits for is one that the front packet waits for. -/
def AnswersFront (rt : Rtable) (s : State) (a : Arrival) : Prop :=
  IsArpReply (buffer s a) → (∃ p ∈ s.q, NextHopIs rt p (arpSpa (buffer s a))) →
    ∃ front ∈ s.q.head?, NextHopIs rt front (arpSpa (buffer s a))

theorem getMac_addToArptable (table : List ArptableEntry) (ip ip' : Word32) (mac : Mac) :
    getMac (addToArptable table ip mac) ip'
      = (getMac table ip').or (if ip = ip' then some ⟨ip, mac⟩ else none) := by
  rw [getMac, addToArptable, List.find?_append, List.find?_singleton]
  simp [getMac]

theorem deliverable_iff {arptable : List ArptableEntry} {p : Packet} :
    Deliverable rt arptable p ↔ ∃ route, bestRoute rt (ipDaddr p.payload) = some route ∧
      getMac arptable route.nextHop ≠ none := by
  constructor
  · rintro ⟨route, entry, htoward⟩
    obtain ⟨hroute, hentry⟩ := toward_iff.mp htoward
    exact ⟨route, hroute, by simp [hentry]⟩
  · rintro ⟨route, hroute, hmac⟩
    obtain ⟨entry, hentry⟩ := Option.ne_none_iff_exists'.mp hmac
    exact ⟨route, entry, toward_iff.mpr ⟨hroute, hentry⟩⟩

theorem not_deliverable {arptable : List ArptableEntry} {p : Packet} {route : RtableEntry}
    (hroute : bestRoute rt (ipDaddr p.payload) = some route)
    (hmac : getMac arptable route.nextHop = none) : ¬ Deliverable rt arptable p := by
  rw [deliverable_iff]
  rintro ⟨route', hroute', hmac'⟩
  obtain rfl := Option.some.inj (hroute.symm.trans hroute')
  exact hmac' hmac

theorem deliverable_addToArptable {arptable : List ArptableEntry} {p : Packet} {ip : Word32}
    {mac : Mac} : Deliverable rt (addToArptable arptable ip mac) p ↔
      Deliverable rt arptable p ∨ NextHopIs rt p ip := by
  simp only [deliverable_iff, NextHopIs, getMac_addToArptable, ← exists_or, ← and_or_left]
  refine exists_congr fun route => and_congr_right fun _ => ?_
  by_cases hip : ip = route.nextHop
  · simp [hip]
  · simp [hip, eq_comm]

theorem FrontWaits.turn {s s' : State} {a : Arrival} {act : Action} (h : FrontWaits rt s)
    (hturn : Turn env rt s a act s') : FrontWaits rt s' := by
  cases hturn with
  | echoed | answered | expired | corrupt | unreachable | sent => exact h
  | released => simp [FrontWaits]
  | learned _ hwait =>
    intro p hp
    obtain ⟨route, hroute, hmac⟩ := hwait p hp
    exact not_deliverable hroute hmac
  | queued _ _ _ hroute _ hmac =>
    intro p hp
    cases hq : s.q with
    | nil =>
      obtain rfl : outgoing env _ (received s a) = p := by simpa [hq] using hp
      exact not_deliverable (by simpa [outgoing] using hroute) hmac
    | cons front behind =>
      obtain rfl : front = p := by simpa [hq] using hp
      exact h front (by simp [hq])

theorem NoneHeld.turn {s s' : State} {a : Arrival} {act : Action} (h : NoneHeld rt s)
    (ha : AnswersFront rt s a) (hturn : Turn env rt s a act s') : NoneHeld rt s' := by
  cases hturn with
  | echoed | answered | expired | corrupt | unreachable | sent => exact h
  | released => simp [NoneHeld]
  | learned hreply hwait =>
    intro p hp hdel
    rcases deliverable_addToArptable.mp hdel with hold | hnew
    · exact h p hp hold
    · obtain ⟨front, hfront, hnext⟩ := ha hreply ⟨p, hp, hnew⟩
      obtain ⟨route, hroute, hmac⟩ := hwait front hfront
      exact not_deliverable hroute hmac (deliverable_addToArptable.mpr (.inr hnext))
  | queued _ _ _ hroute _ hmac =>
    intro p hp
    rcases List.mem_append.mp hp with hold | hnew
    · exact h p hold
    · obtain rfl := List.mem_singleton.mp hnew
      exact not_deliverable (by simpa [outgoing] using hroute) hmac

/-- A reply that only packets behind the front one wait for leaves them in the queue. -/
theorem not_noneHeld_of_not_answersFront {s s' : State} {a : Arrival} {act : Action}
    (h : NoneHeld rt s) (ha : ¬ AnswersFront rt s a) (hturn : Turn env rt s a act s') :
    ¬ NoneHeld rt s' := by
  simp only [AnswersFront, Classical.not_imp] at ha
  obtain ⟨hreply, ⟨p, hp, hnext⟩, hfront⟩ := ha
  cases hturn with
  | echoed hecho => exact absurd hreply.1 hecho.not_parseArp
  | answered hreq => exact absurd hreq hreply.not_isArpRequest
  | expired hother | corrupt hother | unreachable hother | sent hother | queued hother =>
    exact absurd hreply hother.reply
  | learned => exact fun hnone => hnone p hp (deliverable_addToArptable.mpr (.inr hnext))
  | @released front behind route entry out _ hq hroute hentry =>
    have hdel : Deliverable rt (learnt s a) front := ⟨route, entry, toward_iff.mpr ⟨hroute, hentry⟩⟩
    rcases deliverable_addToArptable.mp hdel with hold | hnew
    · exact absurd hold (h front (by simp [hq]))
    · exact absurd ⟨front, by simp [hq], hnew⟩ hfront

structure Keeps (rt : Rtable) (P : State → Prop) (s : State) : Prop where
  routed : QueueRouted rt s
  holds : P s

theorem keeps_start {P : State → Prop} {m : Mem} (h : P (start m)) : Keeps rt P (start m) :=
  ⟨List.forall_mem_nil _, h⟩

theorem Keeps.exists_turn {P : State → Prop} {s s' : State} {a : Arrival} (h : Keeps rt P s)
    (hs : Step env rt s a s') : QueueRouted rt s' ∧ ∃ act, Turn env rt s a act s' := by
  refine ⟨h.routed.step hs, ?_⟩
  obtain ⟨sent, hrun⟩ := hs
  obtain ⟨act, hturn, -⟩ := Router.exists_turn h.routed hrun
  exact ⟨act, hturn⟩

/-- The front packet is never one that could leave.  The packets behind it are all waiting for
their own next hops too, as long as every reply that some packet waits for is one that the front
packet waits for, and not beyond that. -/
theorem heldPackets {m : Mem} {log : List (State × Arrival)} {s : State}
    (h : Run (Step env rt) (start m) log s) :
    Run.Always (FrontWaits rt) log s ∧
      (Run.Always (NoneHeld rt) log s ↔ Run.Guarded (AnswersFront rt) log) := by
  constructor
  · have hfront : Keeps rt (FrontWaits rt) (start m) := keeps_start (by simp [FrontWaits, start])
    have hstep {s : State} {a : Arrival} {s' : State} (hinv : Keeps rt (FrontWaits rt) s)
        (hs : Step env rt s a s') : Keeps rt (FrontWaits rt) s' := by
      obtain ⟨hrouted, act, hturn⟩ := hinv.exists_turn hs
      exact ⟨hrouted, hinv.holds.turn hturn⟩
    exact (Run.always_of_invariant hfront hstep h).imp Keeps.holds
  · have hnone : Keeps rt (NoneHeld rt) (start m) := keeps_start (List.forall_mem_nil _)
    have hstep {s : State} {a : Arrival} {s' : State} (hinv : Keeps rt (NoneHeld rt) s)
        (ha : AnswersFront rt s a) (hs : Step env rt s a s') : Keeps rt (NoneHeld rt) s' := by
      obtain ⟨hrouted, act, hturn⟩ := hinv.exists_turn hs
      exact ⟨hrouted, hinv.holds.turn ha hturn⟩
    have hbreak {s : State} {a : Arrival} {s' : State} (hinv : Keeps rt (NoneHeld rt) s)
        (ha : ¬ AnswersFront rt s a) (hs : Step env rt s a s') : ¬ NoneHeld rt s' := by
      obtain ⟨-, act, hturn⟩ := hinv.exists_turn hs
      exact not_noneHeld_of_not_answersFront hinv.holds ha hturn
    exact Run.always_iff_guarded hnone Keeps.holds hstep hbreak h

/-- A UDP packet from 10.0.1.7 to `b`.9.9.9 that arrives on interface 1; `c` completes its
checksum. -/
def frameTo (b c : Byte) : List Byte :=
  (exampleMac 1).toList ++ (exampleMac 7).toList ++ [8, 0] ++
    [0x45, 0, 0, 0x14, 0, 1, 0, 0, 0x40, 0x11, c, 0xc0, 10, 0, 1, 7, b, 9, 9, 9]

theorem isOther_of_udp {i : Fin routerNumInterfaces} {p : Mem} (htype : etherType p = le16 8 0)
    (hproto : ipProtocol p = 17) : IsOther env i p := by
  have harp := not_parseArp_of_ip htype
  have hicmp := not_parseIcmp_of_udp hproto
  exact ⟨fun h => hicmp h.1, fun h => harp h.1, fun h => harp h.1⟩

theorem isOther_frameTo (s : State) (b c : Byte) : IsOther env 1 (buffer s (1, frameTo b c)) :=
  isOther_of_udp rfl rfl

theorem turn_frameTo {s : State} {b c : Byte} {route : RtableEntry}
    {out : Fin routerNumInterfaces} (hsum : wordSum ((frameTo b c).drop 14) ≡ 0 [MOD 65535])
    (hroute : bestRoute rt (le32 b 9 9 9) = some route)
    (hout : interfaceIndex route.interface = .ok out)
    (hmac : getMac s.arptable route.nextHop = none) :
    Turn exampleInterfaces rt s (1, frameTo b c)
      (.enqueue (outgoing exampleInterfaces out (received s (1, frameTo b c)))
        (arpRequest exampleInterfaces out route.nextHop))
      { s with
        q := s.q ++ [outgoing exampleInterfaces out (received s (1, frameTo b c))]
        m := (outgoing exampleInterfaces out (received s (1, frameTo b c))).payload } := by
  have httl : ipTtl (buffer s (1, frameTo b c)) = 64#8 := rfl
  have hhdr : ipHeader (buffer s (1, frameTo b c)) = (frameTo b c).drop 14 := rfl
  have hdaddr : ipDaddr (buffer s (1, frameTo b c)) = le32 b 9 9 9 := rfl
  have hacc : Accepted (buffer s (1, frameTo b c)) := by
    rw [accepted_iff, hhdr]
    exact hsum
  exact .queued (isOther_frameTo s b c) (by rw [httl]; decide) hacc (hdaddr ▸ hroute) hout hmac

def hostEntry : RtableEntry := ⟨le32 11 9 9 9, le32 10 0 0 9, le32 255 255 255 255, 0⟩

def otherEntry : RtableEntry := ⟨0, le32 10 0 0 8, 0, 0⟩

theorem two_le_capacity : 2 ≤ 2 ^ 30 := by decide

def oneRoute (e : RtableEntry) : Bucket := ⟨[e], 2, Nat.lt_succ_self 1, two_le_capacity⟩

/-- 11.9.9.9 is behind 10.0.0.9 and everything else behind 10.0.0.8, both on interface 0. -/
def twoRoutes : Rtable :=
  Function.update (Function.update initRtable ⟨0, Nat.succ_pos 32⟩ (oneRoute otherEntry))
    (Fin.last 32) (oneRoute hostEntry)

theorem bestRoute_twoRoutes_default :
    bestRoute twoRoutes (le32 10 9 9 9) = some otherEntry := by
  have hrun : getBestRoute twoRoutes (le32 10 9 9 9) = .ok (some otherEntry) := rfl
  rw [getBestRoute_eq] at hrun
  exact Except.ok.inj hrun

theorem bestRoute_twoRoutes_host : bestRoute twoRoutes (le32 11 9 9 9) = some hostEntry := by
  have hrun : getBestRoute twoRoutes (le32 11 9 9 9) = .ok (some hostEntry) := rfl
  rw [getBestRoute_eq] at hrun
  exact Except.ok.inj hrun

def afterFrame (s : State) (b c : Byte) : State where
  arptable := s.arptable
  q := s.q ++ [outgoing exampleInterfaces 0 (received s (1, frameTo b c))]
  m := (outgoing exampleInterfaces 0 (received s (1, frameTo b c))).payload

def firstWaits : State := afterFrame (start fun _ => 0) 10 0x5c

def bothWait : State := afterFrame firstWaits 11 0x5b

def heldLog : List (State × Arrival) :=
  [(start fun _ => 0, 1, frameTo 10 0x5c), (firstWaits, 1, frameTo 11 0x5b),
    (bothWait, 0, replyFrom 9)]

@[simp] theorem ipDaddr_outgoing (out : Fin routerNumInterfaces) (m : Packet) :
    ipDaddr (outgoing env out m).payload = ipDaddr m.payload := by
  simp [outgoing]

theorem run_heldLog : Run (Step exampleInterfaces twoRoutes) (start fun _ => 0) heldLog
    (afterReply bothWait 9) := by
  have hfirst : Turn exampleInterfaces twoRoutes (start fun _ => 0) (1, frameTo 10 0x5c) _
      firstWaits := turn_frameTo (by decide) bestRoute_twoRoutes_default rfl rfl
  have hsecond : Turn exampleInterfaces twoRoutes firstWaits (1, frameTo 11 0x5b) _ bothWait :=
    turn_frameTo (by decide) bestRoute_twoRoutes_host rfl rfl
  have hthird : Turn exampleInterfaces twoRoutes bothWait (0, replyFrom 9) .silent
      (afterReply bothWait 9) := by
    refine .learned (isArpReply_replyFrom bothWait 9) ?_
    intro front hfront
    obtain rfl := Option.mem_some.mp hfront
    have hdaddr : ipDaddr (received (start fun _ => 0) (1, frameTo 10 0x5c)).payload
        = le32 10 9 9 9 := rfl
    refine ⟨otherEntry, ?_, ?_⟩
    · rw [ipDaddr_outgoing, hdaddr]
      exact bestRoute_twoRoutes_default
    · rw [learnt, getMac_addToArptable, arpSpa_replyFrom]
      rfl
  exact .snoc (.snoc (.snoc .nil ⟨_, hfirst.mainStep_eq⟩) ⟨_, hsecond.mainStep_eq⟩)
    ⟨_, hthird.mainStep_eq⟩

theorem heldPackets_heldLog :
    Run.Always (FrontWaits twoRoutes) heldLog (afterReply bothWait 9) ∧
      (Run.Always (NoneHeld twoRoutes) heldLog (afterReply bothWait 9) ↔
        Run.Guarded (AnswersFront twoRoutes) heldLog) :=
  heldPackets run_heldLog

/-- The second packet stays in the queue although its next hop is in the ARP table. -/
theorem second_packet_held :
    Reachable exampleInterfaces twoRoutes (afterReply bothWait 9) ∧
      ¬ NoneHeld twoRoutes (afterReply bothWait 9) := by
  refine ⟨⟨_, _, run_heldLog⟩, fun hnone => ?_⟩
  have hdaddr : ipDaddr (received firstWaits (1, frameTo 11 0x5b)).payload = le32 11 9 9 9 := rfl
  refine hnone (outgoing exampleInterfaces 0 (received firstWaits (1, frameTo 11 0x5b)))
    (List.mem_cons_of_mem _ List.mem_cons_self) ?_
  refine deliverable_addToArptable.mpr (.inr ?_)
  rw [NextHopIs, ipDaddr_outgoing, hdaddr, arpSpa_replyFrom]
  exact ⟨_, bestRoute_twoRoutes_host, rfl⟩

end PCom.Router
