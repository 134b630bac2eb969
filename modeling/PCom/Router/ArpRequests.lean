import PCom.Router.Conservation
import PCom.Router.Originated

/-! When the router asks for the MAC address of a next hop, over whole runs. -/

namespace PCom.Router

open Lib

variable {env : Interfaces} {rt : Rtable}

def halfAt (bytes : List Byte) (off : Nat) : Word16 :=
  le16 (bytes.getD off 0) (bytes.getD (off + 1) 0)

/-- An ARP request on the wire, and the address it asks for. -/
def RequestsMac (t : Transmission) (ip : Word32) : Prop :=
  etherTypeOf t.bytes = htons etherTypeArp ∧ halfAt t.bytes 20 = htons arpOpRequest ∧
    wordAt t.bytes 38 = ip

def Asks (x : State × (Arrival × Action)) (ip : Word32) : Prop :=
  ∃ t ∈ x.2.2.originated, RequestsMac t ip

def Hears (x : State × (Arrival × Action)) (ip : Word32) : Prop :=
  IsArpReply (buffer x.1 x.2.1) ∧ arpSpa (buffer x.1 x.2.1) = ip

/-- Of two requests for one address, the second comes after a reply to the first. -/
def OneOutstanding (hist : History) : Prop :=
  ∀ before x between y after ip, hist = before ++ x :: (between ++ y :: after) →
    Asks x ip → Asks y ip → ∃ z ∈ between, Hears z ip

/-- The frame is to be forwarded to a next hop that is not in the ARP table. -/
def Needs (env : Interfaces) (rt : Rtable) (x : State × Arrival) (ip : Word32) : Prop :=
  IsOther env x.2.1 (buffer x.1 x.2) ∧ 1 < (ipTtl (buffer x.1 x.2)).toNat ∧
    Accepted (buffer x.1 x.2) ∧ ∃ route, bestRoute rt (ipDaddr (buffer x.1 x.2)) = some route ∧
      route.nextHop = ip ∧ getMac x.1.arptable ip = none

def NeededOnce (env : Interfaces) (rt : Rtable) (log : List (State × Arrival)) : Prop :=
  log.Pairwise fun x y => ∀ ip, Needs env rt x ip → ¬ Needs env rt y ip

@[simp] theorem etherTypeOf_sendIcmp (daddr saddr : Word32) (sha dha : Mac) (type code : Byte)
    (i : Fin routerNumInterfaces) (id seq : Word16) :
    etherTypeOf (sendIcmp daddr saddr sha dha type code i id seq).bytes = htons etherTypeIp := by
  simp only [sendIcmp, List.append_assoc]
  rw [etherTypeOf_append, buildEthhdr]

theorem not_requestsMac_sendIcmp (daddr saddr : Word32) (sha dha : Mac) (type code : Byte)
    (i : Fin routerNumInterfaces) (id seq : Word16) (ip : Word32) :
    ¬ RequestsMac (sendIcmp daddr saddr sha dha type code i id seq) ip := by
  rintro ⟨htype, -, -⟩
  rw [etherTypeOf_sendIcmp] at htype
  revert htype
  decide

theorem halfAt_append {l : List Byte} {n : Nat} (h : l.length = n) (l' : List Byte) (k : Nat) :
    halfAt (l ++ l') (n + k) = halfAt l' k := by
  have hget (k : Nat) : (l ++ l').getD (n + k) 0 = l'.getD k 0 := by
    rw [List.getD_append_right _ _ _ _ (by omega), h, Nat.add_sub_cancel_left]
  simp only [halfAt, Nat.add_assoc, hget]

theorem requestsMac_sendArp_iff (daddr saddr : Word32) (sha dha : Mac)
    (i : Fin routerNumInterfaces) (op : Word16) (ip : Word32) :
    RequestsMac (sendArp daddr saddr (buildEthhdr sha dha (htons etherTypeArp)) i op) ip ↔
      op = htons arpOpRequest ∧ daddr = ip := by
  set header := buildEthhdr sha dha (htons etherTypeArp)
  have hheader := EtherHeader.length_bytes header
  have hfixed : (bytes16 (htons 1) ++ bytes16 (htons 2048) ++ [6, 4]).length = 6 := rfl
  have hmiddle : (bytes16 (htons 1) ++ bytes16 (htons 2048) ++ [6, 4] ++ bytes16 op ++
      sha.toList ++ bytes32 saddr ++ dha.toList).length = 24 := by simp [bytes16, bytes32]
  have htype : etherTypeOf (sendArp daddr saddr header i op).bytes = htons etherTypeArp := by
    simp only [sendArp, List.append_assoc]
    exact etherTypeOf_append header _
  have hop : halfAt (sendArp daddr saddr header i op).bytes 20 = op := by
    have hafter := halfAt_append hfixed
      (bytes16 op ++ (sha.toList ++ (bytes32 saddr ++ (dha.toList ++ bytes32 daddr)))) 0
    simp only [List.append_assoc] at hafter
    simp only [sendArp, List.append_assoc]
    rw [halfAt_append hheader _ 6]
    exact hafter.trans (le16_bytes16 op)
  have htpa : wordAt (sendArp daddr saddr header i op).bytes 38 = daddr := by
    have hafter := wordAt_append hmiddle (bytes32 daddr) 0
    simp only [List.append_assoc] at hafter
    simp only [sendArp, List.append_assoc]
    rw [wordAt_append hheader _ 24]
    exact hafter.trans (le32_bytes32 daddr)
  rw [RequestsMac, htype, hop, htpa]
  simp

theorem asks_iff {s : State} {a : Arrival} {act : Action} {ip : Word32} :
    Asks (s, a, act) ip ↔ ∃ t ∈ act.originated, RequestsMac t ip := Iff.rfl

theorem not_asks_of_none {s : State} {a : Arrival} {act : Action} {ip : Word32}
    (h : act.originated = []) : ¬ Asks (s, a, act) ip := by
  simp [asks_iff, h]

theorem asks_of_one {s : State} {a : Arrival} {act : Action} {t : Transmission} {ip : Word32}
    (h : act.originated = [t]) : Asks (s, a, act) ip ↔ RequestsMac t ip := by
  simp [asks_iff, h]

theorem asks_iff_needs {s s' : State} {a : Arrival} {act : Action} (h : Turn env rt s a act s')
    (ip : Word32) : Asks (s, a, act) ip ↔ Needs env rt (s, a) ip := by
  cases h with
  | echoed hecho =>
    rw [asks_of_one rfl]
    exact iff_of_false (not_requestsMac_sendIcmp _ _ _ _ _ _ _ _ _ ip) fun hneeds =>
      hneeds.1.echo hecho
  | answered hreq =>
    rw [asks_of_one rfl, arpReply, requestsMac_sendArp_iff]
    refine iff_of_false (fun hop => ?_) fun hneeds => hneeds.1.request hreq
    exact absurd hop.1 (by decide)
  | learned hreply => exact iff_of_false (not_asks_of_none rfl) fun hneeds => hneeds.1.reply hreply
  | released hreply => exact iff_of_false (not_asks_of_none rfl) fun hneeds => hneeds.1.reply hreply
  | expired _ httl =>
    rw [asks_of_one rfl]
    exact iff_of_false (not_requestsMac_sendIcmp _ _ _ _ _ _ _ _ _ ip) fun hneeds =>
      absurd hneeds.2.1 (not_lt.mpr httl)
  | corrupt _ _ hbad => exact iff_of_false (not_asks_of_none rfl) fun hneeds => hbad hneeds.2.2.1
  | unreachable _ _ _ hroute =>
    rw [asks_of_one rfl]
    refine iff_of_false (not_requestsMac_sendIcmp _ _ _ _ _ _ _ _ _ ip) ?_
    rintro ⟨-, -, -, route, hsome, -⟩
    rw [hroute] at hsome
    cases hsome
  | sent _ _ _ hroute _ hentry =>
    refine iff_of_false (not_asks_of_none rfl) ?_
    rintro ⟨-, -, -, route, hsome, rfl, hnone⟩
    obtain rfl := Option.some.inj (hroute.symm.trans hsome)
    rw [hentry] at hnone
    cases hnone
  | @queued route out hother httl hacc hroute _ hnone =>
    rw [asks_of_one rfl, arpRequest, requestsMac_sendArp_iff, and_iff_right rfl]
    constructor
    · rintro rfl
      exact ⟨hother, httl, hacc, route, hroute, rfl, hnone⟩
    · rintro ⟨-, -, -, route', hsome, rfl, -⟩
      rw [Option.some.inj (hroute.symm.trans hsome)]

theorem getMac_of_hears {m : Mem} {log : List (State × Arrival)} {s : State} {ip : Word32}
    (h : Run (Step env rt) (start m) log s) {z : State × Arrival} (hz : z ∈ log)
    (hreply : IsArpReply (buffer z.1 z.2)) (hip : arpSpa (buffer z.1 z.2) = ip) :
    getMac s.arptable ip ≠ none := by
  rw [arptable_of_run h, getMac_replies, ne_eq, List.head?_eq_none_iff]
  refine List.ne_nil_of_mem (a := ⟨arpSpa (buffer z.1 z.2), arpSha (buffer z.1 z.2)⟩) ?_
  simp only [repliesFor, replies, List.mem_filter, List.mem_flatMap, decide_eq_true_eq]
  exact ⟨⟨z, hz, by simp [entered, hreply]⟩, hip⟩

theorem run_of_taken {m : Mem} {hist : History} {s : State}
    (h : Run (Taken env rt) (start m) hist s) :
    Run (Step env rt) (start m) (hist.map fun x => (x.1, x.2.1)) s := by
  induction h with
  | nil => exact .nil
  | snoc _ hs ih =>
    rw [List.map_append]
    exact ih.snoc ⟨_, hs.1⟩

theorem not_hears_of_needs {m : Mem} {hist : History} {s : State} {a : Arrival} {ip : Word32}
    (h : Run (Taken env rt) (start m) hist s) (hneeds : Needs env rt (s, a) ip) :
    ∀ z ∈ hist, ¬ Hears z ip := by
  rintro z hz ⟨hreply, hip⟩
  obtain ⟨-, -, -, _, -, -, hnone⟩ := hneeds
  have hmem : (z.1, z.2.1) ∈ hist.map fun x => (x.1, x.2.1) := List.mem_map_of_mem hz
  exact getMac_of_hears (run_of_taken h) hmem hreply hip hnone

theorem oneOutstanding_of_taken {m : Mem} {hist : History} {s : State}
    (h : Run (Taken env rt) (start m) hist s) :
    OneOutstanding hist ↔ NeededOnce env rt (hist.map fun x => (x.1, x.2.1)) := by
  have hturn : ∀ {before x after}, hist = before ++ x :: after →
      Run (Taken env rt) (start m) before x.1 ∧ ∀ ip, Asks x ip ↔ Needs env rt (x.1, x.2.1) ip := by
    rintro before ⟨s₁, a, act⟩ after rfl
    obtain ⟨hrun, s₂, -, hturn⟩ := h.of_append
    exact ⟨hrun, asks_iff_needs hturn⟩
  rw [NeededOnce, List.pairwise_map, Run.pairwise_iff_split]
  constructor
  · intro hone before x between y after hhist ip hx hy
    have hsecond : hist = (before ++ x :: between) ++ y :: after := by simpa using hhist
    obtain ⟨hrun, hasks⟩ := hturn hsecond
    obtain ⟨z, hz, hears⟩ := hone before x between y after ip hhist
      (((hturn hhist).2 ip).mpr hx) ((hasks ip).mpr hy)
    exact not_hears_of_needs hrun hy z (by simp [hz]) hears
  · intro hneeded before x between y after ip hhist hx hy
    have hsecond : hist = (before ++ x :: between) ++ y :: after := by simpa using hhist
    exact absurd (((hturn hsecond).2 ip).mp hy)
      (hneeded before x between y after hhist ip (((hturn hhist).2 ip).mp hx))

/-- A next hop has at most one request outstanding exactly when no two frames of the run need it:
every frame that does is answered with a request of its own. -/
theorem oneOutstanding_iff {m : Mem} {log : List (State × Arrival)} {s : State}
    (h : Run (Step env rt) (start m) log s) :
    (∃ hist : History, Run (Taken env rt) (start m) hist s ∧
      hist.map (fun x => (x.1, x.2.1)) = log) ∧
    ∀ hist : History, Run (Taken env rt) (start m) hist s →
      hist.map (fun x => (x.1, x.2.1)) = log →
        (OneOutstanding hist ↔ NeededOnce env rt log) := by
  refine ⟨exists_taken h, ?_⟩
  rintro hist hrun rfl
  exact oneOutstanding_of_taken hrun

theorem asks_of_queued (s : State) (a : Arrival) (m : Packet) {out : Fin routerNumInterfaces}
    {ip : Word32} : Asks (s, a, .enqueue m (arpRequest env out ip)) ip := by
  rw [asks_of_one rfl, arpRequest, requestsMac_sendArp_iff]
  exact ⟨rfl, rfl⟩

theorem not_oneOutstanding_pair {x y : State × (Arrival × Action)} {ip : Word32} (hx : Asks x ip)
    (hy : Asks y ip) : ¬ OneOutstanding ([] ++ [x] ++ [y]) := by
  intro hone
  obtain ⟨z, hz, -⟩ := hone [] x [] y [] ip rfl hx hy
  cases hz

def burstLog : List (State × Arrival) :=
  [(start fun _ => 0, 1, frameTo 10 0x5c), (firstWaits, 1, frameTo 10 0x5c)]

def bothBurst : State := afterFrame firstWaits 10 0x5c

def burstAction (s : State) : Action :=
  .enqueue (outgoing exampleInterfaces 0 (received s (1, frameTo 10 0x5c)))
    (arpRequest exampleInterfaces 0 defaultEntry.nextHop)

theorem burst_turn {s : State} (hmac : getMac s.arptable defaultEntry.nextHop = none) :
    Turn exampleInterfaces defaultRtable s (1, frameTo 10 0x5c) (burstAction s)
      (afterFrame s 10 0x5c) :=
  turn_frameTo (by decide) (bestRoute_defaultRtable rfl) rfl hmac

theorem run_burstLog : Run (Step exampleInterfaces defaultRtable) (start fun _ => 0) burstLog
    bothBurst :=
  .snoc (.snoc .nil ⟨_, (burst_turn rfl).mainStep_eq⟩) ⟨_, (burst_turn rfl).mainStep_eq⟩

theorem oneOutstanding_iff_burstLog :
    (∃ hist : History,
      Run (Taken exampleInterfaces defaultRtable) (start fun _ => 0) hist bothBurst ∧
        hist.map (fun x => (x.1, x.2.1)) = burstLog) ∧
    ∀ hist : History,
      Run (Taken exampleInterfaces defaultRtable) (start fun _ => 0) hist bothBurst →
        hist.map (fun x => (x.1, x.2.1)) = burstLog →
          (OneOutstanding hist ↔ NeededOnce exampleInterfaces defaultRtable burstLog) :=
  oneOutstanding_iff run_burstLog

/-- The second packet makes the router ask again although nothing was heard in between. -/
theorem burst_asks_twice :
    ∃ hist : History,
      Run (Taken exampleInterfaces defaultRtable) (start fun _ => 0) hist bothBurst ∧
        ¬ OneOutstanding hist := by
  have hturn {s : State} (hmac : getMac s.arptable defaultEntry.nextHop = none) :
      Taken exampleInterfaces defaultRtable s ((1, frameTo 10 0x5c), burstAction s)
        (afterFrame s 10 0x5c) := ⟨(burst_turn hmac).mainStep_eq, burst_turn hmac⟩
  have hasks (s : State) : Asks (s, (1, frameTo 10 0x5c), burstAction s) defaultEntry.nextHop :=
    asks_of_queued s _ _
  have hrun := (Run.nil.snoc (hturn (s := start fun _ => 0) rfl)).snoc (hturn (s := firstWaits) rfl)
  exact ⟨_, hrun, not_oneOutstanding_pair (hasks _) (hasks _)⟩

end PCom.Router
