import PCom.Router.Turns

/-! What the ARP table answers after a sequence of replies. -/

namespace PCom.Router

open Lib

variable {env : Interfaces} {rt : Rtable}

instance (p : Mem) : Decidable (IsArpReply p) := inferInstanceAs (Decidable (_ ∧ _))

def entered (s : State) (a : Arrival) : List ArptableEntry :=
  if IsArpReply (buffer s a) then [⟨arpSpa (buffer s a), arpSha (buffer s a)⟩] else []

def replies (log : List (State × Arrival)) : List ArptableEntry :=
  log.flatMap fun x => entered x.1 x.2

def repliesFor (log : List (State × Arrival)) (ip : Word32) : List ArptableEntry :=
  (replies log).filter fun entry => entry.ip = ip

@[simp] theorem replies_snoc (log : List (State × Arrival)) (s : State) (a : Arrival) :
    replies (log ++ [(s, a)]) = replies log ++ entered s a := by
  simp [replies]

theorem Turn.arptable_eq {s s' : State} {a : Arrival} {act : Action} (h : Turn env rt s a act s') :
    s'.arptable = s.arptable ++ entered s a := by
  have hkeep (hnot : ¬ IsArpReply (buffer s a)) : s.arptable = s.arptable ++ entered s a := by
    simp [entered, hnot]
  have hlearn (hreply : IsArpReply (buffer s a)) : learnt s a = s.arptable ++ entered s a := by
    simp [entered, hreply, learnt, addToArptable]
  cases h with
  | echoed h => exact hkeep fun hreply => h.not_parseArp hreply.1
  | answered h => exact hkeep fun hreply => hreply.not_isArpRequest h
  | learned h => exact hlearn h
  | released h => exact hlearn h
  | expired h => exact hkeep h.reply
  | corrupt h => exact hkeep h.reply
  | unreachable h => exact hkeep h.reply
  | sent h => exact hkeep h.reply
  | queued h => exact hkeep h.reply

theorem arptable_of_run {m : Mem} {log : List (State × Arrival)} {s : State}
    (h : Run (Step env rt) (start m) log s) : s.arptable = replies log := by
  induction h with
  | nil => rfl
  | snoc h hs ih =>
    obtain ⟨sent, hs⟩ := hs
    obtain ⟨act, hturn, -⟩ := exists_turn (Reachable.queueRouted ⟨m, _, h⟩) hs
    rw [hturn.arptable_eq, ih, replies_snoc]

theorem getMac_replies (log : List (State × Arrival)) (ip : Word32) :
    getMac (replies log) ip = (repliesFor log ip).head? := by
  rw [getMac, repliesFor, List.head?_filter]

/-- The table answers with the MAC address of the most recent reply, and with nothing when there
was none. -/
def UpToDate (log : List (State × Arrival)) (s : State) (ip : Word32) : Prop :=
  (getMac s.arptable ip).map (·.mac) = (repliesFor log ip).getLast?.map (·.mac)

/-- The table is up to date for an address exactly when the MAC address in the last reply of its
owner is still the one in the first. -/
theorem upToDate_iff {m : Mem} {log : List (State × Arrival)} {s : State}
    (h : Run (Step env rt) (start m) log s) (ip : Word32) :
    UpToDate log s ip ↔ ∀ first ∈ (repliesFor log ip).head?,
      ∀ last ∈ (repliesFor log ip).getLast?, first.mac = last.mac := by
  rw [UpToDate, arptable_of_run h, getMac_replies]
  cases hreplies : repliesFor log ip with
  | nil => simp
  | cons first rest => simp [List.getLast?_cons]

/-- An ARP reply of 10.0.0.9 whose MAC address ends in `n`. -/
def replyFrom (n : Byte) : List Byte :=
  (exampleMac 0).toList ++ (exampleMac n).toList ++ [8, 6] ++ [0, 1, 8, 0, 6, 4, 0, 2] ++
    (exampleMac n).toList ++ [10, 0, 0, 9] ++ (exampleMac 0).toList ++ [10, 0, 0, 1]

@[simp] theorem length_replyFrom (n : Byte) : (replyFrom n).length = 42 := rfl

theorem length_replyFrom_le (n : Byte) : (replyFrom n).length ≤ maxLen := by
  rw [length_replyFrom]
  decide

theorem arpSpa_replyFrom (s : State) (n : Byte) :
    arpSpa (buffer s (0, replyFrom n)) = le32 10 0 0 9 :=
  load32_getPacket (length_replyFrom_le n) (by rw [length_replyFrom]; decide)

@[simp] theorem arpSha_replyFrom (s : State) (n : Byte) :
    arpSha (buffer s (0, replyFrom n)) = exampleMac n := by
  refine Vector.ext fun i hi => ?_
  simp only [arpSha, loadMac, Vector.getElem_ofFn]
  refine (getPacket_of_lt (length_replyFrom_le n) (by rw [length_replyFrom]; omega)).trans ?_
  have hbyte : i = 0 ∨ i = 1 ∨ i = 2 ∨ i = 3 ∨ i = 4 ∨ i = 5 := by omega
  rcases hbyte with rfl | rfl | rfl | rfl | rfl | rfl <;> rfl

theorem isArpReply_replyFrom (s : State) (n : Byte) : IsArpReply (buffer s (0, replyFrom n)) := by
  have htype : etherType (buffer s (0, replyFrom n)) = le16 8 6 :=
    load16_getPacket (length_replyFrom_le n) (by rw [length_replyFrom]; decide)
  have hop : arpOp (buffer s (0, replyFrom n)) = le16 0 2 :=
    load16_getPacket (length_replyFrom_le n) (by rw [length_replyFrom]; decide)
  rw [IsArpReply, parseArp, htype, hop]
  decide

theorem entered_replyFrom (s : State) (n : Byte) :
    entered s (0, replyFrom n) = [⟨le32 10 0 0 9, exampleMac n⟩] := by
  rw [entered, if_pos (isArpReply_replyFrom s n), arpSpa_replyFrom, arpSha_replyFrom]

def afterReply (s : State) (n : Byte) : State :=
  ⟨learnt s (0, replyFrom n), s.q, buffer s (0, replyFrom n)⟩

theorem step_replyFrom {s : State} (hq : s.q = []) (n : Byte) :
    Step env rt s (0, replyFrom n) (afterReply s n) := by
  have hturn : Turn env rt s (0, replyFrom n) .silent (afterReply s n) :=
    .learned (isArpReply_replyFrom s n) (by simp [hq])
  exact ⟨_, hturn.mainStep_eq⟩

def movedOnce (n : Byte) : State := afterReply (start fun _ => 0) n

def movedLog (n n' : Byte) : List (State × Arrival) :=
  [(start fun _ => 0, 0, replyFrom n), (movedOnce n, 0, replyFrom n')]

theorem run_movedLog (n n' : Byte) :
    Run (Step exampleInterfaces defaultRtable) (start fun _ => 0) (movedLog n n')
      (afterReply (movedOnce n) n') :=
  .snoc (.snoc .nil (step_replyFrom rfl n)) (step_replyFrom rfl n')

theorem upToDate_iff_movedLog :
    UpToDate (movedLog 9 9) (afterReply (movedOnce 9) 9) (le32 10 0 0 9) ↔
      ∀ first ∈ (repliesFor (movedLog 9 9) (le32 10 0 0 9)).head?,
        ∀ last ∈ (repliesFor (movedLog 9 9) (le32 10 0 0 9)).getLast?, first.mac = last.mac :=
  upToDate_iff (run_movedLog 9 9) _

/-- After a reply with another MAC address the table still answers with the first one. -/
theorem moved_not_upToDate :
    Run (Step exampleInterfaces defaultRtable) (start fun _ => 0) (movedLog 9 8)
        (afterReply (movedOnce 9) 8) ∧
      ¬ UpToDate (movedLog 9 8) (afterReply (movedOnce 9) 8) (le32 10 0 0 9) := by
  refine ⟨run_movedLog 9 8, ?_⟩
  have hreplies : replies (movedLog 9 8)
      = [⟨le32 10 0 0 9, exampleMac 9⟩, ⟨le32 10 0 0 9, exampleMac 8⟩] := by
    simp [replies, movedLog, entered_replyFrom]
  rw [UpToDate, arptable_of_run (run_movedLog 9 8), repliesFor, hreplies]
  decide

end PCom.Router
