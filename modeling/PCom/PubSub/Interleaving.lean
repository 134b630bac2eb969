import PCom.PubSub.Registry
import PCom.PubSub.Session

/-! Requests and packets on one connection: when the subscriber can tell them apart. -/

namespace PCom.PubSub

open Lib

/-! ## Reading what is on its way -/

def wire (copies : List (Packet × Nat)) : List (List Byte) :=
  copies.flatMap fun c => [c.1.header c.2, c.1.body c.2]

namespace Mode

theorem readAll_append {mode mode' : Mode} {ms ns : List (List Byte)} {prints : List Print}
    (h : mode.readAll ms = some (mode', prints)) :
    mode.readAll (ms ++ ns) = (mode'.readAll ns).map fun r => (r.1, prints ++ r.2) := by
  induction ms generalizing mode prints with
  | nil =>
    cases h
    simp
  | cons m ms ih =>
    rw [List.cons_append, readAll]
    rw [readAll] at h
    cases hread : mode.read m with
    | none =>
      rw [hread] at h
      cases h
    | some r =>
      simp only [hread] at h ⊢
      obtain ⟨⟨mode₂, rest⟩, hrest, heq⟩ := Option.map_eq_some_iff.mp h
      cases heq
      rw [ih hrest]
      cases mode₂.readAll ns with
      | none => rfl
      | some r' => simp [List.append_assoc]

theorem read_header {uninit : Nat} {pkt : Packet} (h : pkt.contentSize uninit ≤ contentLen + 3) :
    Mode.main.read (pkt.header uninit) = some (.body (pkt.sizes uninit), []) := by
  have hlen : (pkt.header uninit).length ≤ Mode.main.want := (length_header uninit pkt).le
  rw [read, if_pos hlen, act_header h]

theorem read_body {uninit : Nat} {pkt : Packet} (h : pkt.contentSize uninit ≤ contentLen + 3) :
    (Mode.body (pkt.sizes uninit)).read (pkt.body uninit)
      = some (.main, [.packet (pkt.trimmed uninit)]) := by
  have hlen : (pkt.body uninit).length ≤ (Mode.body (pkt.sizes uninit)).want :=
    (Packet.length_body h).le
  rw [read, if_pos hlen, act_body h]

theorem read_feedback (type reply : Byte) :
    (Mode.feedback type).read (protoMsg reply []) = some (.main, [.outcome type (.ofType reply)]) := by
  have hlen : (protoMsg reply []).length ≤ (Mode.feedback type).want := (length_protoMsg reply).le
  rw [read, if_pos hlen, act_feedback]

theorem readAll_wire {copies : List (Packet × Nat)}
    (h : ∀ c ∈ copies, c.1.contentSize c.2 ≤ contentLen + 3) :
    Mode.main.readAll (wire copies)
      = some (.main, copies.map fun c => .packet (c.1.trimmed c.2)) := by
  induction copies with
  | nil => rfl
  | cons c copies ih =>
    obtain ⟨hc, hcopies⟩ := List.forall_mem_cons.mp h
    have hwire : wire (c :: copies) = c.1.header c.2 :: c.1.body c.2 :: wire copies := rfl
    rw [hwire, readAll, read_header hc]
    simp only [readAll, read_body hc, ih hcopies, Option.map_some, List.nil_append,
      List.singleton_append, List.map_cons]

theorem readAll_stopped {mode : Mode} {ms : List (List Byte)} {prints : List Print}
    (h : Mode.stopped.readAll ms = some (mode, prints)) : mode = .stopped := by
  induction ms generalizing prints with
  | nil =>
    cases h
    rfl
  | cons m ms ih =>
    rw [readAll, read] at h
    split at h
    next => cases h
    next mode' prints' hread =>
      split at hread
      next =>
        cases hread
        obtain ⟨⟨mode₂, rest⟩, hrest, heq⟩ := Option.map_eq_some_iff.mp h
        cases heq
        exact ih hrest
      next => cases hread

end Mode

/-! ## What the server puts on the channel -/

theorem sentTo_eq_nil {i fd : Nat} {sent : List Send} (h : ∀ x ∈ sent, x.fd = fd) (hi : i ≠ fd) :
    sentTo i sent = [] := by
  rw [sentTo, List.map_eq_nil_iff, List.filter_eq_nil_iff]
  intro x hx
  simp [h x hx, hi.symm]

theorem sentTo_flatMap (i : Nat) (pkt : Packet) (copies : List (Nat × Nat)) :
    sentTo i (copies.flatMap fun c => [⟨c.1, pkt.header c.2⟩, ⟨c.1, pkt.body c.2⟩])
      = wire ((copies.filter (·.1 = i)).map fun c => (pkt, c.2)) := by
  induction copies with
  | nil => rfl
  | cons c copies ih =>
    rw [sentTo] at ih
    by_cases hc : c.1 = i
    · simp [sentTo, wire, hc, ih]
    · simp [sentTo, wire, hc, ih]

namespace Server

theorem copies_eq_nil_iff {s : Server} {uninit : Nat → Nat} {n : Nat} {ids : List Str} {i : Nat} :
    (s.copies uninit n ids).filter (·.1 = i) = [] ↔ ∀ id ∈ ids, s.link id ≠ some (true, i) := by
  induction ids generalizing n with
  | nil => simp [copies]
  | cons id ids ih =>
    rw [copies, List.forall_mem_cons]
    split
    next fd hlink =>
      rw [hlink]
      by_cases hfd : fd = i
      · simp [hfd]
      · simp only [List.filter_cons, hfd, decide_false, Bool.false_eq_true, if_false, ih]
        simp [hfd]
    next hlink => rw [ih, and_iff_right (hlink i)]

theorem copiesTo_udp_eq_nil_iff {s : Server} {i : Nat} {ip : Word32} {port : Word16}
    {bytes : List Byte} {uninit : Nat → Nat} :
    s.copiesTo i (.udp ip port bytes uninit) = [] ↔
      ∀ id ∈ s.topicToClients (Packet.ofDatagram ip port bytes).topicStr,
        s.link id ≠ some (true, i) := by
  rw [copiesTo, List.map_eq_nil_iff, copies_eq_nil_iff]

theorem handle_elsewhere {s s' : Server} {i : Nat} {e : Event} {sent : List Send}
    (hopen : i ∈ s.readFds) (hoffer : s.Offers e) (helse : e.Elsewhere i)
    (h : s.handle e = .ok (s', sent)) :
    i ∈ s'.readFds ∧ sentTo i sent = wire (s.copiesTo i e) ∧
      ∀ c ∈ s.copiesTo i e, c.1.contentSize c.2 ≤ contentLen + 3 := by
  cases e with
  | stdin word =>
    refine ⟨(stdinBranch_registry h).readFds ▸ hopen, ?_, by simp [copiesTo]⟩
    simp only [handle, stdinBranch] at h
    split at h
    · cases h
    · cases h
      rfl
  | udp ip port bytes uninit =>
    obtain ⟨hsent, hsizes⟩ := publishTo_sent h
    refine ⟨(udpBranch_registry h).readFds ▸ hopen, ?_, ?_⟩
    · rw [hsent, sentTo_flatMap]
      rfl
    · intro c hc
      obtain ⟨c', hc', rfl⟩ := List.mem_map.mp hc
      exact hsizes c' (List.mem_of_mem_filter hc')
  | accept fd bytes uninit =>
    have hfd : i ≠ fd := by
      rintro rfl
      exact hoffer.1.2.1 hopen
    have hcases := acceptBranch_cases h
    exact ⟨hcases.readFds hopen hfd, sentTo_eq_nil hcases.fd_eq hfd, by simp [copiesTo]⟩
  | recv j bytes =>
    have hj : i ≠ j := Ne.symm helse
    have hcases := recvBranch_cases h
    refine ⟨?_, sentTo_eq_nil hcases.fd_eq hj, by simp [copiesTo]⟩
    by_cases hb : bytes = []
    · subst hb
      obtain ⟨-, -, hfds, -⟩ := hcases.close
      simp [hfds, hopen, hj]
    · rw [(hcases.message hb).1]
      exact hopen

end Server

/-! ## No confusion -/

def Print.packet? : Print → Option Packet
  | .packet pkt => some pkt
  | _ => none

def Print.outcome? : Print → Option (Byte × Feedback)
  | .outcome type feedback => some (type, feedback)
  | _ => none

namespace Session

/-- The packets that were sent and the answers that were given, each once and in order, and
nothing else. -/
structure Shows (s : Session) (prints : List Print) : Prop where
  packets : prints.filterMap Print.packet? = s.sent
  outcomes : prints.filterMap Print.outcome? = s.answered
  expected : .unexpected ∉ prints
  confOrErr : ∀ a ∈ s.answered, a.2 ≠ .unexpected

/-- The subscriber can read all that is on its way to it, and has then printed just what the
server sent. -/
def Unconfused (s : Session) : Prop :=
  ∃ mode prints, s.mode.readAll s.toSubscriber = some (mode, prints) ∧ s.Shows (s.printed ++ prints)

/-- So what it has printed is how the packets and the answers begin, and all of them once nothing
is on its way. -/
theorem Unconfused.printed {s : Session} (h : s.Unconfused) :
    s.printed.filterMap Print.packet? <+: s.sent ∧
      s.printed.filterMap Print.outcome? <+: s.answered ∧
      (s.toSubscriber = [] → s.printed.filterMap Print.packet? = s.sent ∧
        s.printed.filterMap Print.outcome? = s.answered) := by
  obtain ⟨mode, prints, hreads, hshown⟩ := h
  have hpackets := hshown.packets
  have houtcomes := hshown.outcomes
  rw [List.filterMap_append] at hpackets houtcomes
  refine ⟨⟨_, hpackets⟩, ⟨_, houtcomes⟩, fun hnone => ?_⟩
  rw [hnone, Mode.readAll, Option.some.injEq, Prod.mk.injEq] at hreads
  rw [← hreads.2, List.filterMap_nil, List.append_nil] at hpackets houtcomes
  exact ⟨hpackets, houtcomes⟩

/-- No request is made while something is on its way to the subscriber, and no packet is sent to
it while a request of its own waits for the server. -/
def Quiet (i : Nat) (s : Session) : SessionEvent → Prop
  | .command .. => s.toSubscriber = []
  | .other (.udp ip port bytes _) => s.toServer = [] ∨
      ∀ id ∈ s.server.topicToClients (Packet.ofDatagram ip port bytes).topicStr,
        s.server.link id ≠ some (true, i)
  | _ => True

/-- Either no request is under way to the server, or there is one and the other channel is
empty. -/
inductive Phase (s : Session) : Prop
  | settled {prints} (noRequest : s.toServer = [])
      (reads : s.mode.readAll s.toSubscriber = some (.main, prints))
      (shown : s.Shows (s.printed ++ prints))
  | asked {type topic sf} (isRequest : type = subMsg ∨ type = unsubMsg)
      (request : s.toServer = [subsRequest type topic sf]) (waits : s.mode = .feedback type)
      (silent : s.toSubscriber = []) (shown : s.Shows s.printed)

structure Inv (i : Nat) (s : Session) : Prop where
  isOpen : i ∈ s.server.readFds
  phase : s.Phase

theorem Inv.unconfused {i : Nat} {s : Session} (h : Inv i s) : s.Unconfused := by
  cases h.phase with
  | settled _ hreads hshown => exact ⟨_, _, hreads, hshown⟩
  | asked _ _ _ hsilent hshown =>
    refine ⟨s.mode, [], by rw [hsilent]; rfl, ?_⟩
    rwa [List.append_nil]

theorem Inv.start {i : Nat} {server : Server} (h : i ∈ server.readFds) : Inv i (start server) :=
  ⟨h, .settled rfl rfl ⟨rfl, rfl, List.not_mem_nil, by simp [Session.start]⟩⟩

theorem Shows.packet {s s' : Session} {prints : List Print} {copies : List (Packet × Nat)}
    (h : s.Shows prints) (hsent : s'.sent = s.sent ++ copies.map fun c => c.1.trimmed c.2)
    (hanswered : s'.answered = s.answered) :
    s'.Shows (prints ++ copies.map fun c => .packet (c.1.trimmed c.2)) where
  packets := by
    rw [List.filterMap_append, h.packets, hsent, List.filterMap_map]
    exact congrArg _ (congrFun List.filterMap_eq_map copies)
  outcomes := by
    rw [List.filterMap_append, h.outcomes, hanswered, List.filterMap_map]
    simp [Function.comp_def, Print.outcome?]
  expected := by simp [h.expected]
  confOrErr := hanswered ▸ h.confOrErr

theorem Shows.outcome {s s' : Session} {prints : List Print} {type : Byte} {feedback : Feedback}
    (h : s.Shows prints) (hsent : s'.sent = s.sent)
    (hanswered : s'.answered = s.answered ++ [(type, feedback)]) (hf : feedback ≠ .unexpected) :
    s'.Shows (prints ++ [.outcome type feedback]) where
  packets := by simp [h.packets, hsent, Print.packet?]
  outcomes := by simp [h.outcomes, hanswered, Print.outcome?]
  expected := by simp [h.expected]
  confOrErr := by
    rw [hanswered]
    simpa [or_imp, forall_and, hf] using h.confOrErr

/-! ## Steps -/

theorem Inv.command {i : Nat} {s s' : Session} {type : Byte} {topic : Str} {sf : Bool}
    (hinv : Inv i s) (hquiet : s.toSubscriber = []) (h : s.step i (.command type topic sf) = some s') :
    Inv i s' := by
  simp only [step] at h
  split at h
  next hcan =>
    cases h
    cases hinv.phase with
    | settled hnone hreads hshown =>
      rw [hquiet, Mode.readAll, Option.some.injEq, Prod.mk.injEq] at hreads
      rw [← hreads.2, List.append_nil] at hshown
      exact ⟨hinv.isOpen, .asked hcan.2.1 (by rw [hnone]; rfl) rfl hquiet
        ⟨hshown.packets, hshown.outcomes, hshown.expected, hshown.confOrErr⟩⟩
    | asked _ _ hwaits =>
      exact absurd (hcan.1.symm.trans hwaits) nofun
  next => cases h

theorem Inv.serve {i : Nat} {s s' : Session} (hinv : Inv i s) (h : s.step i .serve = some s') :
    Inv i s' := by
  simp only [step] at h
  cases hinv.phase with
  | settled hnone =>
    rw [hnone] at h
    cases h
  | @asked type topic sf htype hrequest hwaits hsilent hshown =>
    simp only [hrequest] at h
    split at h
    next => cases h
    next server sent hok =>
      cases h
      have hne := subsRequest_ne_nil type topic sf
      rw [← msgType_subsRequest type topic sf] at htype
      have hcases := Server.recvBranch_cases hok
      obtain ⟨reply, hreply, rfl⟩ := hcases.answers hne (.inr htype)
      have hsent : sentTo i [⟨i, protoMsg reply []⟩] = [protoMsg reply []] := by simp [sentTo]
      have hf : Feedback.ofType reply ≠ .unexpected := by
        rcases hreply with rfl | rfl <;> decide
      have hreads : s.mode.readAll (s.toSubscriber ++ sentTo i [⟨i, protoMsg reply []⟩])
          = some (.main, [.outcome type (.ofType reply)]) := by
        rw [hsilent, hwaits, hsent, List.nil_append, Mode.readAll, Mode.read_feedback]
        rfl
      have hrecorded : (sentTo i [⟨i, protoMsg reply []⟩]).map (fun reply =>
          (msgType (received (subsRequest type topic sf)), Feedback.ofType (msgType (received reply))))
            = [(type, Feedback.ofType reply)] := by
        rw [hsent, List.map_singleton, msgType_subsRequest, msgType_protoMsg]
      refine ⟨?_, .settled rfl hreads (hshown.outcome rfl ?_ hf)⟩
      · rw [(hcases.message hne).1]
        exact hinv.isOpen
      · exact congrArg _ hrecorded

theorem Inv.other {i : Nat} {s s' : Session} {e : Event} (hinv : Inv i s)
    (hquiet : s.toServer = [] ∨ s.server.copiesTo i e = []) (h : s.step i (.other e) = some s') :
    Inv i s' := by
  simp only [step] at h
  split at h
  next hcan =>
    split at h
    next => cases h
    next server sent hok =>
      obtain ⟨hopen, hsent, hsizes⟩ := Server.handle_elsewhere hinv.isOpen hcan.1 hcan.2 hok
      cases h
      refine ⟨hopen, ?_⟩
      cases hinv.phase with
      | @settled prints hnone hreads hshown =>
        refine @Phase.settled _ (prints ++ (s.server.copiesTo i e).map
          fun c => .packet (c.1.trimmed c.2)) hnone ?_ ?_
        · change s.mode.readAll (s.toSubscriber ++ sentTo i sent) = _
          rw [hsent, Mode.readAll_append hreads, Mode.readAll_wire hsizes]
          rfl
        · rw [← List.append_assoc]
          exact hshown.packet rfl rfl
      | asked htype hrequest hwaits hsilent hshown =>
        have hnil : s.server.copiesTo i e = [] :=
          hquiet.resolve_left (by rw [hrequest]; exact List.cons_ne_nil _ _)
        refine .asked htype hrequest hwaits ?_ ?_
        · change s.toSubscriber ++ sentTo i sent = []
          rw [hsilent, hsent, hnil]
          rfl
        · exact ⟨by simpa [hnil] using hshown.packets, hshown.outcomes, hshown.expected,
            hshown.confOrErr⟩
  next => cases h

theorem Inv.receive {i : Nat} {s s' : Session} (hinv : Inv i s)
    (h : s.step i .receive = some s') : Inv i s' := by
  simp only [step] at h
  split at h
  next => cases h
  next m ms hin =>
    split at h
    next => cases h
    next mode prints hread =>
      cases h
      cases hinv.phase with
      | settled hnone hreads hshown =>
        rw [hin, Mode.readAll, hread] at hreads
        obtain ⟨⟨mode', rest⟩, hrest, heq⟩ := Option.map_eq_some_iff.mp hreads
        cases heq
        refine ⟨hinv.isOpen, .settled hnone hrest ?_⟩
        rw [List.append_assoc]
        exact ⟨hshown.packets, hshown.outcomes, hshown.expected, hshown.confOrErr⟩
      | asked _ _ _ hsilent =>
        rw [hsilent] at hin
        cases hin

theorem quiet_other_iff {i : Nat} {s : Session} {e : Event} :
    s.Quiet i (.other e) ↔ s.toServer = [] ∨ s.server.copiesTo i e = [] := by
  cases e with
  | udp ip port bytes uninit => rw [Server.copiesTo_udp_eq_nil_iff, Quiet]
  | stdin word => simp [Quiet, Server.copiesTo]
  | accept fd bytes uninit => simp [Quiet, Server.copiesTo]
  | recv j bytes => simp [Quiet, Server.copiesTo]

theorem Inv.step {i : Nat} {s s' : Session} {e : SessionEvent} (hinv : Inv i s)
    (hquiet : s.Quiet i e) (h : Step i s e s') : Inv i s' := by
  cases e with
  | command type topic sf => exact hinv.command hquiet h
  | serve => exact hinv.serve h
  | other e => exact hinv.other (quiet_other_iff.mp hquiet) h
  | receive => exact hinv.receive h

/-! ## A packet in the place of an answer -/

theorem not_unconfused_of_packet {s : Session} {type : Byte} {m : List Byte} {ms : List (List Byte)}
    (hwaits : s.mode = .feedback type) (hin : s.toSubscriber = m :: ms)
    (hm : msgType (received m) = pktMsg) : ¬ s.Unconfused := by
  rintro ⟨mode, prints, hreads, hshown⟩
  rw [hwaits, hin, Mode.readAll] at hreads
  cases hread : (Mode.feedback type).read m with
  | none =>
    rw [hread] at hreads
    cases hreads
  | some r =>
    have hact : r = (.main, [.outcome type .unexpected]) := by
      rw [Mode.read] at hread
      split at hread
      · rw [Mode.act, hm] at hread
        exact (Option.some.inj hread).symm
      · cases hread
    rw [hread, hact] at hreads
    obtain ⟨r', -, heq⟩ := Option.map_eq_some_iff.mp hreads
    cases heq
    have hmem : (type, Feedback.unexpected) ∈ s.answered := by
      rw [← hshown.outcomes]
      simp [Print.outcome?]
    exact hshown.confOrErr _ hmem rfl

theorem msgType_of_readAll {m : List Byte} {ms : List (List Byte)} {prints : List Print}
    (h : Mode.main.readAll (m :: ms) = some (.main, prints)) (hprints : .unexpected ∉ prints) :
    msgType (received m) = pktMsg := by
  by_contra hm
  rw [Mode.readAll] at h
  cases hread : Mode.main.read m with
  | none =>
    rw [hread] at h
    cases h
  | some r =>
    rw [hread] at h
    obtain ⟨⟨mode, rest⟩, hrest, heq⟩ := Option.map_eq_some_iff.mp h
    cases heq
    rw [Mode.read] at hread
    split at hread
    next =>
      rw [Mode.act, if_neg hm] at hread
      split at hread
      · cases hread
        cases Mode.readAll_stopped hrest
      · cases hread
        simp at hprints
    next => cases hread

theorem not_unconfused_of_not_quiet {i : Nat} {s s' : Session} {e : SessionEvent} (hinv : Inv i s)
    (hquiet : ¬ s.Quiet i e) (h : Step i s e s') : ¬ s'.Unconfused := by
  cases e with
  | command type topic sf =>
    obtain ⟨m, ms, hin⟩ := List.exists_cons_of_ne_nil hquiet
    simp only [Step, Session.step] at h
    split at h
    next hcan =>
      cases h
      cases hinv.phase with
      | settled _ hreads hshown =>
        rw [hcan.1, hin] at hreads
        refine not_unconfused_of_packet rfl hin (msgType_of_readAll hreads fun hmem => ?_)
        exact hshown.expected (List.mem_append_right _ hmem)
      | asked _ _ _ hsilent => exact absurd hsilent hquiet
    next => cases h
  | serve => exact absurd trivial hquiet
  | other e =>
    rw [quiet_other_iff, not_or] at hquiet
    obtain ⟨c, cs, hcopies⟩ := List.exists_cons_of_ne_nil hquiet.2
    simp only [Step, Session.step] at h
    split at h
    next hcan =>
      split at h
      next => cases h
      next server sent hok =>
        obtain ⟨-, hsent, -⟩ := Server.handle_elsewhere hinv.isOpen hcan.1 hcan.2 hok
        cases h
        cases hinv.phase with
        | settled hnone => exact absurd hnone hquiet.1
        | asked _ _ hwaits hsilent =>
          have hin : s.toSubscriber ++ sentTo i sent
              = c.1.header c.2 :: c.1.body c.2 :: wire cs := by
            rw [hsilent, hsent, hcopies]
            rfl
          exact not_unconfused_of_packet hwaits hin (msgType_header _ _)
    next => cases h
  | receive => exact absurd trivial hquiet

def arrival : List Event :=
  [.accept 5 (idRequest [65]) fun _ => 0, .recv 5 (subsRequest subMsg [0x74] true)]

theorem run_after_arrival (es : List SessionEvent) (out : List Print × List (Byte × Feedback))
    (h : ((History.start.play arrival).bind fun h =>
      if 5 ∈ h.server.readFds then
        ((start h.server).play 5 es).map fun s => (s.printed, s.answered)
      else none) = some out) :
    ∃ log₀ h, Run History.Step History.start log₀ h ∧ 5 ∈ h.server.readFds ∧
      ∃ log s, Run (Step 5) (start h.server) log s ∧ log.map Prod.snd = es ∧
        (s.printed, s.answered) = out := by
  obtain ⟨h, hplay, hrest⟩ := Option.bind_eq_some_iff.mp h
  obtain ⟨log₀, hrun₀, -⟩ := History.run_of_play .nil hplay
  split at hrest
  next hopen =>
    obtain ⟨s, hs, hout⟩ := Option.map_eq_some_iff.mp hrest
    obtain ⟨log, hrun, hlog⟩ := run_of_play .nil hs
    exact ⟨log₀, h, hrun₀, hopen, log, s, hrun, hlog, hout⟩
  next => cases hrest

/-- The subscriber keeps packets and answers apart in every state of a run exactly when no request
and packet cross. -/
theorem always_unconfused_iff {i : Nat} {server : Server} (hopen : i ∈ server.readFds)
    {log : List (Session × SessionEvent)} {s : Session} (hrun : Run (Step i) (start server) log s) :
    Run.Always Unconfused log s ↔ Run.Guarded (Quiet i) log :=
  Run.always_iff_guarded (Inv.start hopen) Inv.unconfused Inv.step not_unconfused_of_not_quiet hrun

def inTurn : List SessionEvent :=
  [.command subMsg [0x75] true, .serve, .receive, .other (.udp 0 0 [0x74] fun _ => 0)]

theorem always_unconfused_iff_inTurn : ∃ log₀ h, Run History.Step History.start log₀ h ∧
    ∃ log s, Run (Step 5) (start h.server) log s ∧ log.map Prod.snd = inTurn ∧
      s.answered = [(subMsg, .confirmed)] ∧
      (Run.Always Unconfused log s ↔ Run.Guarded (Quiet 5) log) := by
  obtain ⟨log₀, h, hrun₀, hopen, log, s, hrun, hlog, hout⟩ := run_after_arrival
    inTurn ([.outcome subMsg .confirmed], [(subMsg, .confirmed)]) (by decide)
  exact ⟨log₀, h, hrun₀, log, s, hrun, hlog, (Prod.mk.inj hout).2, always_unconfused_iff hopen hrun⟩

def crossing : List SessionEvent :=
  [.command subMsg [0x75] true, .other (.udp 0 0 [0x74] fun _ => 0), .serve, .receive]

/-- The header of the packet is taken for the answer. -/
theorem crossing_confused : ∃ log₀ h, Run History.Step History.start log₀ h ∧
    5 ∈ h.server.readFds ∧ ∃ log s, Run (Step 5) (start h.server) log s ∧
      log.map Prod.snd = crossing ∧ s.answered = [(subMsg, .confirmed)] ∧
      s.printed = [.outcome subMsg .unexpected] ∧ ¬ Run.Always Unconfused log s := by
  obtain ⟨log₀, h, hrun₀, hopen, log, s, hrun, hlog, hout⟩ := run_after_arrival
    crossing ([.outcome subMsg .unexpected], [(subMsg, .confirmed)]) (by decide)
  obtain ⟨hprinted, hanswered⟩ := Prod.mk.inj hout
  refine ⟨log₀, h, hrun₀, hopen, log, s, hrun, hlog, hanswered, hprinted, fun hall => ?_⟩
  obtain ⟨mode, prints, -, hshown⟩ := hall.2
  have houtcomes := hshown.outcomes
  rw [hprinted, hanswered] at houtcomes
  exact absurd (List.cons.inj houtcomes).1 (by decide)

end Session

end PCom.PubSub
