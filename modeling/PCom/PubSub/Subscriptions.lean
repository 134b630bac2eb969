import PCom.PubSub.Registry

/-! Who is subscribed to what: the topics of each client and the clients of each topic. -/

namespace PCom.PubSub

open Lib

namespace Server

def subs (s : Server) (id : Str) : Option (Str → Option Bool) := (s.clients id).map (·.topics)

def Subscribed (s : Server) (id topic : Str) : Prop :=
  ∃ topics, s.subs id = some topics ∧ (topics topic).isSome = true

/-- The two indexes agree, and no client is listed twice. -/
structure Indexed (s : Server) : Prop where
  agree : ∀ topic id, id ∈ s.topicToClients topic ↔ s.Subscribed id topic
  nodup : ∀ topic, (s.topicToClients topic).Nodup

structure SameSubscriptions (s s' : Server) : Prop where
  topicToClients : s'.topicToClients = s.topicToClients
  subs : s'.subs = s.subs

theorem SameSubscriptions.rfl {s : Server} : SameSubscriptions s s := ⟨Eq.refl _, Eq.refl _⟩

theorem SameSubscriptions.trans {s₁ s₂ s₃ : Server} (h : SameSubscriptions s₁ s₂)
    (h' : SameSubscriptions s₂ s₃) : SameSubscriptions s₁ s₃ :=
  ⟨h'.topicToClients.trans h.topicToClients, h'.subs.trans h.subs⟩

theorem Indexed.of_same {s s' : Server} (h : Indexed s) (hsame : SameSubscriptions s s') :
    Indexed s' where
  agree topic id := by
    rw [hsame.topicToClients, Subscribed, hsame.subs]
    exact h.agree topic id
  nodup topic := by
    rw [hsame.topicToClients]
    exact h.nodup topic

@[simp] theorem subs_setClient (s : Server) (id : Str) (cl : Client) :
    (s.setClient id cl).subs = Function.update s.subs id (some cl.topics) := by
  funext id'
  by_cases h : id' = id
  · subst h
    simp [subs, setClient]
  · simp [subs, setClient, Function.update_of_ne h]

theorem sameSubscriptions_setClient {s : Server} {id : Str} {cl cl' : Client}
    (h : s.clients id = some cl) (htopics : cl'.topics = cl.topics) :
    SameSubscriptions s (s.setClient id cl') := by
  refine ⟨Eq.refl _, ?_⟩
  rw [subs_setClient, htopics, Function.update_eq_self_iff]
  simp [subs, h]

theorem topicHasSf_topics {cl : Client} {topic : Str} (h : (cl.topics topic).isSome = true) :
    (cl.topicHasSf topic).2.topics = cl.topics := by
  obtain ⟨sf, hsf⟩ := Option.isSome_iff_exists.mp h
  rw [Client.topicHasSf, Client.subscribe, Function.update_eq_self_iff, hsf]
  rfl

theorem missed_topics {cl : Client} {pkt : Packet}
    (h : (cl.topics pkt.topicStr).isSome = true) : (cl.missed pkt).topics = cl.topics := by
  have htopics := topicHasSf_topics h
  rw [Client.missed]
  split
  · exact htopics
  · exact htopics

theorem publishTo_subscriptions {uninit : Nat → Nat} {pkt : Packet} {n : Nat} {ids : List Str}
    {s s' : Server} {sent : List Send} (h : publishTo uninit pkt n ids s = .ok (s', sent))
    (hids : ∀ id ∈ ids, s.Subscribed id pkt.topicStr) : SameSubscriptions s s' := by
  induction ids generalizing n s sent with
  | nil =>
    cases h
    exact .rfl
  | cons id ids ih =>
    obtain ⟨⟨topics, hsubs, hsome⟩, hrest⟩ := List.forall_mem_cons.mp hids
    obtain ⟨cl, hcl, ⟨-, -, rest, hloop, -⟩ | ⟨-, hloop⟩⟩ := publishTo_cons h
    · exact ih hloop hrest
    · rw [subs, hcl] at hsubs
      obtain rfl := Option.some.inj hsubs
      have hsame := sameSubscriptions_setClient hcl (missed_topics hsome)
      refine hsame.trans (ih hloop fun id' hid' => ?_)
      rw [Subscribed, hsame.subs]
      exact hrest id' hid'

theorem udpBranch_subscriptions {s s' : Server} {ip : Word32} {port : Word16} {bytes : List Byte}
    {uninit : Nat → Nat} {sent : List Send} (hidx : Indexed s)
    (h : s.udpBranch ip port bytes uninit = .ok (s', sent)) : SameSubscriptions s s' :=
  publishTo_subscriptions h fun id hid => (hidx.agree _ id).mp hid

theorem stdinBranch_subscriptions {s s' : Server} {word : Str} {sent : List Send}
    (h : s.stdinBranch word = .ok (s', sent)) : SameSubscriptions s s' := by
  unfold stdinBranch at h
  split at h
  · cases h
  · cases h
    exact .rfl

theorem Accepts.subscriptions {s s' : Server} {fd : Nat} {bytes : List Byte} {sent : List Send}
    (h : Accepts s fd bytes s' sent) :
    SameSubscriptions s s' ∨ ∃ id, s.subs id = none ∧ s'.topicToClients = s.topicToClients ∧
      s'.subs = Function.update s.subs id (some fun _ => none) := by
  cases h with
  | silent => exact .inl ⟨rfl, rfl⟩
  | duplicate => exact .inl ⟨rfl, rfl⟩
  | @returning cl _ _ _ hcl =>
    have htopics : (cl.reconnect fd).topics = cl.topics := rfl
    exact .inl ⟨rfl, (sameSubscriptions_setClient hcl htopics).subs⟩
  | fresh _ hnone =>
    exact .inr ⟨payloadStr (received bytes), by simp [subs, hnone], rfl, subs_setClient _ _ _⟩

/-- A request of client `id` that was granted: its entry for `topic` becomes `entry`. -/
structure Grants (s s' : Server) (id topic : Str) (entry : Option Bool) : Prop where
  known : ∃ topics, s.subs id = some topics ∧
    s'.subs = Function.update s.subs id (some (Function.update topics topic entry))
  listed : s'.topicToClients = Function.update s.topicToClients topic
    (if entry.isSome then (s.topicToClients topic).insert id else (s.topicToClients topic).erase id)

theorem grants_of_clients {s : Server} {i : Nat} {cl : Client} (topic : Str) (entry : Option Bool)
    (hcl : s.clients (s.idOf i) = some cl) :
    Grants s { (s.lookedUp i).setClient (s.idOf i)
        { cl with topics := Function.update cl.topics topic entry } with
      topicToClients := Function.update s.topicToClients topic
        (if entry.isSome then (s.topicToClients topic).insert (s.idOf i)
        else (s.topicToClients topic).erase (s.idOf i)) } (s.idOf i) topic entry :=
  ⟨⟨cl.topics, by simp [subs, hcl], subs_setClient _ _ _⟩, rfl⟩

theorem Handles.subscriptions {s s' : Server} {i : Nat} {bytes : List Byte} {sent : List Send}
    (h : Handles s i bytes s' sent) : SameSubscriptions s s' ∨
      ∃ entry, Asks bytes entry ∧ Grants s s' (s.idOf i) (payloadStr (received bytes)) entry := by
  cases h with
  | ignored => exact .inl .rfl
  | @closed cl _ hcl =>
    have htopics : cl.disconnect.topics = cl.topics := rfl
    exact .inl ⟨rfl, (sameSubscriptions_setClient hcl htopics).subs⟩
  | refused => exact .inl ⟨rfl, rfl⟩
  | granted hasks hcl => exact .inr ⟨_, hasks, grants_of_clients _ _ hcl⟩

theorem Indexed.granted {s s' : Server} {id topic : Str} {entry : Option Bool} (hidx : Indexed s)
    (h : Grants s s' id topic entry) : Indexed s' := by
  obtain ⟨⟨topics, hsubs, hsubs'⟩, hlist⟩ := h
  refine ⟨fun t id' => ?_, fun t => ?_⟩
  · have hold := hidx.agree t id'
    rw [Subscribed, hsubs', hlist]
    by_cases hid : id' = id
    · subst hid
      rw [Function.update_self]
      by_cases ht : t = topic
      · subst ht
        rw [Function.update_self]
        cases entry with
        | none => simp [(hidx.nodup t).mem_erase_iff]
        | some sf => simp
      · rw [Function.update_of_ne ht, hold, Subscribed, hsubs]
        simp [Function.update_of_ne ht]
    · rw [Function.update_of_ne hid]
      by_cases ht : t = topic
      · subst ht
        rw [Function.update_self]
        have hmem : id' ∈ (if entry.isSome then (s.topicToClients t).insert id
            else (s.topicToClients t).erase id) ↔ id' ∈ s.topicToClients t := by
          split
          · rw [List.mem_insert_iff]
            simp [hid]
          · exact List.mem_erase_of_ne hid
        rw [hmem, hold, Subscribed]
      · rw [Function.update_of_ne ht, hold, Subscribed]
  · rw [hlist]
    by_cases ht : t = topic
    · subst ht
      rw [Function.update_self]
      split
      · exact (hidx.nodup t).insert
      · exact (hidx.nodup t).erase _
    · rw [Function.update_of_ne ht]
      exact hidx.nodup t

theorem Indexed.init : Indexed init :=
  ⟨fun _ _ => by simp [Server.init, Subscribed, subs], fun _ => List.nodup_nil⟩

theorem Indexed.handle {s s' : Server} {e : Event} {sent : List Send} (hidx : Indexed s)
    (h : s.handle e = .ok (s', sent)) : Indexed s' := by
  cases e with
  | stdin word => exact hidx.of_same (stdinBranch_subscriptions h)
  | udp ip port bytes uninit => exact hidx.of_same (udpBranch_subscriptions hidx h)
  | accept fd bytes uninit =>
    rcases (acceptBranch_cases h).subscriptions with hsame | ⟨id, hnew, hlist, hsubs⟩
    · exact hidx.of_same hsame
    · refine ⟨fun t id' => ?_, fun t => hlist ▸ hidx.nodup t⟩
      rw [hlist, hidx.agree, Subscribed, Subscribed, hsubs]
      by_cases hid : id' = id
      · subst hid
        simp [hnew]
      · rw [Function.update_of_ne hid]
  | recv i bytes =>
    rcases (recvBranch_cases h).subscriptions with hsame | ⟨entry, -, hgrant⟩
    · exact hidx.of_same hsame
    · exact hidx.granted hgrant

end Server

theorem History.indexed {log : List (History × Event)} {h : History}
    (hrun : Run History.Step History.start log h) : h.server.Indexed :=
  hrun.invariant (fun h => h.server.Indexed) .init fun hidx hstep => by
    obtain ⟨-, ⟨sent, hok⟩, -⟩ := hstep
    exact hidx.handle hok

namespace Server

def entry (s : Server) (id topic : Str) : Option Bool := (s.subs id).bind (· topic)

/-- The answer to a request on descriptor `i` tells what became of the one entry it is about. -/
structure AnswersRequest (s : Server) (i : Nat) (bytes : List Byte) (s' : Server)
    (sent : List Send) : Prop where
  other : ∀ id topic, (id, topic) ≠ (s.idOf i, payloadStr (received bytes)) →
    s'.entry id topic = s.entry id topic
  confirmed : sent = [⟨i, protoMsg confMsg []⟩] ↔
    s'.entry (s.idOf i) (payloadStr (received bytes)) ≠
      s.entry (s.idOf i) (payloadStr (received bytes))
  refused : sent = [⟨i, protoMsg errMsg []⟩] ↔ SameSubscriptions s s'

/-- A request changes one entry or none, and nothing else changes any. -/
structure Atomic (s : Server) (e : Event) (s' : Server) (sent : List Send) : Prop where
  request : ∀ i bytes entry, e = .recv i bytes → Asks bytes entry →
    AnswersRequest s i bytes s' sent
  other : (∀ i bytes entry, e = .recv i bytes → ¬ Asks bytes entry) →
    ∀ id topic, s'.entry id topic = s.entry id topic

theorem SameSubscriptions.entry {s s' : Server} (h : SameSubscriptions s s') (id topic : Str) :
    s'.entry id topic = s.entry id topic := by
  rw [Server.entry, Server.entry, h.subs]

theorem Grants.entry_self {s s' : Server} {id topic : Str} {entry : Option Bool}
    (h : Grants s s' id topic entry) : s'.entry id topic = entry := by
  obtain ⟨topics, -, hsubs⟩ := h.known
  simp [Server.entry, hsubs]

theorem Grants.entry_of_ne {s s' : Server} {id id' topic topic' : Str} {entry : Option Bool}
    (h : Grants s s' id topic entry) (hne : (id', topic') ≠ (id, topic)) :
    s'.entry id' topic' = s.entry id' topic' := by
  obtain ⟨topics, hold, hsubs⟩ := h.known
  rw [Server.entry, Server.entry, hsubs]
  by_cases hid : id' = id
  · subst hid
    have htopic : topic' ≠ topic := fun heq => hne (by rw [heq])
    simp [hold, htopic]
  · simp [hid]

theorem confirmation_ne_error (i : Nat) :
    ([⟨i, protoMsg confMsg []⟩] : List Send) ≠ [⟨i, protoMsg errMsg []⟩] := by
  have hbytes : protoMsg confMsg [] ≠ protoMsg errMsg [] := by decide
  simp [hbytes]

theorem Handles.answersRequest {s s' : Server} {i : Nat} {bytes : List Byte} {sent : List Send}
    {asked : Option Bool} (h : Handles s i bytes s' sent) (hasks : Asks bytes asked) :
    AnswersRequest s i bytes s' sent := by
  have hne := confirmation_ne_error i
  cases h with
  | ignored hnot => exact absurd hasks.isRequest hnot
  | closed hnil => exact absurd hnil hasks.ne_nil
  | refused =>
    have hsame : SameSubscriptions s (s.lookedUp i) := ⟨rfl, rfl⟩
    refine ⟨fun id topic _ => hsame.entry id topic, ?_, iff_of_true rfl hsame⟩
    exact iff_of_false hne.symm fun hchanged => hchanged (hsame.entry _ _)
  | @granted cl entry hasks' hcl hnew =>
    have hgrant := grants_of_clients (payloadStr (received bytes)) entry hcl
    have hold : s.entry (s.idOf i) (payloadStr (received bytes)) ≠ entry := by
      simpa [Server.entry, subs, hcl] using hnew
    have hchanged := hgrant.entry_self
    refine ⟨fun id topic hother => hgrant.entry_of_ne hother, iff_of_true rfl ?_, ?_⟩
    · rw [hchanged]
      exact hold.symm
    · refine iff_of_false hne fun hsame => hold ?_
      rw [← hsame.entry, hchanged]

theorem Accepts.entry {s s' : Server} {fd : Nat} {bytes : List Byte} {sent : List Send}
    (h : Accepts s fd bytes s' sent) (id topic : Str) : s'.entry id topic = s.entry id topic := by
  rcases h.subscriptions with hsame | ⟨new, hnone, -, hsubs⟩
  · exact hsame.entry id topic
  · rw [Server.entry, Server.entry, hsubs]
    by_cases hid : id = new
    · subst hid
      simp [hnone]
    · simp [hid]

theorem Indexed.atomic {s s' : Server} {e : Event} {sent : List Send} (hidx : Indexed s)
    (h : s.handle e = .ok (s', sent)) : Atomic s e s' sent := by
  constructor
  · rintro i bytes asked rfl hasks
    exact (recvBranch_cases h).answersRequest hasks
  · intro hnot id topic
    cases e with
    | stdin word => exact (stdinBranch_subscriptions h).entry id topic
    | udp ip port bytes uninit => exact (udpBranch_subscriptions hidx h).entry id topic
    | accept fd bytes uninit => exact (acceptBranch_cases h).entry id topic
    | recv i bytes =>
      rcases (recvBranch_cases h).subscriptions with hsame | ⟨asked, hasks, -⟩
      · exact hsame.entry id topic
      · exact absurd hasks (hnot i bytes asked rfl)

end Server

/-- In every state a run reaches the two indexes agree, and whatever comes next changes the entry
of a request or nothing. -/
theorem History.subscriptions_atomic {log : List (History × Event)} {h : History}
    (hrun : Run History.Step History.start log h) :
    (∀ id cl, h.server.clients id = some cl → ∀ topic,
      id ∈ h.server.topicToClients topic ↔ cl.clientHasTopic topic = true) ∧
      ∀ e server sent, h.server.handle e = .ok (server, sent) → h.server.Atomic e server sent := by
  have hidx := History.indexed hrun
  refine ⟨fun id cl hcl topic => ?_, fun e server sent hok => hidx.atomic hok⟩
  rw [hidx.agree, Server.Subscribed, Server.subs, hcl]
  simp [Client.clientHasTopic]

def History.subscribing : List Event :=
  [.accept 5 (idRequest [65]) fun _ => 0, .recv 5 (subsRequest subMsg [116] true)]

theorem History.subscribing_run : ∃ log h, Run History.Step History.start log h ∧
    log.map Prod.snd = History.subscribing ∧ h.server.entry [65] [116] = some true := by
  have hplay : (History.start.play History.subscribing).map
      (fun h => h.server.entry [65] [116]) = some (some true) := by decide
  obtain ⟨h, hh, hval⟩ := Option.map_eq_some_iff.mp hplay
  obtain ⟨log, hrun, hlog⟩ := History.run_of_play .nil hh
  exact ⟨log, h, hrun, hlog, hval⟩

theorem History.subscriptions_atomic_subscribing : ∃ log h, Run History.Step History.start log h ∧
    log.map Prod.snd = History.subscribing ∧
    (∀ id cl, h.server.clients id = some cl → ∀ topic,
      id ∈ h.server.topicToClients topic ↔ cl.clientHasTopic topic = true) ∧
    ∀ e server sent, h.server.handle e = .ok (server, sent) → h.server.Atomic e server sent := by
  obtain ⟨log, h, hrun, hlog, -⟩ := History.subscribing_run
  exact ⟨log, h, hrun, hlog, History.subscriptions_atomic hrun⟩

end PCom.PubSub
