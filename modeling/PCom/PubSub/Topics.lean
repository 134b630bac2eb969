import PCom.PubSub.Subscriptions

/-! The topic as the three kinds of message spell it. -/

namespace PCom.PubSub

open Lib

/-- The topics a subscriber accepts: they fit the field and are C strings. -/
structure IsTopic (topic : Str) : Prop where
  pos : 0 < topic.length
  length_le : topic.length ≤ topicLen
  no_zero : 0#8 ∉ topic

/-- A field with the topic in it, with any bytes behind the terminator if there is one. -/
structure IsField (topic : Str) (field : List Byte) : Prop where
  length_eq : field.length = topicLen
  cstr_eq : cstr field = topic

def datagram (field : List Byte) (dataType : Byte) (content : List Byte) : List Byte :=
  field ++ dataType :: content

theorem payloadStr_subsRequest {topic : Str} (h : IsTopic topic) (type : Byte) (sf : Bool) :
    payloadStr (received (subsRequest type topic sf)) =
      topic ++ if topic.length < topicLen ∨ sf = false then [] else [1#8] := by
  rw [payloadStr_received, subsRequest, protoMsg, cstr_drop_zeroPad, List.drop_one, List.tail_cons,
    cstr_zeroPad_append h.no_zero h.length_le]
  by_cases hlen : topic.length < topicLen
  · simp [hlen]
  · cases sf <;> simp [hlen, cstr]

theorem payloadSf_subsRequest {topic : Str} (h : IsTopic topic) (type : Byte) (sf : Bool) :
    payloadSf (received (subsRequest type topic sf)) = sf := by
  have hlen := length_zeroPad h.length_le
  rw [payloadSf_received, subsRequest, protoMsg, getD_zeroPad, Nat.add_comm, List.getD_cons_succ,
    List.getD_eq_getElem?_getD, List.getElem?_append_right hlen.le, hlen]
  cases sf <;> simp

theorem topicStr_ofDatagram (ip : Word32) (port : Word16) (bytes : List Byte) :
    (Packet.ofDatagram ip port bytes).topicStr = cstr (bytes.take udpPacketLen) := cstr_zeroPad _ _

theorem topicStr_datagram {topic : Str} {field : List Byte} (h : IsField topic field) (ip : Word32)
    (port : Word16) (dataType : Byte) {content : List Byte} (hcontent : content.length ≤ contentLen) :
    (Packet.ofDatagram ip port (datagram field dataType content)).topicStr =
      topic ++ if topic.length < topicLen ∨ dataType = 0 then [] else dataType :: cstr content := by
  obtain ⟨hlength, rfl⟩ := h
  have hlen : (datagram field dataType content).length ≤ udpPacketLen := by
    rw [datagram, List.length_append, hlength, List.length_cons]
    simp only [topicLen, contentLen, udpPacketLen] at *
    omega
  rw [topicStr_ofDatagram, List.take_of_length_le hlen, datagram]
  by_cases hzero : 0#8 ∈ field
  · have hshort : (cstr field).length < topicLen := hlength ▸ strlen_lt_of_mem hzero
    rw [cstr_append_of_mem hzero, if_pos (.inl hshort), List.append_nil]
  · rw [cstr_append_of_not_mem hzero, cstr_of_not_mem hzero, hlength]
    by_cases htype : dataType = 0#8
    · simp [htype]
    · simp [htype, cstr_cons_of_ne htype]

/-- A packet whose data type is one of the four. -/
def Packet.Typed (pkt : Packet) : Prop := pkt.dataType.toNat ≤ 3

theorem Packet.Typed.cases {pkt : Packet} (h : pkt.Typed) :
    pkt.dataType = 0 ∨ pkt.dataType = 1 ∨ pkt.dataType = 2 ∨ pkt.dataType = 3 := by
  unfold Packet.Typed at h
  simp only [← BitVec.toNat_inj]
  change pkt.dataType.toNat = 0 ∨ pkt.dataType.toNat = 1 ∨ pkt.dataType.toNat = 2 ∨
    pkt.dataType.toNat = 3
  omega

theorem contentSize_of_typed {pkt : Packet} (h : pkt.Typed) (uninit : Nat) :
    pkt.contentSize uninit = pkt.contentSize 0 := by
  rcases h.cases with htype | htype | htype | htype <;> simp [Packet.contentSize, htype]

theorem header_of_typed {pkt : Packet} (h : pkt.Typed) (uninit : Nat) :
    pkt.header uninit = pkt.header 0 := by
  rw [Packet.header, Packet.header, Packet.sizes, Packet.sizes, contentSize_of_typed h]

theorem body_of_typed {pkt : Packet} (h : pkt.Typed) (uninit : Nat) :
    pkt.body uninit = pkt.body 0 := by
  rw [Packet.body, Packet.body, contentSize_of_typed h]

namespace Server

def isConnected (s : Server) (id : Str) : Bool := (s.link id).any (·.1)

def deliver (s : Server) (pkt : Packet) (id : Str) : List Send :=
  (s.link id).elim [] fun l => [⟨l.2, pkt.header 0⟩, ⟨l.2, pkt.body 0⟩]

/-- The clients that a packet on `topic` is sent to, in the order of the loop. -/
def recipients (s : Server) (topic : Str) : List Str :=
  (s.topicToClients topic).filter s.isConnected

theorem flatMap_copies {uninit : Nat → Nat} {pkt : Packet} (htyped : pkt.Typed) (s : Server)
    (n : Nat) (ids : List Str) :
    (s.copies uninit n ids).flatMap (fun c => [⟨c.1, pkt.header c.2⟩, ⟨c.1, pkt.body c.2⟩])
      = (ids.filter s.isConnected).flatMap (s.deliver pkt) := by
  induction ids generalizing n with
  | nil => rfl
  | cons id ids ih =>
    cases hlink : s.link id with
    | none =>
      rw [copies, hlink, List.filter_cons_of_neg (by simp [isConnected, hlink])]
      exact ih _
    | some l =>
      obtain ⟨conn, fd⟩ := l
      cases conn with
      | false =>
        rw [copies, hlink, List.filter_cons_of_neg (by simp [isConnected, hlink])]
        exact ih _
      | true =>
        rw [copies, hlink, List.filter_cons_of_pos (by simp [isConnected, hlink]),
          List.flatMap_cons, List.flatMap_cons, ih, header_of_typed htyped, body_of_typed htyped]
        simp [deliver, hlink]

theorem typed_contentSize_le {pkt : Packet} (h : pkt.Typed) (uninit : Nat) :
    pkt.contentSize uninit ≤ contentLen + 3 := by
  rw [contentSize_of_typed h]
  unfold Packet.contentSize
  have : contentLen = 1500 := rfl
  repeat' split
  all_goals omega

theorem publishTo_total {uninit : Nat → Nat} {pkt : Packet} (htyped : pkt.Typed) {n : Nat}
    {ids : List Str} {s : Server} (hids : ∀ id ∈ ids, ∃ c fd, s.link id = some (c, fd) ∧
      (c = true → fd ∈ s.readFds)) : ∃ r, publishTo uninit pkt n ids s = .ok r := by
  induction ids generalizing n s with
  | nil => exact ⟨_, rfl⟩
  | cons id ids ih =>
    obtain ⟨c, fd, hlink, hopen⟩ := hids id List.mem_cons_self
    obtain ⟨cl, hcl, hc, hf⟩ := History.link_eq_some_iff.mp hlink
    have hrest : ∀ id ∈ ids, ∃ c fd, s.link id = some (c, fd) ∧ (c = true → fd ∈ s.readFds) :=
      fun id' hid' => hids id' (List.mem_cons_of_mem _ hid')
    simp only [publishTo, hcl]
    split
    next hconn =>
      have hfd : cl.fd ∈ s.readFds := hf ▸ hopen (hc ▸ hconn)
      have hsize := not_lt.mpr (typed_contentSize_le htyped (uninit n))
      obtain ⟨⟨s', rest⟩, hloop⟩ := ih hrest (n := n + 1)
      refine ⟨(s', [⟨cl.fd, pkt.header (uninit n)⟩, ⟨cl.fd, pkt.body (uninit n)⟩] ++ rest), ?_⟩
      simp [sendPacket, hsize, send, hfd, hloop, pure_eq_ok]
    next =>
      have hgo {cl' : Client} (hc' : cl'.connected = cl.connected) (hf' : cl'.fd = cl.fd) :
          ∃ r, publishTo uninit pkt (n + 1) ids (s.setClient id cl') = .ok r := by
        have hsame := sameRegistry_setClient hcl hc' hf'
        refine ih fun id' hid' => ?_
        rw [hsame.link, hsame.readFds]
        exact hrest id' hid'
      split
      · exact hgo rfl rfl
      · exact hgo rfl rfl

theorem Handles.entry {s s' : Server} {i : Nat} {bytes : List Byte} {sent : List Send}
    {entry : Option Bool} (h : Handles s i bytes s' sent) (hasks : Asks bytes entry) :
    ∃ topics, s'.subs (s.idOf i) = some topics ∧ topics (payloadStr (received bytes)) = entry := by
  cases h with
  | ignored hnot => exact absurd hasks.isRequest hnot
  | closed hnil => exact absurd hnil hasks.ne_nil
  | @refused cl entry' hasks' hcl htopic =>
    obtain rfl := hasks.unique hasks'
    exact ⟨cl.topics, by simp [subs, lookedUp, hcl], htopic⟩
  | @granted cl entry' hasks' hcl =>
    obtain rfl := hasks.unique hasks'
    exact ⟨Function.update cl.topics (payloadStr (received bytes)) entry, by simp [subs, setClient],
      Function.update_self _ _ _⟩

end Server

/-- The three messages mean the same topic to the server, in every state it can reach. -/
structure TopicAgreement (topic : Str) (sf : Bool) (ip : Word32) (port : Word16)
    (field : List Byte) (dataType : Byte) (content : List Byte) : Prop where
  subKey : payloadStr (received (subsRequest subMsg topic sf)) = topic
  unsubKey : payloadStr (received (subsRequest unsubMsg topic false)) = topic
  udpKey : (Packet.ofDatagram ip port (datagram field dataType content)).topicStr = topic
  /-- A subscriber that asked for the topic has it. -/
  subscribes : ∀ {log h}, Run History.Step .start log h → ∀ i s' sent,
    h.server.handle (.recv i (subsRequest subMsg topic sf)) = .ok (s', sent) →
      ∃ topics, s'.subs ((h.server.fdToId i).getD []) = some topics ∧ topics topic = some sf
  unsubscribes : ∀ {log h}, Run History.Step .start log h → ∀ i s' sent,
    h.server.handle (.recv i (subsRequest unsubMsg topic false)) = .ok (s', sent) →
      ¬ s'.Subscribed ((h.server.fdToId i).getD []) topic
  /-- The datagram goes once to each connected subscriber of the topic and to no one else. -/
  delivers : ∀ {log h}, Run History.Step .start log h → ∀ uninit s' sent,
    h.server.handle (.udp ip port (datagram field dataType content) uninit) = .ok (s', sent) →
      sent = (h.server.recipients topic).flatMap
        (h.server.deliver (Packet.ofDatagram ip port (datagram field dataType content))) ∧
      ∀ id, (h.server.isConnected id = true → h.server.Subscribed id topic →
          (h.server.recipients topic).count id = 1) ∧
        (¬ h.server.Subscribed id topic → id ∉ h.server.recipients topic)
  /-- Nothing but a closed socket of a connected client keeps the server from sending it. -/
  handles : ∀ {log h}, Run History.Step .start log h →
    (∀ id c fd, h.server.link id = some (c, fd) → c = true → fd ∈ h.server.readFds) → ∀ uninit,
      ∃ r, h.server.handle (.udp ip port (datagram field dataType content) uninit) = .ok r

theorem Server.Indexed.count_recipients {s : Server} (hidx : s.Indexed) (id topic : Str) :
    (s.isConnected id = true → s.Subscribed id topic → (s.recipients topic).count id = 1) ∧
      (¬ s.Subscribed id topic → id ∉ s.recipients topic) := by
  constructor
  · intro hconn hsub
    have hmem : id ∈ s.recipients topic :=
      List.mem_filter.mpr ⟨(hidx.agree topic id).mpr hsub, hconn⟩
    exact List.count_eq_one_of_mem ((hidx.nodup topic).filter _) hmem
  · intro hsub hmem
    exact hsub ((hidx.agree topic id).mp (List.mem_filter.mp hmem).1)

theorem typed_datagram {field : List Byte} (hlen : field.length = topicLen) (ip : Word32)
    (port : Word16) {dataType : Byte} (htype : dataType.toNat ≤ 3) (content : List Byte) :
    (Packet.ofDatagram ip port (datagram field dataType content)).Typed := by
  have hfield : (Packet.ofDatagram ip port (datagram field dataType content)).dataType = dataType := by
    rw [Packet.dataType, Packet.ofDatagram, getD_zeroPad, List.getD_eq_getElem?_getD,
      List.getElem?_take_of_lt (by decide), datagram, List.getElem?_append_right hlen.le, hlen]
    simp
  rwa [Packet.Typed, hfield]

theorem keys_iff {topic : Str} (h : IsTopic topic) (sf : Bool) (ip : Word32) (port : Word16)
    {field : List Byte} (hfield : IsField topic field) (dataType : Byte) {content : List Byte}
    (hcontent : content.length ≤ contentLen) :
    (payloadStr (received (subsRequest subMsg topic sf)) = topic ∧
      payloadStr (received (subsRequest unsubMsg topic false)) = topic ∧
      (Packet.ofDatagram ip port (datagram field dataType content)).topicStr = topic) ↔
      topic.length < topicLen ∨ sf = false ∧ dataType = 0 := by
  have hsub := payloadStr_subsRequest h subMsg sf
  have hudp := topicStr_datagram hfield ip port dataType hcontent
  constructor
  · rintro ⟨hsubKey, -, hudpKey⟩
    by_contra hnot
    have hfull : ¬ topic.length < topicLen := fun hlt => hnot (.inl hlt)
    rw [hsubKey] at hsub
    rw [hudpKey] at hudp
    have hsf : sf = false := by
      by_contra hsf
      simp [hfull, hsf] at hsub
    have hzero : dataType = 0 := by
      simpa [hfull] using hudp
    exact hnot (.inr ⟨hsf, hzero⟩)
  · intro hroom
    refine ⟨?_, ?_, ?_⟩
    · rw [hsub, if_pos (hroom.imp_right And.left), List.append_nil]
    · rw [payloadStr_subsRequest h, if_pos (.inr rfl), List.append_nil]
    · rw [hudp, if_pos (hroom.imp_right And.right), List.append_nil]

theorem TopicAgreement.of_keys {topic : Str} (h : IsTopic topic) {sf : Bool} {ip : Word32}
    {port : Word16} {field : List Byte} (hfield : IsField topic field) {dataType : Byte}
    (htype : dataType.toNat ≤ 3) {content : List Byte}
    (hsubKey : payloadStr (received (subsRequest subMsg topic sf)) = topic)
    (hunsubKey : payloadStr (received (subsRequest unsubMsg topic false)) = topic)
    (hudpKey : (Packet.ofDatagram ip port (datagram field dataType content)).topicStr = topic) :
    TopicAgreement topic sf ip port field dataType content := by
  have htyped := typed_datagram hfield.length_eq ip port htype content
  refine ⟨hsubKey, hunsubKey, hudpKey, ?_, ?_, ?_, ?_⟩
  · intro log h' hrun i s' sent hok
    have hasks := Server.Asks.sub (subsRequest_ne_nil subMsg topic sf) (msgType_subsRequest _ _ _)
    have := (Server.recvBranch_cases hok).entry hasks
    rwa [hsubKey, payloadSf_subsRequest h] at this
  · intro log h' hrun i s' sent hok
    have hasks := Server.Asks.unsub (subsRequest_ne_nil unsubMsg topic false)
      (msgType_subsRequest _ _ _)
    obtain ⟨topics, hsubs, hnone⟩ := (Server.recvBranch_cases hok).entry hasks
    rw [hunsubKey] at hnone
    rintro ⟨topics', hsubs', hsome⟩
    obtain rfl := Option.some.inj (hsubs.symm.trans hsubs')
    rw [hnone] at hsome
    cases hsome
  · intro log h' hrun uninit s' sent hok
    have hsent := (Server.publishTo_sent hok).1
    rw [hudpKey, Server.flatMap_copies htyped] at hsent
    exact ⟨hsent, fun id => (History.indexed hrun).count_recipients id topic⟩
  · intro log h' hrun hopen uninit
    refine Server.publishTo_total htyped fun id hid => ?_
    obtain ⟨topics, hsubs, -⟩ := ((History.indexed hrun).agree _ id).mp hid
    obtain ⟨cl, hcl, -⟩ := Option.map_eq_some_iff.mp hsubs
    have hlink : h'.server.link id = some (cl.connected, cl.fd) := by simp [Server.link, hcl]
    exact ⟨_, _, hlink, hopen id _ _ hlink⟩

/-- Subscribing, unsubscribing and publishing agree on a topic exactly when it leaves room for its
terminator, or both bytes that may follow it are zero. -/
theorem topicAgreement_iff {topic : Str} (h : IsTopic topic) (sf : Bool) (ip : Word32)
    (port : Word16) {field : List Byte} (hfield : IsField topic field) {dataType : Byte}
    (htype : dataType.toNat ≤ 3) {content : List Byte}
    (hcontent : content.length ≤ contentLen) :
    TopicAgreement topic sf ip port field dataType content ↔
      topic.length < topicLen ∨ sf = false ∧ dataType = 0 := by
  rw [← keys_iff h sf ip port hfield dataType hcontent]
  constructor
  · intro hagree
    exact ⟨hagree.subKey, hagree.unsubKey, hagree.udpKey⟩
  · rintro ⟨hsubKey, hunsubKey, hudpKey⟩
    exact .of_keys h hfield htype hsubKey hunsubKey hudpKey

/-- A field that still has bytes of another topic behind the terminator. -/
theorem topicAgreement_iff_upb :
    TopicAgreement [0x75, 0x70, 0x62] true 0 0
        ([0x75, 0x70, 0x62, 0, 0x61] ++ List.replicate 45 0) 1 [0, 1] ↔
      [0x75#8, 0x70#8, 0x62#8].length < topicLen ∨ true = false ∧ (1 : Byte) = 0 :=
  topicAgreement_iff ⟨by decide, by decide, by decide⟩ true 0 0 ⟨by decide, by decide⟩ (by decide)
    (by decide)

/-- A topic that fills its field is subscribed to under another name when SF is on. -/
theorem fullTopic_disagrees : IsTopic (List.replicate 50 0x61) ∧
    IsField (List.replicate 50 0x61) (List.replicate 50 0x61) ∧
    ¬ TopicAgreement (List.replicate 50 0x61) true 0 0 (List.replicate 50 0x61) 0 [] := by
  have htopic : IsTopic (List.replicate 50 0x61) := ⟨by decide, by decide, by decide⟩
  refine ⟨htopic, ⟨by decide, by decide⟩, fun hagree => ?_⟩
  have hkey := (payloadStr_subsRequest htopic subMsg true).symm.trans hagree.subKey
  have hlen := congrArg List.length hkey
  simp [topicLen] at hlen

end PCom.PubSub
