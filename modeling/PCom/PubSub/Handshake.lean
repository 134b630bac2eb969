import PCom.PubSub.Subscriptions

/-! Requests from connections that never announced an ID. -/

namespace PCom.PubSub

open Lib

namespace Server

theorem send_ne_null {s : Server} {fd : Nat} {bytes : List Byte} :
    s.send fd bytes ≠ .error .nullPointer := by
  unfold send
  split <;> simp

theorem sendPacket_ne_null {s : Server} {fd uninit : Nat} {pkt : Packet} :
    s.sendPacket fd uninit pkt ≠ .error .nullPointer := by
  intro h
  unfold sendPacket at h
  split at h
  next => cases h
  next =>
    rcases bind_error h with h | ⟨msg, -, h⟩
    · exact send_ne_null h
    · rcases bind_error h with h | ⟨buffer, -, h⟩
      · exact send_ne_null h
      · cases h

theorem sendQueue_ne_null {s : Server} {fd : Nat} {uninit : Nat → Nat} {n : Nat}
    {sfQueue : List Packet} : s.sendQueue fd uninit n sfQueue ≠ .error .nullPointer := by
  induction sfQueue generalizing n with
  | nil => simp [sendQueue]
  | cons pkt sfQueue ih =>
    intro h
    rcases bind_error h with h | ⟨sent, -, h⟩
    · exact sendPacket_ne_null h
    · rcases bind_error h with h | ⟨rest, -, h⟩
      · exact ih h
      · cases h

theorem publishTo_ne_null {uninit : Nat → Nat} {pkt : Packet} {n : Nat} {ids : List Str}
    {s : Server} (hids : ∀ id ∈ ids, (s.link id).isSome = true) :
    publishTo uninit pkt n ids s ≠ .error .nullPointer := by
  induction ids generalizing n s with
  | nil => simp [publishTo]
  | cons id ids ih =>
    have hrest : ∀ id ∈ ids, (s.link id).isSome = true :=
      fun id' hid' => hids id' (List.mem_cons_of_mem _ hid')
    have hsome := hids id List.mem_cons_self
    rw [link, Option.isSome_map] at hsome
    obtain ⟨cl, hcl⟩ := Option.isSome_iff_exists.mp hsome
    simp only [publishTo, hcl]
    split
    next =>
      intro h
      rcases bind_error h with h | ⟨sent, -, h⟩
      · exact sendPacket_ne_null h
      · rcases bind_error h with h | ⟨r, -, h⟩
        · exact ih hrest h
        · cases h
    next =>
      have hgo {cl' : Client} (hc : cl'.connected = cl.connected) (hf : cl'.fd = cl.fd) :
          publishTo uninit pkt (n + 1) ids (s.setClient id cl') ≠ .error .nullPointer := by
        refine ih fun id' hid' => ?_
        rw [(sameRegistry_setClient hcl hc hf).link]
        exact hrest id' hid'
      split
      · exact hgo rfl rfl
      · exact hgo rfl rfl

theorem acceptBranch_ne_null {s : Server} {fd : Nat} {bytes : List Byte} {uninit : Nat → Nat} :
    s.acceptBranch fd bytes uninit ≠ .error .nullPointer := by
  intro h
  simp only [acceptBranch] at h
  split at h
  next =>
    split at h
    next =>
      split at h
      next =>
        rcases bind_error h with h | ⟨sent, -, h⟩
        · exact send_ne_null h
        · cases h
      next =>
        rcases bind_error h with h | ⟨sent, -, h⟩
        · exact sendQueue_ne_null h
        · cases h
    next => cases h
  next => cases h

theorem recvBranch_ne_null {s : Server} {i : Nat} {bytes : List Byte}
    (h : (s.clients ((s.fdToId i).getD [])).isSome = true) :
    s.recvBranch i bytes ≠ .error .nullPointer := by
  obtain ⟨cl, hcl⟩ := Option.isSome_iff_exists.mp h
  have hof : s.clientOf i = .ok ((s.fdToId i).getD [], cl,
      { s with fdToId := Function.update s.fdToId i (some ((s.fdToId i).getD [])) }) := by
    simp [clientOf, hcl]
  have hreply {s₁ : Server} {type : Byte} {f : Send → Server × List Send} :
      (do let msg ← s₁.sendMsg i type; return f msg) ≠ Except.error Stop.nullPointer := by
    intro h
    rcases bind_error h with h | ⟨msg, -, h⟩
    · exact send_ne_null h
    · cases h
  simp only [recvBranch, hof]
  split
  next => simp [pure_eq_ok]
  next =>
    split
    next =>
      change (if _ then _ else _) ≠ _
      split
      · exact hreply
      · exact hreply
    next =>
      split
      next =>
        change (if _ then _ else _) ≠ _
        split
        · exact hreply
        · exact hreply
      next => simp

end Server

namespace History

/-- The client that the server looks up for descriptor `i` is there, and this very connection
registered it. -/
def OwnClient (h : History) (i : Nat) : Prop :=
  ∃ id cl, (h.server.fdToId i).getD [] = id ∧ h.server.clients id = some cl ∧
    h.announced i = some id ∧ cl.connected = true ∧ cl.fd = i

/-- A client that comes back does not have a descriptor that now belongs to another connection,
and only connections that announced an ID close, subscribe or unsubscribe. -/
def Orderly (h : History) : Event → Prop
  | .recv i bytes => Server.IsRequest bytes → h.announced i ≠ none
  | e => Harmless h e

theorem Orderly.harmless {h : History} {e : Event} (he : Orderly h e) : Harmless h e := by
  cases e with
  | recv i bytes => exact fun hb hnone => absurd hnone (he (.inl hb))
  | _ => exact he

theorem Inv.ownClient {h : History} (hinv : Inv h) {i : Nat} (hi : h.announced i ≠ none) :
    OwnClient h i := by
  obtain ⟨id, hid⟩ := Option.ne_none_iff_exists'.mp hi
  obtain ⟨hmap, cl, hcl, hconn, hfd⟩ := hinv.registered.mapped i id hid
  exact ⟨id, cl, by rw [hmap]; rfl, hcl, hid, hconn, hfd⟩

theorem Inv.ne_null {h : History} (hinv : Inv h) (hidx : h.server.Indexed) {e : Event}
    (he : Orderly h e) : h.server.handle e ≠ .error .nullPointer := by
  cases e with
  | stdin word =>
    simp only [Server.handle, Server.stdinBranch]
    split <;> simp
  | udp ip port bytes uninit =>
    refine Server.publishTo_ne_null fun id hid => ?_
    obtain ⟨topics, hsubs, -⟩ := (hidx.agree _ id).mp hid
    obtain ⟨cl, hcl, -⟩ := Option.map_eq_some_iff.mp hsubs
    simp [Server.link, hcl]
  | accept fd bytes uninit => exact Server.acceptBranch_ne_null
  | recv i bytes =>
    by_cases hreq : Server.IsRequest bytes
    · obtain ⟨id, cl, hid, hcl, -⟩ := hinv.ownClient (he hreq)
      refine Server.recvBranch_ne_null ?_
      rw [hid, hcl]
      rfl
    · change h.server.recvBranch i bytes ≠ _
      rw [Server.recvBranch_of_not_isRequest hreq]
      simp

/-- In a run whose steps are all orderly, every close, subscribe and unsubscribe acts on the
client of its own connection, a connection without an ID changes nothing at all, and no step that
can follow dereferences a null pointer. -/
theorem requests_resolved {log : List (History × Event)} {h : History} (hrun : Run Step start log h)
    (hguard : Run.Guarded Orderly log) :
    (∀ x ∈ log, ∀ i bytes, x.2 = .recv i bytes → Server.IsRequest bytes → OwnClient x.1 i) ∧
    (∀ x ∈ log, ∀ i bytes, x.2 = .recv i bytes → x.1.announced i = none →
      x.1.server.handle x.2 = .ok (x.1.server, [])) ∧
    ∀ e, Orderly h e → h.server.handle e ≠ .error .nullPointer := by
  have hharmless : Run.Guarded Harmless log := fun x hx => (hguard x hx).harmless
  have hinv : Run.Always Inv log h := Run.always_of_guarded Inv.start Inv.step hrun hharmless
  refine ⟨?_, ?_, ?_⟩
  · rintro ⟨h', e⟩ hx i bytes rfl hreq
    exact (hinv.1 _ hx).ownClient (hguard _ hx hreq)
  · rintro ⟨h', e⟩ hx i bytes rfl hnone
    have hreq : ¬ Server.IsRequest bytes := fun hreq => hguard _ hx hreq hnone
    exact Server.recvBranch_of_not_isRequest hreq
  · intro e he
    exact hinv.2.ne_null (indexed hrun) he

def orderly (h : History) : Event → Bool
  | .accept _ bytes _ => (h.server.accepted bytes).all fun id =>
      (h.server.clients id).all fun cl => (h.announced cl.fd).isNone
  | .recv i bytes => bytes ≠ [] ∧ msgType (received bytes) ≠ subMsg ∧
      msgType (received bytes) ≠ unsubMsg ∨ (h.announced i).isSome
  | _ => true

theorem orderly_iff {h : History} {e : Event} : h.orderly e = true ↔ Orderly h e := by
  cases e with
  | stdin word | udp ip port bytes uninit => exact iff_of_true rfl trivial
  | accept fd bytes uninit =>
    simp only [orderly, Option.all_eq_true, Option.isNone_iff_eq_none]
    exact ⟨fun h id cl hid hcl => h id hid cl hcl, fun h id hid cl hcl => h id cl hid hcl⟩
  | recv i bytes =>
    simp only [orderly, Orderly, Server.IsRequest, decide_eq_true_eq, Option.isSome_iff_ne_none]
    tauto

/-- A turn of the loop that is orderly and goes well. -/
def orderlyNext (h : History) (e : Event) : Option History :=
  if h.orderly e then h.play [e] else none

theorem orderlyNext_step {h h' : History} {e : Event} (hnext : h.orderlyNext e = some h') :
    Step h e h' ∧ Orderly h e := by
  rw [orderlyNext] at hnext
  split at hnext
  next he =>
    refine ⟨?_, orderly_iff.mp he⟩
    rw [play] at hnext
    split at hnext
    next hoffer =>
      split at hnext
      next server sent hok =>
        cases hnext
        exact ⟨hoffer, ⟨sent, hok⟩, rfl⟩
      next => cases hnext
    next => cases hnext
  next => cases hnext

/-- A and B connect, A subscribes, both leave while there is a datagram, and both come back. -/
def twoClients : List Event :=
  [.accept 5 (idRequest [65]) fun _ => 0, .accept 6 (idRequest [66]) fun _ => 0,
    .recv 5 (subsRequest subMsg [116] true), .recv 5 [],
    .udp 1 2 (zeroPad topicLen [116] ++ [3]) fun _ => 0, .recv 6 [],
    .accept 5 (idRequest [65]) fun _ => 0, .accept 6 (idRequest [66]) fun _ => 0]

/-- At the end of that run, B may ask for what it never had. -/
theorem requests_resolved_twoClients : ∃ log h, Run Step start log h ∧
    log.map Prod.snd = twoClients ∧
    (∀ x ∈ log, ∀ i bytes, x.2 = .recv i bytes → Server.IsRequest bytes → OwnClient x.1 i) ∧
    (∀ x ∈ log, ∀ i bytes, x.2 = .recv i bytes → x.1.announced i = none →
      x.1.server.handle x.2 = .ok (x.1.server, [])) ∧
    h.server.handle (.recv 6 (subsRequest unsubMsg [116] false)) ≠ .error .nullPointer := by
  have hplay : (twoClients.foldlM orderlyNext start).map
      (fun h => h.orderly (.recv 6 (subsRequest unsubMsg [116] false))) = some true := by
    decide +kernel
  obtain ⟨h, hh, hlast⟩ := Option.map_eq_some_iff.mp hplay
  obtain ⟨log, hrun, hlog⟩ := Run.of_foldlM orderlyNext_step Run.nil hh
  have hguard : Run.Guarded Orderly log := by
    intro x hx
    obtain ⟨h', hstep⟩ := hrun.step_of_mem hx
    exact hstep.2
  have hrun : Run Step start log h := hrun.imp fun _ _ _ hstep => hstep.1
  obtain ⟨hown, hsilent, hnext⟩ := requests_resolved hrun hguard
  exact ⟨log, h, hrun, hlog, hown, hsilent, hnext _ (orderly_iff.mp hlast)⟩

/-- A peer that connects and closes without a word makes the server dereference a null pointer. -/
theorem silent_peer_null : ∃ log h, Run Step start log h ∧
    log.map Prod.snd = [.accept 5 [] fun _ => 0] ∧ h.server.Offers (.recv 5 []) ∧
    h.server.handle (.recv 5 []) = .error .nullPointer := by
  refine ⟨_, ⟨{ Server.init with readFds := {5}, fdmax := 5 }, Function.update (fun _ => none) 5 none⟩,
    Run.nil.snoc ⟨?_, ⟨[], ?_⟩, ?_⟩, rfl, by decide, rfl⟩
  · decide
  · rfl
  · rfl

end History

end PCom.PubSub
