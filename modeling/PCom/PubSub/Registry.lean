import PCom.Lib.Runs
import PCom.PubSub.ServerLaws

/-! Which connection is registered to which client, over whole runs of the server. -/

namespace PCom.PubSub

open Lib

/-- The server, and for each open connection the ID that was accepted from it. -/
structure History where
  server : Server
  announced : Nat → Option Str

namespace History

def start : History := ⟨.init, fun _ => none⟩

def announce (h : History) : Event → Nat → Option Str
  | .accept fd bytes _ => Function.update h.announced fd (h.server.accepted bytes)
  | .recv i bytes => if bytes = [] then Function.update h.announced i none else h.announced
  | _ => h.announced

def Step (h : History) (e : Event) (h' : History) : Prop :=
  h.server.Offers e ∧ (∃ sent, h.server.handle e = .ok (h'.server, sent)) ∧
    h'.announced = h.announce e

/-- A run on given events, as far as the system can offer them and the server goes on. -/
def play (h : History) : List Event → Option History
  | [] => some h
  | e :: es =>
    if h.server.Offers e then
      match h.server.handle e with
      | .ok (server, _) => play ⟨server, h.announce e⟩ es
      | .error _ => none
    else none

theorem run_of_play {h₀ h h' : History} {log : List (History × Event)} {es : List Event}
    (hrun : Run Step h₀ log h) (hplay : h.play es = some h') :
    ∃ log', Run Step h₀ log' h' ∧ log'.map Prod.snd = log.map Prod.snd ++ es := by
  induction es generalizing h log with
  | nil =>
    obtain rfl := Option.some.inj hplay
    exact ⟨log, hrun, by simp⟩
  | cons e es ih =>
    rw [play] at hplay
    split at hplay
    next hoffer =>
      split at hplay
      next server sent hok =>
        obtain ⟨log', hrun', hlog⟩ := ih (hrun.snoc ⟨hoffer, ⟨sent, hok⟩, rfl⟩) hplay
        exact ⟨log', hrun', by simpa using hlog⟩
      next => cases hplay
    next => cases hplay

/-- Every connection whose ID was accepted is the one its client is registered with, and no two
share a client. -/
structure Registered (h : History) : Prop where
  mapped : ∀ i id, h.announced i = some id → h.server.fdToId i = some id ∧
    ∃ cl, h.server.clients id = some cl ∧ cl.connected = true ∧ cl.fd = i
  unique : ∀ i j id, h.announced i = some id → h.announced j = some id → i = j

/-- A client that comes back does not have a descriptor that now belongs to another connection,
and a connection that never announced an ID does not close in the name of one that did. -/
def Harmless (h : History) : Event → Prop
  | .accept _ bytes _ => ∀ id cl, h.server.accepted bytes = some id →
      h.server.clients id = some cl → h.announced cl.fd = none
  | .recv i bytes => bytes = [] → h.announced i = none →
      ∀ j, h.announced j ≠ some ((h.server.fdToId i).getD [])
  | _ => True

/-- `Registered` in the terms of the registry, with the sockets open. -/
structure Inv (h : History) : Prop where
  isOpen : ∀ i id, h.announced i = some id → i ∈ h.server.readFds
  fdToId : ∀ i id, h.announced i = some id → h.server.fdToId i = some id
  link : ∀ i id, h.announced i = some id → h.server.link id = some (true, i)

theorem link_eq_some_iff {s : Server} {id : Str} {c : Bool} {fd : Nat} :
    s.link id = some (c, fd) ↔ ∃ cl, s.clients id = some cl ∧ cl.connected = c ∧ cl.fd = fd := by
  simp [Server.link]

theorem Inv.registered {h : History} (hinv : Inv h) : Registered h where
  mapped i id hi := ⟨hinv.fdToId i id hi, link_eq_some_iff.mp (hinv.link i id hi)⟩
  unique i j id hi hj := by
    have := (hinv.link i id hi).symm.trans (hinv.link j id hj)
    simpa using this

theorem Inv.start : Inv start := ⟨by simp [History.start], by simp [History.start], by
  simp [History.start]⟩

theorem Inv.of_sameRegistry {h h' : History} (hinv : Inv h) (hann : h'.announced = h.announced)
    (hsame : h.server.SameRegistry h'.server) : Inv h' where
  isOpen i id hi := by
    rw [hsame.readFds]
    exact hinv.isOpen i id (hann ▸ hi)
  fdToId i id hi := by
    rw [hsame.fdToId]
    exact hinv.fdToId i id (hann ▸ hi)
  link i id hi := by
    rw [hsame.link]
    exact hinv.link i id (hann ▸ hi)

theorem announce_accept_of_ne {h : History} {fd i : Nat} {bytes : List Byte} {uninit : Nat → Nat}
    (hi : i ≠ fd) : h.announce (.accept fd bytes uninit) i = h.announced i :=
  Function.update_of_ne hi _ _

theorem announce_accept_self {h : History} {fd : Nat} {bytes : List Byte} {uninit : Nat → Nat} :
    h.announce (.accept fd bytes uninit) fd = h.server.accepted bytes := Function.update_self _ _ _

theorem Inv.rejected {h h' : History} {fd : Nat} {bytes : List Byte} {uninit : Nat → Nat}
    {sent : List Send} (hinv : Inv h) (hacc : h.server.accepted bytes = none)
    (hcases : h.server.Accepts fd bytes h'.server sent)
    (hann : h'.announced = h.announce (.accept fd bytes uninit)) : Inv h' := by
  obtain ⟨hmap, hlink, hfds⟩ := hcases.rejected hacc
  have hkeep {i : Nat} {id : Str} (hi : h'.announced i = some id) :
      i ≠ fd ∧ h.announced i = some id := by
    rw [hann] at hi
    have hne : i ≠ fd := by
      rintro rfl
      rw [announce_accept_self, hacc] at hi
      cases hi
    exact ⟨hne, announce_accept_of_ne hne ▸ hi⟩
  refine ⟨fun i id hi => ?_, fun i id hi => ?_, fun i id hi => ?_⟩
  · exact hcases.readFds (hinv.isOpen i id (hkeep hi).2) (hkeep hi).1
  · rw [hmap]
    exact hinv.fdToId i id (hkeep hi).2
  · rw [hlink]
    exact hinv.link i id (hkeep hi).2

theorem Inv.registers {h h' : History} {fd : Nat} {bytes : List Byte} {uninit : Nat → Nat}
    {cliId : Str} (hinv : Inv h) (hguard : Harmless h (.accept fd bytes uninit))
    (hacc : h.server.accepted bytes = some cliId)
    (hreg : h.server.Registers h'.server fd cliId)
    (hann : h'.announced = h.announce (.accept fd bytes uninit)) : Inv h' := by
  have hself : h'.announced fd = some cliId := by rw [hann, announce_accept_self, hacc]
  have hother {i : Nat} (hi : i ≠ fd) : h'.announced i = h.announced i := by
    rw [hann, announce_accept_of_ne hi]
  refine ⟨fun i id hi => ?_, fun i id hi => ?_, fun i id hi => ?_⟩
  · by_cases hfd : i = fd
    · simp [hreg.readFds, hfd]
    · simp [hreg.readFds, hinv.isOpen i id (hother hfd ▸ hi)]
  · rw [hreg.fdToId]
    by_cases hfd : i = fd
    · subst hfd
      rw [Function.update_self, ← hself, hi]
    · rw [hother hfd] at hi
      rw [Function.update_of_ne hfd]
      have hmap := hinv.fdToId i id hi
      cases hcl : h.server.clients cliId with
      | none => exact hmap
      | some cl =>
        have hold : i ≠ cl.fd := by
          rintro rfl
          rw [hguard cliId cl hacc hcl] at hi
          cases hi
        exact (Function.update_of_ne hold _ _).trans hmap
  · rw [hreg.link]
    by_cases hfd : i = fd
    · subst hfd
      obtain rfl := Option.some.inj (hself.symm.trans hi)
      rw [Function.update_self]
    · rw [hother hfd] at hi
      have hlink := hinv.link i id hi
      have hid : id ≠ cliId := by
        rintro rfl
        obtain ⟨cl, hcl, hconn, -⟩ := link_eq_some_iff.mp hlink
        rw [hreg.idle cl hcl] at hconn
        cases hconn
      rwa [Function.update_of_ne hid]

theorem Inv.accept {h h' : History} {fd : Nat} {bytes : List Byte} {uninit : Nat → Nat}
    {sent : List Send} (hinv : Inv h) (hguard : Harmless h (.accept fd bytes uninit))
    (hcases : h.server.Accepts fd bytes h'.server sent)
    (hann : h'.announced = h.announce (.accept fd bytes uninit)) : Inv h' := by
  cases hacc : h.server.accepted bytes with
  | none => exact hinv.rejected hacc hcases hann
  | some cliId => exact hinv.registers hguard hacc (hcases.registers hacc) hann

theorem Inv.close {h h' : History} {i : Nat} {sent : List Send} (hinv : Inv h)
    (hguard : Harmless h (.recv i [])) (hcases : h.server.Handles i [] h'.server sent)
    (hann : h'.announced = h.announce (.recv i [])) : Inv h' := by
  obtain ⟨cl, hcl, hfds, hmap, hlink⟩ := hcases.close
  have hkeep {j : Nat} {id : Str} (hj : h'.announced j = some id) :
      j ≠ i ∧ h.announced j = some id := by
    rw [hann, announce, if_pos rfl] at hj
    by_cases hji : j = i
    · subst hji
      rw [Function.update_self] at hj
      cases hj
    · rw [Function.update_of_ne hji] at hj
      exact ⟨hji, hj⟩
  have hid {j : Nat} {id : Str} (hji : j ≠ i) (hj : h.announced j = some id) :
      id ≠ h.server.idOf i := by
    rintro rfl
    cases hi : h.announced i with
    | none => exact hguard rfl hi j hj
    | some id' =>
      rw [Server.idOf_of_fdToId (hinv.fdToId i id' hi)] at hj
      exact hji (hinv.registered.unique j i id' hj hi)
  refine ⟨fun j id hj => ?_, fun j id hj => ?_, fun j id hj => ?_⟩
  · obtain ⟨hji, hj⟩ := hkeep hj
    simp [hfds, hji, hinv.isOpen j id hj]
  · obtain ⟨hji, hj⟩ := hkeep hj
    rw [hmap, Function.update_of_ne hji]
    exact hinv.fdToId j id hj
  · obtain ⟨hji, hj⟩ := hkeep hj
    rw [hlink, Function.update_of_ne (hid hji hj)]
    exact hinv.link j id hj

theorem Inv.message {h h' : History} {i : Nat} {bytes : List Byte} {sent : List Send}
    (hinv : Inv h) (hb : bytes ≠ []) (hcases : h.server.Handles i bytes h'.server sent)
    (hann : h'.announced = h.announce (.recv i bytes)) : Inv h' := by
  obtain ⟨hfds, hlink, hmap⟩ := hcases.message hb
  have hsame : h'.announced = h.announced := by rw [hann, announce, if_neg hb]
  refine ⟨fun j id hj => ?_, fun j id hj => ?_, fun j id hj => ?_⟩
  · rw [hfds]
    exact hinv.isOpen j id (hsame ▸ hj)
  · have hold := hinv.fdToId j id (hsame ▸ hj)
    rcases hmap with hmap | hmap
    · rwa [hmap]
    · rw [hmap]
      by_cases hji : j = i
      · subst hji
        rw [Function.update_self, Server.idOf_of_fdToId hold]
      · rwa [Function.update_of_ne hji]
  · rw [hlink]
    exact hinv.link j id (hsame ▸ hj)

theorem Inv.recv {h h' : History} {i : Nat} {bytes : List Byte} {sent : List Send}
    (hinv : Inv h) (hguard : Harmless h (.recv i bytes))
    (hcases : h.server.Handles i bytes h'.server sent)
    (hann : h'.announced = h.announce (.recv i bytes)) : Inv h' := by
  by_cases hb : bytes = []
  · subst hb
    exact hinv.close hguard hcases hann
  · exact hinv.message hb hcases hann

theorem Inv.step {h h' : History} {e : Event} (hinv : Inv h) (hguard : Harmless h e)
    (hstep : Step h e h') : Inv h' := by
  obtain ⟨-, ⟨sent, hrun⟩, hann⟩ := hstep
  cases e with
  | stdin word => exact hinv.of_sameRegistry hann (Server.stdinBranch_registry hrun)
  | udp ip port bytes uninit => exact hinv.of_sameRegistry hann (Server.udpBranch_registry hrun)
  | accept fd bytes uninit => exact hinv.accept hguard (Server.acceptBranch_cases hrun) hann
  | recv i bytes => exact hinv.recv hguard (Server.recvBranch_cases hrun) hann

/-- Any other step leaves a connection that its client is not registered with. -/
theorem not_registered_of_not_harmless {h h' : History} {e : Event} (hinv : Inv h)
    (hguard : ¬ Harmless h e) (hstep : Step h e h') : ¬ Registered h' := by
  obtain ⟨hoffer, ⟨sent, hrun⟩, hann⟩ := hstep
  intro hreg
  cases e with
  | stdin word => exact hguard trivial
  | udp ip port bytes uninit => exact hguard trivial
  | accept fd bytes uninit =>
    simp only [Harmless, not_forall] at hguard
    obtain ⟨cliId, cl, hacc, hcl, hann'⟩ := hguard
    obtain ⟨id, hid⟩ := Option.ne_none_iff_exists'.mp hann'
    have hfd : cl.fd ≠ fd := by
      rintro rfl
      exact hoffer.1.2.1 (hinv.isOpen _ id hid)
    have hstill : h'.announced cl.fd = some id := by
      rw [hann, announce_accept_of_ne hfd, hid]
    have hgone : h'.server.fdToId cl.fd = none := by
      rw [((Server.acceptBranch_cases hrun).registers hacc).fdToId, Function.update_of_ne hfd, hcl]
      exact Function.update_self _ _ _
    rw [(hreg.mapped cl.fd id hstill).1] at hgone
    cases hgone
  | recv i bytes =>
    simp only [Harmless, not_forall, not_not] at hguard
    obtain ⟨rfl, hnone, j, hj⟩ := hguard
    obtain ⟨cl, hcl, -, -, hlink⟩ := (Server.recvBranch_cases hrun).close
    have hji : j ≠ i := by
      rintro rfl
      rw [hnone] at hj
      cases hj
    have hstill : h'.announced j = some (h.server.idOf i) := by
      rw [hann, announce, if_pos rfl, Function.update_of_ne hji, hj]
      rfl
    obtain ⟨-, cl', hcl', hconn, -⟩ := hreg.mapped j _ hstill
    have hoff : h'.server.link (h.server.idOf i) = some (false, cl.fd) := by
      rw [hlink, Function.update_self]
    obtain ⟨cl'', hcl'', hconn'', -⟩ := link_eq_some_iff.mp hoff
    obtain rfl := Option.some.inj (hcl'.symm.trans hcl'')
    rw [hconn] at hconn''
    cases hconn''

/-- The registry agrees in every state of a run exactly when every step of it is harmless. -/
theorem always_registered_iff {log : List (History × Event)} {h : History}
    (hrun : Run Step start log h) : Run.Always Registered log h ↔ Run.Guarded Harmless log :=
  Run.always_iff_guarded Inv.start Inv.registered Inv.step not_registered_of_not_harmless hrun

/-- A connects and leaves, B gets its descriptor, and A comes back on another one. -/
def overtaking : List Event :=
  [.accept 5 (idRequest [65]) fun _ => 0, .recv 5 [], .accept 5 (idRequest [66]) fun _ => 0,
    .accept 6 (idRequest [65]) fun _ => 0]

theorem overtaking_run : ∃ log h, Run Step start log h ∧ log.map Prod.snd = overtaking ∧
    h.announced 5 = some [66] ∧ h.server.fdToId 5 = none := by
  have hplay : (start.play overtaking).map (fun h => (h.announced 5, h.server.fdToId 5))
      = some (some [66], none) := by decide
  obtain ⟨h, hh, hval⟩ := Option.map_eq_some_iff.mp hplay
  obtain ⟨log, hrun, hlog⟩ := run_of_play .nil hh
  obtain ⟨hann, hmap⟩ := Prod.mk.inj hval
  exact ⟨log, h, hrun, hlog, hann, hmap⟩

theorem always_registered_iff_overtaking : ∃ log h, Run Step start log h ∧
    log.map Prod.snd = overtaking ∧ (Run.Always Registered log h ↔ Run.Guarded Harmless log) := by
  obtain ⟨log, h, hrun, hlog, -⟩ := overtaking_run
  exact ⟨log, h, hrun, hlog, always_registered_iff hrun⟩

theorem overtaking_not_registered : ∃ log h, Run Step start log h ∧
    log.map Prod.snd = overtaking ∧ ¬ Run.Always Registered log h := by
  obtain ⟨log, h, hrun, hlog, hann, hmap⟩ := overtaking_run
  refine ⟨log, h, hrun, hlog, fun hall => ?_⟩
  rw [(hall.2.mapped 5 [66] hann).1] at hmap
  cases hmap

end History

end PCom.PubSub
