import Hyperglyph.Broker.Handover
import Hyperglyph.Listener.SocketPath

/-! The descriptors of `ahe_broker_create_listener`, and from there of the whole broker: what the
start-up opens it closes again, but for the listener it returns to the main loop. -/
namespace Hyperglyph

open DescriptorTable (Balanced)

inductive Socket
  | listener | probe
  deriving DecidableEq

inductive SocketEvent
  | opened (s : Socket)
  | used (s : Socket)
  | closed (s : Socket)
  | badUse (fd : Fd)
  deriving DecidableEq

def SocketEvent.opened? : SocketEvent → Option Socket
  | .opened made => some made
  | _ => none

def SocketEvent.closed? : SocketEvent → Option Socket
  | .closed made => some made
  | _ => none

/-- The descriptor table before the main loop. -/
structure Startup where
  fds : DescriptorTable Socket
  log : List SocketEvent

/-- What the calls answer that the descriptors do not decide. -/
structure ListenerAnswers where
  listenerSocket : Option Nat
  parentPrepared : Bool
  lstatInitial : LstatResult
  probeSocket : Option Nat
  connect : ConnectResult
  lstatCurrent : LstatResult
  unlinked : Bool
  bound : Bool
  chmodDone : Bool
  listening : Bool

namespace Startup

def begin : Startup := ⟨.empty, []⟩

def socket (s : Startup) (made : Socket) (answer : Option Nat) : Startup × Fd :=
  match answer with
  | some n =>
      if s.fds.Free n then ({ fds := s.fds.install n made, log := s.log ++ [.opened made] }, n)
      else (s, -1)
  | none => (s, -1)

/-- `connect`, `bind` or `listen`. -/
def use (s : Startup) (fd : Fd) : Startup :=
  match s.fds.get fd with
  | some made => { s with log := s.log ++ [.used made] }
  | none => { s with log := s.log ++ [.badUse fd] }

def close (s : Startup) (fd : Fd) : Startup :=
  match s.fds.get fd with
  | some made => { fds := s.fds.remove fd, log := s.log ++ [.closed made] }
  | none => { s with log := s.log ++ [.badUse fd] }

end Startup

/-- `ahe_broker_remove_stale_socket`; `true` is the return of zero. -/
def brokerRemoveStaleSocket (effectiveUid : Nat) (s : Startup) (a : ListenerAnswers) :
    Startup × Bool :=
  match PathStage.afterInitial effectiveUid a.lstatInitial with
  | .bind => (s, true)
  | .connectProbe initialStatus =>
      let (s, probeFd) := s.socket .probe a.probeSocket
      if probeFd < 0 then (s, false)
      else
        let s := (s.use probeFd).close probeFd
        match PathStage.afterProbe initialStatus a.connect with
        | .bind => (s, true)
        | .lstatCurrent initialStatus =>
            match PathStage.afterCurrent effectiveUid initialStatus a.lstatCurrent with
            | .bind => (s, true)
            | .unlinkStale => (s, a.unlinked)
            | _ => (s, false)
        | _ => (s, false)
  | _ => (s, false)

/-- `ahe_broker_create_listener`. -/
def brokerCreateListener (effectiveUid : Nat) (socketPath : List UInt8) (s : Startup)
    (a : ListenerAnswers) : Startup × Fd :=
  if socketPath.length = 0 ∨ socketPath.length ≥ sizeofSunPath then (s, -1)
  else
    let (s, listenerFd) := s.socket .listener a.listenerSocket
    if listenerFd < 0 then (s, -1)
    else if !a.parentPrepared then (s.close listenerFd, -1)
    else
      let (s, removed) := brokerRemoveStaleSocket effectiveUid s a
      if !removed then (s.close listenerFd, -1)
      else
        let s := s.use listenerFd
        if !a.bound ∨ !a.chmodDone then (s.close listenerFd, -1)
        else
          let s := s.use listenerFd
          if !a.listening then (s.close listenerFd, -1) else (s, listenerFd)

namespace Startup

def opened (s : Startup) : List Socket := s.log.filterMap SocketEvent.opened?
def closedSockets (s : Startup) : List Socket := s.log.filterMap SocketEvent.closed?

variable {s : Startup} {n : Nat} {made : Socket} {fd : Fd}

theorem socket_cases (s : Startup) (made : Socket) (answer : Option Nat) :
    s.socket made answer = (s, -1) ∨ ∃ n, s.fds.Free n ∧ s.socket made answer =
      ({ fds := s.fds.install n made, log := s.log ++ [.opened made] }, (n : Fd)) := by
  cases answer with
  | none => exact .inl rfl
  | some n =>
      by_cases hfree : s.fds.Free n
      · exact .inr ⟨n, hfree, if_pos hfree⟩
      · exact .inl (if_neg hfree)

theorem use_of_open (h : s.fds.get fd = some made) :
    s.use fd = { s with log := s.log ++ [.used made] } := by
  simp only [use, h]

theorem close_of_open (h : s.fds.get fd = some made) :
    s.close fd = { fds := s.fds.remove fd, log := s.log ++ [.closed made] } := by
  simp only [close, h]

/-- The events of a probe. -/
def probed : List SocketEvent := [.opened .probe, .used .probe, .closed .probe]

/-- A probe leaves the table as it was. -/
theorem probe_closed (hfree : s.fds.Free n) :
    (use { fds := s.fds.install n .probe, log := s.log ++ [.opened .probe] } n).close n =
      { s with log := s.log ++ probed } := by
  have hopen : (s.fds.install n Socket.probe).get (n : Int) = some .probe :=
    DescriptorTable.get_install_self n _
  rw [use_of_open hopen, close_of_open (by exact hopen)]
  simp only [DescriptorTable.remove_install hfree, List.append_assoc, probed]
  rfl

theorem brokerRemoveStaleSocket_cases (effectiveUid : Nat) (s : Startup) (a : ListenerAnswers) :
    (brokerRemoveStaleSocket effectiveUid s a).1 = s ∨
      (brokerRemoveStaleSocket effectiveUid s a).1 = { s with log := s.log ++ probed } := by
  unfold brokerRemoveStaleSocket
  split
  · exact .inl rfl
  · next initialStatus _ =>
      rcases s.socket_cases .probe a.probeSocket with hfail | ⟨n, hfree, hmade⟩
      · rw [hfail]
        exact .inl rfl
      · rw [hmade]
        dsimp only
        rw [if_neg (Int.not_lt.mpr (Int.natCast_nonneg n)), probe_closed hfree]
        right
        split
        · rfl
        · split <;> rfl
        · rfl
  · exact .inl rfl

/-- Everything the start-up can do to the table. -/
inductive Created : Startup × Fd → Prop
  | unopened : Created (begin, -1)
  | failed (events : List SocketEvent) (uses : List SocketEvent) :
      events = [] ∨ events = probed → (∀ e ∈ uses, e = .used .listener) →
      Created (⟨.empty, [.opened .listener] ++ events ++ uses ++ [.closed .listener]⟩, -1)
  | listening (n : Nat) (events : List SocketEvent) (uses : List SocketEvent) :
      events = [] ∨ events = probed → (∀ e ∈ uses, e = .used .listener) →
      Created (⟨DescriptorTable.empty.install n .listener,
        [.opened .listener] ++ events ++ uses⟩, (n : Fd))

theorem createListener_spec (effectiveUid : Nat) (socketPath : List UInt8) (a : ListenerAnswers) :
    Created (brokerCreateListener effectiveUid socketPath begin a) := by
  unfold brokerCreateListener
  split
  · exact .unopened
  · rcases begin.socket_cases .listener a.listenerSocket with hfail | ⟨n, hfree, hmade⟩
    · rw [hfail]
      exact .unopened
    · rw [hmade]
      dsimp only
      rw [if_neg (Int.not_lt.mpr (Int.natCast_nonneg n))]
      -- the listener is open at `n` and nothing else is, whatever was logged since
      have hopen : (DescriptorTable.empty.install n Socket.listener).get (n : Int) = some .listener :=
        DescriptorTable.get_install_self n _
      have hempty : (DescriptorTable.empty.install n Socket.listener).remove (n : Int) = .empty :=
        DescriptorTable.remove_install hfree _
      have hclose : ∀ log : List SocketEvent,
          close ⟨DescriptorTable.empty.install n .listener, log⟩ n =
            ⟨.empty, log ++ [.closed .listener]⟩ := by
        intro log
        have hopen' : (Startup.mk (DescriptorTable.empty.install n .listener) log).fds.get (n : Int) =
            some .listener := hopen
        rw [close_of_open hopen', hempty]
      have huse : ∀ log : List SocketEvent,
          use ⟨DescriptorTable.empty.install n .listener, log⟩ n =
            ⟨DescriptorTable.empty.install n .listener, log ++ [.used .listener]⟩ :=
        fun log => use_of_open (by exact hopen)
      show Created (if !a.parentPrepared then
        (close ⟨DescriptorTable.empty.install n .listener, [.opened .listener]⟩ n, -1) else _)
      split
      · rw [hclose]
        exact .failed [] [] (.inl rfl) (by simp)
      · generalize hremove : brokerRemoveStaleSocket effectiveUid
          ⟨begin.fds.install n .listener, begin.log ++ [.opened .listener]⟩ a = r
        obtain ⟨s, removed⟩ := r
        obtain ⟨events, hevents, rfl⟩ : ∃ events, (events = [] ∨ events = probed) ∧
            s = ⟨DescriptorTable.empty.install n .listener, [.opened .listener] ++ events⟩ := by
          rcases brokerRemoveStaleSocket_cases effectiveUid
            ⟨begin.fds.install n .listener, begin.log ++ [.opened .listener]⟩ a with hs | hs
          · rw [hremove] at hs
            exact ⟨[], .inl rfl, hs⟩
          · rw [hremove] at hs
            exact ⟨probed, .inr rfl, hs⟩
        dsimp only
        rw [huse, huse, hclose, hclose, hclose]
        split
        · simpa using Created.failed events [] hevents (by simp)
        · split
          · exact .failed events [.used .listener] hevents (by simp)
          · split
            · simpa using Created.failed events [.used .listener, .used .listener] hevents (by simp)
            · simpa using Created.listening n events [.used .listener, .used .listener] hevents
                (by simp)

/-- What a start-up owes: no call on a closed number, everything opened once, and everything
open or closed again. -/
structure Settled (s : Startup) : Prop where
  sound : ∀ fd, SocketEvent.badUse fd ∉ s.log
  distinct : s.opened.Nodup
  balanced : Balanced s.fds s.opened s.closedSockets

section Uses

variable {t : DescriptorTable Socket} {events uses last : List SocketEvent}
  (hevents : events = [] ∨ events = probed) (huses : ∀ e ∈ uses, e = .used .listener)

include huses

theorem opened_of_uses : (Startup.mk t ([.opened .listener] ++ events ++ uses ++ last)).opened =
    .listener :: (events.filterMap SocketEvent.opened? ++ last.filterMap SocketEvent.opened?) := by
  have hnone : uses.filterMap SocketEvent.opened? = [] := by
    apply List.filterMap_eq_nil_iff.mpr
    intro e he
    rw [huses e he]
    rfl
  simp only [Startup.opened, List.filterMap_append, hnone, List.append_nil]
  rfl

theorem closed_of_uses :
    (Startup.mk t ([.opened .listener] ++ events ++ uses ++ last)).closedSockets =
      events.filterMap SocketEvent.closed? ++ last.filterMap SocketEvent.closed? := by
  have hnone : uses.filterMap SocketEvent.closed? = [] := by
    apply List.filterMap_eq_nil_iff.mpr
    intro e he
    rw [huses e he]
    rfl
  simp only [closedSockets, List.filterMap_append, hnone, List.append_nil]
  rfl

include hevents

theorem uses_sound (hlast : ∀ fd, SocketEvent.badUse fd ∉ last) (fd : Fd) :
    SocketEvent.badUse fd ∉ [.opened .listener] ++ events ++ uses ++ last := by
  have huse : SocketEvent.badUse fd ∉ uses := fun hmem => by cases huses _ hmem
  rcases hevents with rfl | rfl <;> simp [probed, huse, hlast]

end Uses

theorem Created.settled {r : Startup × Fd} (h : Created r) : r.1.Settled := by
  cases h with
  | unopened => exact ⟨by simp [begin], List.nodup_nil, Balanced.empty⟩
  | failed events uses hevents huses =>
      refine ⟨uses_sound hevents huses (by simp), ?_, ?_⟩
      · rw [opened_of_uses huses]
        rcases hevents with rfl | rfl <;> decide
      · rw [opened_of_uses huses, closed_of_uses huses]
        rcases hevents with rfl | rfl
        · exact Balanced.empty.append [Socket.listener]
        · exact (Balanced.empty.append [Socket.listener, .probe]).perm (List.Perm.refl _)
            (List.Perm.swap Socket.probe .listener [])
  | listening n events uses hevents huses =>
      have hlistener : Balanced (DescriptorTable.empty.install n Socket.listener) [.listener] [] :=
        Balanced.empty.install rfl Socket.listener
      rw [← List.append_nil ([SocketEvent.opened .listener] ++ events ++ uses)]
      refine ⟨uses_sound hevents huses (by simp), ?_, ?_⟩
      · rw [opened_of_uses huses]
        rcases hevents with rfl | rfl <;> decide
      · rw [opened_of_uses huses, closed_of_uses huses]
        rcases hevents with rfl | rfl
        · exact hlistener
        · exact hlistener.append [.probe]

end Startup

/-! ### The whole run -/

namespace Broker

/-- The broker owns its descriptors: those it holds are the open ones, each is in one variable
and names the object it was obtained for as long as it is there, no call gets a number that
is not open, and in the end every descriptor was closed once. -/
structure DescriptorsOwned (b : Broker) : Prop where
  open_iff_held : ∀ fd, (∃ o, b.kernel.fds.get fd = some o) ↔ fd ∈ b.held
  held_once : b.held.Nodup
  kept : ∀ fd inputs b', Execution.Run (Execution.Guarded Step fun b _ => fd ∈ b.held) b inputs b' →
    fd ∈ b'.held → b'.kernel.fds.get fd = b.kernel.fds.get fd
  hands_open : ∀ i k fd, b.Hands i k fd → ∃ o, k.fds.get fd = some o
  closed_open : ∀ fd, Event.badClose fd ∉ b.kernel.log
  used_before_closed : b.kernel.log.Pairwise fun earlier later =>
    ∀ o, earlier = .closed o → ¬ later.Uses o
  opened_once : b.kernel.opened.Nodup
  closed_once : b.kernel.closedObjects.Nodup
  returned : b.pc = .returned → b.kernel.opened.Perm b.kernel.closedObjects

theorem Reachable.descriptorsOwned {b : Broker} (h : Reachable b) : b.DescriptorsOwned := by
  have haccounted := h.owned.accounted
  refine ⟨h.open_iff_held, h.held_once, fun fd inputs b' => h.held_kept,
    fun i k fd => h.hands_open, haccounted.sound, haccounted.ordered, haccounted.distinct,
    haccounted.balanced.closed_nodup haccounted.distinct, fun hreturned => ?_⟩
  apply haccounted.balanced.settled
  intro fd
  by_contra hopen
  obtain ⟨o, ho⟩ := Option.ne_none_iff_exists'.mp hopen
  have hheld := (h.open_iff_held fd).mp ⟨o, ho⟩
  rw [h.returned_held hreturned] at hheld
  cases hheld

end Broker

/-- From the creation of the listener to the return of `main`: a start-up that fails has closed
what it opened, and one that succeeds hands its listener, and nothing else that is open, to a
main loop that owns its descriptors. -/
theorem descriptors_owned (effectiveUid : Nat) (socketPath : List UInt8) (a : ListenerAnswers)
    (maxClients : Nat) :
    (brokerCreateListener effectiveUid socketPath .begin a).1.Settled ∧
      (((brokerCreateListener effectiveUid socketPath .begin a).2 = -1 ∧
          (brokerCreateListener effectiveUid socketPath .begin a).1.opened.Perm
            (brokerCreateListener effectiveUid socketPath .begin a).1.closedSockets) ∨
        ∃ n : Nat, (brokerCreateListener effectiveUid socketPath .begin a).2 = n ∧
          (brokerCreateListener effectiveUid socketPath .begin a).1.fds =
            DescriptorTable.empty.install n .listener ∧
          ∀ inputs b, Execution.Run Broker.Step (.start maxClients n) inputs b →
            b.DescriptorsOwned) := by
  have hcreated := Startup.createListener_spec effectiveUid socketPath a
  refine ⟨hcreated.settled, ?_⟩
  generalize hr : brokerCreateListener effectiveUid socketPath .begin a = r at hcreated
  have hsettled := hcreated.settled
  cases hcreated with
  | unopened => exact .inl ⟨rfl, hsettled.balanced.settled (by simp [Startup.begin])⟩
  | failed events uses => exact .inl ⟨rfl, hsettled.balanced.settled (by simp)⟩
  | listening n events uses =>
      refine .inr ⟨n, rfl, rfl, fun inputs b hrun => ?_⟩
      exact ((Broker.reachable_start maxClients n).run_reachable hrun).descriptorsOwned

/-- A stale socket is at the path, and every call succeeds. -/
def overStaleSocket : ListenerAnswers where
  listenerSocket := some 3
  parentPrepared := true
  lstatInitial := .found ⟨true, 1000, 1, 5⟩
  probeSocket := some 4
  connect := .refused
  lstatCurrent := .found ⟨true, 1000, 1, 5⟩
  unlinked := true
  bound := true
  chmodDone := true
  listening := true

/-- One client acquires and is still connected when the broker is stopped. -/
def servedThenStopped : List Input :=
  [.head true (.ready [Broker.readable]), .dispatch (Broker.answering []),
    .accept (Broker.accepting 4 0),
    .head true (.ready [.clear, Broker.readable]),
    .dispatch (Broker.answering Broker.pageRequest.encode), .signal,
    .dispatch (Broker.answering []),
    .accept Broker.acceptNone,
    .head true .interrupted, .leave]

theorem descriptors_owned_of_stopped :
    ∃ b : Broker, b.pc = .returned ∧
      b.kernel.closedObjects = [.memfd 0, .memfd 1, .conn 0, .listener] ∧ b.DescriptorsOwned := by
  have hnumber : (brokerCreateListener 1000 [47, 115] .begin overStaleSocket).2 = (3 : Nat) := by
    decide
  refine ⟨servedThenStopped.foldl Broker.step (.start 0 3), by decide +kernel, by decide +kernel, ?_⟩
  rcases (descriptors_owned 1000 [47, 115] overStaleSocket 0).2 with ⟨hfailed, -⟩ | ⟨n, hn, -, howned⟩
  · rw [hnumber] at hfailed
    cases hfailed
  · have hsame : n = 3 := Int.ofNat_inj.mp (hn.symm.trans hnumber)
    subst hsame
    exact howned servedThenStopped _ (Broker.run_foldl _ _)

end Hyperglyph
