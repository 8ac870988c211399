import Hyperglyph.Library.Execution
import Hyperglyph.Client.Acquisition

/-! The life of one `ahe_broker_client`, from its acquisition to its shutdown. Between its calls
the rest of the process opens and closes descriptors of its own. -/
namespace Hyperglyph

open DescriptorTable Process

inductive LockType
  | write | unlock
  deriving DecidableEq

/-- `F_SETLKW` and `F_SETLK`. -/
inductive LockCommand
  | setLockWait | setLock
  deriving DecidableEq

/-- `fcntl` of a lock on the first byte, after the `EINTR` loop. -/
def Process.fcntl (p : Process) (fd : Fd) (answer : Bool) : Process × Bool :=
  match p.fds.get fd with
  | some _ => (p, answer)
  | none => (p.emit [.badUse fd], false)

/-- `ahe_broker_client_set_lock`; the kernel's answer depends on what it is asked for. -/
def brokerClientSetLock (p : Process) (client : BrokerClient) (lockType : LockType)
    (command : LockCommand) (answer : LockType → LockCommand → Bool) : Process × Bool :=
  if client.lockFd < 0 then (p, false) else p.fcntl client.lockFd (answer lockType command)

def brokerClientLock (p : Process) (client : BrokerClient)
    (answer : LockType → LockCommand → Bool) : Process × Bool :=
  brokerClientSetLock p client .write .setLockWait answer

def brokerClientUnlock (p : Process) (client : BrokerClient)
    (answer : LockType → LockCommand → Bool) : Process × Bool :=
  brokerClientSetLock p client .unlock .setLock answer

/-- What happens to a client after its acquisition. -/
inductive ClientCall
  | lock (answer : LockType → LockCommand → Bool)
  | unlock (answer : LockType → LockCommand → Bool)
  | publish (sharedGlobals : UInt64) (a : ExchangeAnswers)
  | abort (a : ExchangeAnswers)
  | detach (address : UInt64) (unmapped : Bool)
  | shutdown (a : ExchangeAnswers) (unmapped : Bool)
  | elsewhere (fds : DescriptorTable Object)

/-- A client in its process. `segment` is what the acquisition returned, until a copy of it is
detached or the client is shut down. -/
structure ClientLife where
  process : Process
  client : BrokerClient
  segment : Option ShmSegment
  ended : Bool

namespace ClientLife

/-- After `ahe_broker_client_acquire`. -/
def acquire (fds : DescriptorTable Object) (c : ConnId) (effectiveUid : Nat)
    (socketPath cacheKey : List UInt8) (size : UInt64) (a : AcquireAnswers) : ClientLife :=
  let (process, client, outputs, _) :=
    brokerClientAcquire ⟨fds, []⟩ .initializer c effectiveUid socketPath cacheKey size .cleared a
  ⟨process, client, outputs.sharedSegments.map SharedSegments.segment, false⟩

def step (s : ClientLife) : ClientCall → ClientLife
  | .lock answer => { s with process := (brokerClientLock s.process s.client answer).1 }
  | .unlock answer => { s with process := (brokerClientUnlock s.process s.client answer).1 }
  | .publish sharedGlobals a =>
      let (process, client, _) := brokerClientPublish s.process s.client sharedGlobals a
      { s with process, client }
  | .abort a => { s with process := brokerClientAbort s.process s.client a }
  | .detach address unmapped =>
      match s.segment with
      | some segment =>
          let (process, client, _) := brokerClientDetach s.process s.client address segment unmapped
          { s with process, client, segment := none }
      | none => s
  | .shutdown a unmapped =>
      let (process, client) := brokerClientShutdown s.process s.client a unmapped
      { process, client, segment := none, ended := true }
  | .elsewhere fds => { s with process := { s.process with fds } }

/-- The rest of the process leaves the client's descriptors alone. -/
def LeavesAlone (s : ClientLife) (fds : DescriptorTable Object) : Prop :=
  ∀ fd ∈ [s.client.cacheFd, s.client.lockFd, s.client.socketFd],
    fds.get fd = s.process.fds.get fd

/-- One detach at most, and shutdown comes last; the kernel delivers what it can. -/
def Permitted (s : ClientLife) (call : ClientCall) : Prop :=
  s.ended = false ∧
    match call with
    | .lock _ | .unlock _ => True
    | .publish _ a | .abort a | .shutdown a _ => Deliverable a.reply
    | .detach _ _ => s.segment ≠ none
    | .elsewhere fds => s.LeavesAlone fds

def Step (s : ClientLife) (call : ClientCall) (s' : ClientLife) : Prop := s' = s.step call

def Acquired (s : ClientLife) : Prop :=
  ∃ fds c effectiveUid socketPath cacheKey size a, Deliverable (AcquireAnswers.reply a) ∧
    s = acquire fds c effectiveUid socketPath cacheKey size a

/-- The states of a client that acquired, whatever was answered. -/
def Reachable (s : ClientLife) : Prop :=
  Execution.Reachable (Execution.Guarded Step Permitted) Acquired s

end ClientLife

/-! ### Calls that keep what is held -/

section Calls

variable {base : DescriptorTable Object} {p : Process} {client : BrokerClient}
  {held : List (Nat × Object)}

/-- The client's socket is a connection it holds. -/
def Connected (client : BrokerClient) (held : List (Nat × Object)) : Prop :=
  ∃ (n : Nat) (c : ConnId), client.socketFd = n ∧ (n, .conn c) ∈ held

theorem Process.Holds.receiveAck (h : p.Holds base held) (hsocket : Connected client held)
    {reply : Except Errno Reception} (hreply : Deliverable reply) :
    (receiveAck p client reply).1.Holds base held := by
  obtain ⟨n, c, hfd, hmem⟩ := hsocket
  have hreceived := h.receive hmem 0 hreply
  unfold Hyperglyph.receiveAck
  rw [hfd]
  generalize clientReceiveMessage p n 0 reply = received at hreceived ⊢
  obtain ⟨p', answer⟩ := received
  rcases hreceived with ⟨e, heq, -, hheld⟩ | ⟨m, installed, -, hroom, heq, hheld⟩
  · cases heq
    exact hheld
  · cases heq
    rw [List.length_eq_zero_iff.mp (Nat.le_zero.mp hroom)] at hheld
    exact hheld

theorem memory_receiveAck (p : Process) (client : BrokerClient) (reply : Except Errno Reception) :
    (receiveAck p client reply).1.memory = p.memory := by
  have hreceived := memory_clientReceiveMessage p client.socketFd 0 reply
  unfold receiveAck
  generalize clientReceiveMessage p client.socketFd 0 reply = received at hreceived ⊢
  obtain ⟨p', answer⟩ := received
  cases answer <;> exact hreceived

theorem Process.Holds.notify (h : p.Holds base held)
    (hsocket : client.socketFd ≥ 0 → Connected client held) {a : ExchangeAnswers}
    (hreply : Deliverable a.reply) : (brokerClientNotify p client a).1.Holds base held := by
  unfold brokerClientNotify
  split
  · exact h
  · next hopen =>
      obtain ⟨n, c, hfd, hmem⟩ := hsocket (Int.not_lt.mp hopen)
      rw [hfd, send_of_held h hmem]
      cases a.sent with
      | error e => exact h
      | ok => exact h.receiveAck ⟨n, c, hfd, hmem⟩ hreply

theorem memory_notify (p : Process) (client : BrokerClient) (a : ExchangeAnswers) :
    (brokerClientNotify p client a).1.memory = p.memory := by
  unfold brokerClientNotify
  split
  · rfl
  · have hsent := memory_send p client.socketFd a.sent
    generalize p.send client.socketFd a.sent = sent at hsent ⊢
    obtain ⟨p', answer⟩ := sent
    cases answer with
    | error e => exact hsent
    | ok => exact (memory_receiveAck p' client a.reply).trans hsent

theorem Process.Holds.abort (h : p.Holds base held)
    (hsocket : client.socketFd ≥ 0 → Connected client held) {a : ExchangeAnswers}
    (hreply : Deliverable a.reply) : (brokerClientAbort p client a).Holds base held := by
  unfold brokerClientAbort
  split
  · exact h.notify hsocket hreply
  · exact h

theorem memory_abort (p : Process) (client : BrokerClient) (a : ExchangeAnswers) :
    (brokerClientAbort p client a).memory = p.memory := by
  unfold brokerClientAbort
  split
  · exact memory_notify p client a
  · rfl

theorem Process.Holds.publish (h : p.Holds base held)
    (hsocket : client.creator = true → Connected client held) {a : ExchangeAnswers}
    (hreply : Deliverable a.reply) (sharedGlobals : UInt64) :
    (brokerClientPublish p client sharedGlobals a).1.Holds base held := by
  unfold brokerClientPublish
  split
  · exact h
  · next hallowed =>
      have hcreator := (publishRefused_eq_false (Bool.eq_false_iff.mpr hallowed)).1
      obtain ⟨n, c, hfd, hmem⟩ := hsocket hcreator
      rw [hfd, send_of_held h hmem]
      cases a.sent with
      | error e => exact h
      | ok =>
          have hacked := h.receiveAck ⟨n, c, hfd, hmem⟩ hreply
          dsimp only
          generalize Hyperglyph.receiveAck p client a.reply = acked at hacked ⊢
          obtain ⟨p', acknowledged⟩ := acked
          cases acknowledged <;> exact hacked

/-- Publishing is not about memory, and of the client it changes what `READY` says. -/
theorem publish_spec (p : Process) (client : BrokerClient) (sharedGlobals : UInt64)
    (a : ExchangeAnswers) :
    (brokerClientPublish p client sharedGlobals a).1.memory = p.memory ∧
      ((brokerClientPublish p client sharedGlobals a).2.1 = client ∨
        client.creator = true ∧
          (brokerClientPublish p client sharedGlobals a).2.1 = client.published) := by
  unfold brokerClientPublish
  split
  · exact ⟨rfl, .inl rfl⟩
  · next hallowed =>
      have hcreator := (publishRefused_eq_false (Bool.eq_false_iff.mpr hallowed)).1
      have hsent := memory_send p client.socketFd a.sent
      generalize p.send client.socketFd a.sent = sent at hsent ⊢
      obtain ⟨p', answer⟩ := sent
      cases answer with
      | error e => exact ⟨hsent, .inl rfl⟩
      | ok =>
          have hacked := memory_receiveAck p' client a.reply
          dsimp only
          generalize receiveAck p' client a.reply = acked at hacked ⊢
          obtain ⟨p'', acknowledged⟩ := acked
          cases acknowledged with
          | true => exact ⟨hacked.trans hsent, .inr ⟨hcreator, rfl⟩⟩
          | false => exact ⟨hacked.trans hsent, .inl rfl⟩

theorem Process.Holds.setLock (h : p.Holds base held)
    (hlock : client.lockFd ≥ 0 → ∃ (n : Nat) (o : Object), client.lockFd = n ∧ (n, o) ∈ held)
    (lockType : LockType) (command : LockCommand) (answer : LockType → LockCommand → Bool) :
    (brokerClientSetLock p client lockType command answer).1.Holds base held := by
  unfold brokerClientSetLock
  split
  · exact h
  · next hopen =>
      obtain ⟨n, o, hfd, hmem⟩ := hlock (Int.not_lt.mp hopen)
      unfold fcntl
      rw [hfd, h.get hmem]
      exact h

theorem memory_setLock (p : Process) (client : BrokerClient) (lockType : LockType)
    (command : LockCommand) (answer : LockType → LockCommand → Bool) :
    (brokerClientSetLock p client lockType command answer).1.memory = p.memory := by
  unfold brokerClientSetLock fcntl
  split
  · rfl
  · split
    · rfl
    · rw [memory_emit]
      exact List.append_nil _

end Calls

/-! ### The mapping -/

def ProcessEvent.mapped? : ProcessEvent → Option (UInt64 × UInt64)
  | .mapped address size _ => some (address, size)
  | _ => none

def ProcessEvent.unmapped? : ProcessEvent → Option (UInt64 × UInt64)
  | .unmapped address size => some (address, size)
  | _ => none

/-- Every successful `mmap`, with its address and size. -/
def Process.mapped (p : Process) : List (UInt64 × UInt64) :=
  p.memory.filterMap ProcessEvent.mapped?

/-- Every successful `munmap`. -/
def Process.unmapped (p : Process) : List (UInt64 × UInt64) :=
  p.memory.filterMap ProcessEvent.unmapped?

theorem GaveUp.mapping_once {p₀ p : Process} {unmapped : Bool} (h : GaveUp p₀ p unmapped)
    (hnone : p₀.memory = []) : p.mapped.length ≤ 1 ∧ p.unmapped.Sublist p.mapped := by
  unfold Process.mapped Process.unmapped
  rcases h with hkept | ⟨address, size, o, hgone⟩
  · rw [hkept, hnone]
    exact ⟨Nat.zero_le 1, List.Sublist.refl _⟩
  · rw [hgone, hnone]
    cases unmapped with
    | true => exact ⟨Nat.le_refl 1, List.Sublist.refl _⟩
    | false => exact ⟨Nat.le_refl 1, List.nil_sublist _⟩

namespace ClientLife

/-- The mapping of a client that has one is the only one ever made, and was not removed. -/
structure MappingKept (s : ClientLife) : Prop where
  once : s.process.mapped.length ≤ 1
  removed : s.process.unmapped.Sublist s.process.mapped
  present : s.client.mapping ≠ 0 → s.client.mappingSize ≠ 0 →
    s.process.unmapped = [] ∧ s.process.mapped = [(s.client.mapping, s.client.mappingSize)]
  segment : ∀ segment, s.segment = some segment →
    segment.p = s.client.mapping ∧ segment.size = s.client.mappingSize

/-- The descriptors in the client's fields are what it holds. -/
structure Holding (s : ClientLife) (base : DescriptorTable Object)
    (cache lock socket : List (Nat × Object)) : Prop where
  owns : s.client.Owns cache lock socket
  holds : s.process.Holds base (cache ++ (lock ++ socket))
  connection : ∀ i ∈ socket, ∃ c, i.2 = .conn c

/-- The invariant of a client's life. -/
structure Kept (s : ClientLife) : Prop where
  holding : ∃ base cache lock socket, s.Holding base cache lock socket
  creator : s.client.creator = true → s.client.socketFd ≥ 0
  mapping : s.MappingKept
  ended : s.ended = true → s.client = .initializer

variable {s s' : ClientLife} {base : DescriptorTable Object}
  {cache lock socket : List (Nat × Object)}

theorem Holding.connected (h : s.Holding base cache lock socket) (hopen : s.client.socketFd ≥ 0) :
    Connected s.client (cache ++ (lock ++ socket)) := by
  rcases h.owns.socket with ⟨hnone, -⟩ | ⟨n, o, hfd, hsocket⟩
  · rw [hnone] at hopen
    exact absurd hopen (by decide)
  · obtain ⟨c, hc⟩ := h.connection (n, o) (by rw [hsocket]; exact List.mem_singleton_self _)
    refine ⟨n, c, hfd, ?_⟩
    rw [← hc, hsocket]
    simp

theorem Holding.locked (h : s.Holding base cache lock socket) (hopen : s.client.lockFd ≥ 0) :
    ∃ (n : Nat) (o : Object), s.client.lockFd = n ∧ (n, o) ∈ cache ++ (lock ++ socket) := by
  rcases h.owns.lock with ⟨hnone, -⟩ | ⟨n, o, hfd, hlock⟩
  · rw [hnone] at hopen
    exact absurd hopen (by decide)
  · exact ⟨n, o, hfd, by simp [hlock]⟩

/-- A call that changes neither what is held nor the memory, and of the client only what is not
about them. -/
theorem Kept.unchanged (h : s.Kept)
    (hholds : ∀ base cache lock socket, s.Holding base cache lock socket →
      s'.process.Holds base (cache ++ (lock ++ socket)))
    (hmemory : s'.process.memory = s.process.memory)
    (hclient : s'.client = s.client ∨ s'.client = s.client.published)
    (hsegment : s'.segment = s.segment ∨ s'.segment = none)
    (hended : s'.ended = false) : s'.Kept := by
  obtain ⟨base, cache, lock, socket, hholding⟩ := h.holding
  have hfields : s'.client.cacheFd = s.client.cacheFd ∧ s'.client.lockFd = s.client.lockFd ∧
      s'.client.socketFd = s.client.socketFd ∧ s'.client.creator = s.client.creator ∧
      s'.client.mapping = s.client.mapping ∧ s'.client.mappingSize = s.client.mappingSize := by
    rcases hclient with heq | heq <;> rw [heq]
    · exact ⟨rfl, rfl, rfl, rfl, rfl, rfl⟩
    · exact ⟨rfl, rfl, rfl, rfl, rfl, rfl⟩
  obtain ⟨hcache, hlock, hsocket, hcreator, hmapping, hsize⟩ := hfields
  have hmapped : s'.process.mapped = s.process.mapped := by
    unfold Process.mapped
    rw [hmemory]
  have hunmapped : s'.process.unmapped = s.process.unmapped := by
    unfold Process.unmapped
    rw [hmemory]
  constructor
  · refine ⟨base, cache, lock, socket, ⟨?_, ?_, ?_⟩, hholds _ _ _ _ hholding, hholding.connection⟩
    · rw [hcache]
      exact hholding.owns.cache
    · rw [hlock]
      exact hholding.owns.lock
    · rw [hsocket]
      exact hholding.owns.socket
  · rw [hcreator, hsocket]
    exact h.creator
  · constructor
    · rw [hmapped]
      exact h.mapping.once
    · rw [hmapped, hunmapped]
      exact h.mapping.removed
    · rw [hmapped, hunmapped, hmapping, hsize]
      exact h.mapping.present
    · rw [hmapping, hsize]
      intro segment hsome
      rcases hsegment with heq | heq
      · exact h.mapping.segment segment (heq ▸ hsome)
      · rw [heq] at hsome
        cases hsome
  · intro htrue
    rw [hended] at htrue
    cases htrue

@[simp] theorem mapped_emit (p : Process) (events : List ProcessEvent) :
    (p.emit events).mapped =
      p.mapped ++ (events.filter ProcessEvent.isMemory).filterMap ProcessEvent.mapped? := by
  unfold Process.mapped
  rw [memory_emit, List.filterMap_append]

@[simp] theorem unmapped_emit (p : Process) (events : List ProcessEvent) :
    (p.emit events).unmapped =
      p.unmapped ++ (events.filter ProcessEvent.isMemory).filterMap ProcessEvent.unmapped? := by
  unfold Process.unmapped
  rw [memory_emit, List.filterMap_append]

/-- When the mapping of the client is removed, it is for the first time. -/
theorem MappingKept.removing (h : s.MappingKept) (hmapping : s.client.mapping ≠ 0)
    (hsize : s.client.mappingSize ≠ 0) :
    (s.process.unmapped ++ [(s.client.mapping, s.client.mappingSize)]).Sublist
      s.process.mapped := by
  obtain ⟨hnone, hone⟩ := h.present hmapping hsize
  rw [hnone, hone]
  exact List.Sublist.refl _

/-- A client without a mapping and a segment: the mapping was removed now, or it stays as it was. -/
theorem MappingKept.emptied (h : s.MappingKept) (hmapped : s'.process.mapped = s.process.mapped)
    (hunmapped : s'.process.unmapped = s.process.unmapped ∨
      s.client.mapping ≠ 0 ∧ s.client.mappingSize ≠ 0 ∧ s'.process.unmapped =
        s.process.unmapped ++ [(s.client.mapping, s.client.mappingSize)])
    (hmapping : s'.client.mapping = 0) (hsegment : s'.segment = none) : s'.MappingKept := by
  constructor
  · rw [hmapped]
    exact h.once
  · rw [hmapped]
    rcases hunmapped with hsame | ⟨hne, hsize, hnow⟩
    · rw [hsame]
      exact h.removed
    · rw [hnow]
      exact h.removing hne hsize
  · exact fun hne => absurd hmapping hne
  · intro segment hsome
    rw [hsegment] at hsome
    cases hsome

/-! ### The steps -/

theorem detach_cases (p : Process) (client : BrokerClient) (address : UInt64) {segment : ShmSegment}
    (unmapped : Bool) (hmapping : segment.p = client.mapping) :
    ((brokerClientDetach p client address segment unmapped).1 = p ∧
        (brokerClientDetach p client address segment unmapped).2.1 = client) ∨
      segment.p ≠ 0 ∧ segment.size ≠ 0 ∧
        (brokerClientDetach p client address segment unmapped).1 =
          p.emit [.unmapped segment.p segment.size] ∧
        ∃ segmentAllocation, (brokerClientDetach p client address segment unmapped).2.1 =
          { client with mapping := 0, mappingSize := 0, segmentAllocation } := by
  unfold brokerClientDetach
  by_cases hrefused : address = 0 ∨ segment.p = 0 ∨ segment.size = 0
  · rw [if_pos hrefused]
    exact .inl ⟨rfl, rfl⟩
  · rw [if_neg hrefused]
    simp only [not_or] at hrefused
    cases unmapped with
    | false => exact .inl ⟨rfl, rfl⟩
    | true =>
        refine .inr ⟨hrefused.2.1, hrefused.2.2, rfl, ?_⟩
        have hremoved : p.munmap segment.p segment.size true =
            (p.emit [.unmapped segment.p segment.size], true) := rfl
        rw [hremoved]
        dsimp only
        rw [if_pos hmapping.symm]
        by_cases howned : address =
            if client.segmentAllocation ≠ 0 then client.segmentAllocation + sizeofPointer else 0
        · exact ⟨0, by rw [if_pos howned]⟩
        · exact ⟨client.segmentAllocation, by rw [if_neg howned]⟩

theorem Kept.detach (h : s.Kept) (hserving : s.ended = false) (address : UInt64) (unmapped : Bool) :
    (s.step (.detach address unmapped)).Kept := by
  unfold ClientLife.step
  cases hsegment : s.segment with
  | none => exact h
  | some segment =>
      obtain ⟨hp, hsize⟩ := h.mapping.segment segment hsegment
      dsimp only
      have hcases := detach_cases s.process s.client address unmapped hp
      generalize brokerClientDetach s.process s.client address segment unmapped = detached
        at hcases ⊢
      obtain ⟨p', client', detached⟩ := detached
      rcases hcases with ⟨hprocess, hclient⟩ | ⟨hne, hpos, hprocess, allocation, hclient⟩
      · cases hprocess
        cases hclient
        exact h.unchanged (fun _ _ _ _ hholding => hholding.holds) rfl (.inl rfl) (.inr rfl) hserving
      · rw [hp] at hne hprocess
        rw [hsize] at hpos hprocess
        obtain ⟨base, cache, lock, socket, hholding⟩ := h.holding
        subst hprocess hclient
        constructor
        · exact ⟨base, cache, lock, socket,
            ⟨hholding.owns.cache, hholding.owns.lock, hholding.owns.socket⟩,
            hholding.holds.memory (by simp [ProcessEvent.isMemory]), hholding.connection⟩
        · exact h.creator
        · refine h.mapping.emptied ?_ (.inr ⟨hne, hpos, ?_⟩) rfl rfl
          · rw [mapped_emit]
            exact List.append_nil _
          · rw [unmapped_emit]
            rfl
        · intro htrue
          rw [show s.ended = true from htrue] at hserving
          cases hserving

/-- The number in a field of the client. -/
def Field (client : BrokerClient) (n : Nat) : Prop :=
  client.cacheFd = n ∨ client.lockFd = n ∨ client.socketFd = n

theorem not_field_initializer (n : Nat) : ¬ Field .initializer n := by
  intro hfield
  have hnegative : (-1 : Int) = n := by
    rcases hfield with hcache | hlock | hsocket
    · exact hcache
    · exact hlock
    · exact hsocket
  omega

theorem mem_slot_iff {fd : Fd} {slot : List (Nat × Object)} (h : Slot fd slot) (n : Nat) :
    n ∈ slot.map Prod.fst ↔ fd = n := by
  rcases h with ⟨rfl, rfl⟩ | ⟨m, o, rfl, rfl⟩
  · refine iff_of_false (by simp) ?_
    rintro (hnegative : (-1 : Int) = n)
    omega
  · rw [List.map_singleton, List.mem_singleton, Int.natCast_inj]
    exact eq_comm

theorem Holding.field_iff (h : s.Holding base cache lock socket) (n : Nat) :
    n ∈ (cache ++ (lock ++ socket)).map Prod.fst ↔ Field s.client n := by
  rw [List.map_append, List.map_append, List.mem_append, List.mem_append, mem_slot_iff h.owns.cache,
    mem_slot_iff h.owns.lock, mem_slot_iff h.owns.socket]
  rfl

theorem Kept.elsewhere (h : s.Kept) {fds : DescriptorTable Object} (halone : s.LeavesAlone fds) :
    (s.step (.elsewhere fds)).Kept := by
  obtain ⟨base, cache, lock, socket, hholding⟩ := h.holding
  have hheld : ∀ n ∈ (cache ++ (lock ++ socket)).map Prod.fst, fds n = s.process.fds n := by
    intro n hmem
    have hfield : (n : Fd) ∈ [s.client.cacheFd, s.client.lockFd, s.client.socketFd] := by
      rcases (hholding.field_iff n).mp hmem with hcache | hlock | hsocket
      · simp [hcache]
      · simp [hlock]
      · simp [hsocket]
    exact halone n hfield
  obtain ⟨base', hcustody⟩ := hholding.holds.custody.interfere hheld
  exact ⟨⟨base', cache, lock, socket, hholding.owns, ⟨hcustody, hholding.holds.sound⟩,
    hholding.connection⟩, h.creator,
    ⟨h.mapping.once, h.mapping.removed, h.mapping.present, h.mapping.segment⟩, h.ended⟩

/-- What shutdown does to the memory. -/
def givingUp (client : BrokerClient) (unmapped : Bool) : List ProcessEvent :=
  (if (client.mapping ≠ 0 ∧ client.mappingSize ≠ 0) ∧ unmapped = true then
      [.unmapped client.mapping client.mappingSize]
    else []) ++
  if client.reattached = true ∧ client.segmentAllocation ≠ 0 then [.freed client.segmentAllocation]
  else []

theorem isMemory_givingUp (client : BrokerClient) (unmapped : Bool) :
    ∀ e ∈ givingUp client unmapped, e.isMemory = true := by
  intro e he
  rcases List.mem_append.mp he with hmapping | hblock
  · split at hmapping
    · rw [List.mem_singleton.mp hmapping]
      rfl
    · cases hmapping
  · split at hblock
    · rw [List.mem_singleton.mp hblock]
      rfl
    · cases hblock

theorem shutdownRest_eq (p : Process) (client : BrokerClient) (unmapped : Bool) :
    shutdownRest p client unmapped =
      ((closeDescriptors (p.emit (givingUp client unmapped)) client).1,
        { (closeDescriptors (p.emit (givingUp client unmapped)) client).2 with
          mapping := 0, mappingSize := 0, segmentAllocation := 0, creator := false,
          reattached := false, acquired := false, ready := false, timedOut := false }) := by
  have hmunmap : (if client.mapping ≠ 0 ∧ client.mappingSize ≠ 0 then
      (p.munmap client.mapping client.mappingSize unmapped).1 else p) =
      p.emit (if (client.mapping ≠ 0 ∧ client.mappingSize ≠ 0) ∧ unmapped = true then
        [.unmapped client.mapping client.mappingSize] else []) := by
    unfold munmap
    by_cases hmapping : client.mapping ≠ 0 ∧ client.mappingSize ≠ 0
    · cases unmapped <;> simp [hmapping]
    · simp [hmapping]
  have hfree : ∀ p : Process, (if client.reattached = true ∧ client.segmentAllocation ≠ 0 then
      p.free client.segmentAllocation else p) =
      p.emit (if client.reattached = true ∧ client.segmentAllocation ≠ 0 then
        [.freed client.segmentAllocation] else []) := by
    intro p
    by_cases hblock : client.reattached = true ∧ client.segmentAllocation ≠ 0
    · rw [if_pos hblock, if_pos hblock]
      rfl
    · rw [if_neg hblock, if_neg hblock, emit_nil]
  unfold shutdownRest givingUp
  rw [hmunmap, ← emit_emit]
  dsimp only
  rw [hfree]

theorem memory_shutdown (p : Process) (client : BrokerClient) (a : ExchangeAnswers)
    (unmapped : Bool) :
    (brokerClientShutdown p client a unmapped).1.memory = p.memory ++ givingUp client unmapped := by
  have hnotified : (if client.acquired ∧ client.socketFd ≥ 0 then (brokerClientNotify p client a).1
      else p).memory = p.memory := by
    split
    · exact memory_notify p client a
    · rfl
  have hall : (givingUp client unmapped).filter ProcessEvent.isMemory = givingUp client unmapped :=
    List.filter_eq_self.mpr (isMemory_givingUp client unmapped)
  unfold brokerClientShutdown
  rw [shutdownRest_eq, memory_closeDescriptors, memory_emit, hall, hnotified]

/-- Shutdown gives back everything. -/
theorem Holding.shutdown (h : s.Holding base cache lock socket) {a : ExchangeAnswers}
    (hreply : Deliverable a.reply) (unmapped : Bool) :
    (brokerClientShutdown s.process s.client a unmapped).1.Holds base [] ∧
      (brokerClientShutdown s.process s.client a unmapped).2 = .initializer := by
  have hnotified : (if s.client.acquired ∧ s.client.socketFd ≥ 0 then
      (brokerClientNotify s.process s.client a).1 else s.process).Holds base
      (cache ++ (lock ++ socket)) := by
    split
    · exact h.holds.notify h.connected hreply
    · exact h.holds
  unfold brokerClientShutdown
  dsimp only
  generalize (if s.client.acquired ∧ s.client.socketFd ≥ 0 then
    (brokerClientNotify s.process s.client a).1 else s.process) = p at hnotified ⊢
  have hheld : (p.emit (givingUp s.client unmapped)).Holds base
      (cache ++ (lock ++ (socket ++ []))) := by
    rw [List.append_nil]
    exact hnotified.memory (isMemory_givingUp s.client unmapped)
  obtain ⟨hholds, hclient⟩ := Process.Holds.closeDescriptors h.owns hheld
  rw [shutdownRest_eq, hclient]
  exact ⟨hholds, rfl⟩

theorem Kept.shutdown (h : s.Kept) {a : ExchangeAnswers} (hreply : Deliverable a.reply)
    (unmapped : Bool) : (s.step (.shutdown a unmapped)).Kept := by
  obtain ⟨base, cache, lock, socket, hholding⟩ := h.holding
  have hshut := hholding.shutdown hreply unmapped
  have hmemory := memory_shutdown s.process s.client a unmapped
  unfold ClientLife.step
  dsimp only
  generalize brokerClientShutdown s.process s.client a unmapped = shut at hshut hmemory ⊢
  obtain ⟨p', client'⟩ := shut
  obtain ⟨hheld, hclient⟩ := hshut
  dsimp only at hheld hclient hmemory ⊢
  subst hclient
  constructor
  · exact ⟨base, [], [], [], ⟨slot_empty, slot_empty, slot_empty⟩, hheld, by simp⟩
  · intro hcreator
    cases hcreator
  · refine h.mapping.emptied ?_ ?_ rfl rfl
    · unfold Process.mapped
      rw [hmemory, List.filterMap_append]
      unfold givingUp
      split <;> split <;> exact List.append_nil _
    · unfold Process.unmapped
      rw [hmemory, List.filterMap_append]
      unfold givingUp
      by_cases hremoved : (s.client.mapping ≠ 0 ∧ s.client.mappingSize ≠ 0) ∧ unmapped = true
      · rw [if_pos hremoved]
        refine .inr ⟨hremoved.1.1, hremoved.1.2, ?_⟩
        split <;> rfl
      · rw [if_neg hremoved]
        left
        split <;> exact List.append_nil _
  · exact fun _ => rfl

/-- After the acquisition, whatever came of it. -/
theorem kept_acquire (fds : DescriptorTable Object) (c : ConnId) (effectiveUid : Nat)
    (socketPath cacheKey : List UInt8) (size : UInt64) {a : AcquireAnswers}
    (hreply : Deliverable a.reply) :
    (acquire fds c effectiveUid socketPath cacheKey size a).Kept := by
  unfold acquire
  have hends := brokerClientAcquire_ends (Holds.start fds) c effectiveUid socketPath cacheKey size
    hreply
  generalize brokerClientAcquire ⟨fds, []⟩ .initializer c effectiveUid socketPath cacheKey size
    .cleared a = ends at hends ⊢
  obtain ⟨p', client, outputs, status⟩ := ends
  rcases hends with ⟨timedOut, -, hfailed⟩ | hheld
  · obtain ⟨-, hholds, hclient, ⟨errorIn, houtputs⟩, hmemory⟩ := hfailed
    dsimp only at hholds hclient houtputs hmemory ⊢
    subst hclient houtputs
    constructor
    · exact ⟨fds, [], [], [], ⟨slot_empty, slot_empty, slot_empty⟩, hholds, by simp⟩
    · intro hcreator
      cases hcreator
    · obtain ⟨hone, hremoved⟩ := hmemory.mapping_once rfl
      exact ⟨hone, hremoved, fun hne => absurd rfl hne, fun segment hsome => by cases hsome⟩
    · intro hended
      cases hended
  · obtain ⟨cacheFd, lockFd, socketFd, cache, lock, mapping, allocation, globals, creator, hholds,
      hmemory, hmapping, -, heq⟩ := hheld.ends
    cases heq
    have hlist : Process.mapped p' = [(mapping, size)] ∧ Process.unmapped p' = [] := by
      unfold Process.mapped Process.unmapped
      rw [hmemory]
      exact ⟨rfl, rfl⟩
    constructor
    · exact ⟨fds, [(cacheFd, cache)], [(lockFd, lock)], [(socketFd, .conn c)],
        ⟨slot_full _ _, slot_full _ _, slot_full _ _⟩, hholds, by simp⟩
    · exact fun _ => Int.natCast_nonneg socketFd
    · constructor
      · rw [hlist.1]
        exact Nat.le_refl 1
      · rw [hlist.1, hlist.2]
        exact List.nil_sublist _
      · exact fun _ _ => hlist.symm
      · intro segment hsome
        cases hsome
        exact ⟨rfl, rfl⟩
    · intro hended
      cases hended

theorem Kept.step (h : s.Kept) {call : ClientCall} (hpermitted : s.Permitted call) :
    (s.step call).Kept := by
  obtain ⟨hserving, hallowed⟩ := hpermitted
  cases call with
  | lock answer =>
      refine h.unchanged ?_ (memory_setLock s.process s.client _ _ answer) (.inl rfl) (.inl rfl)
        hserving
      exact fun _ _ _ _ hholding => hholding.holds.setLock hholding.locked _ _ answer
  | unlock answer =>
      refine h.unchanged ?_ (memory_setLock s.process s.client _ _ answer) (.inl rfl) (.inl rfl)
        hserving
      exact fun _ _ _ _ hholding => hholding.holds.setLock hholding.locked _ _ answer
  | publish sharedGlobals a =>
      obtain ⟨hmemory, hclient⟩ := publish_spec s.process s.client sharedGlobals a
      refine h.unchanged ?_ hmemory (hclient.imp_right And.right) (.inl rfl) hserving
      intro base cache lock socket hholding
      exact hholding.holds.publish (fun hcreator => hholding.connected (h.creator hcreator)) hallowed
        sharedGlobals
  | abort a =>
      refine h.unchanged ?_ (memory_abort s.process s.client a) (.inl rfl) (.inl rfl) hserving
      exact fun _ _ _ _ hholding => hholding.holds.abort hholding.connected hallowed
  | detach address unmapped => exact h.detach hserving address unmapped
  | shutdown a unmapped => exact h.shutdown hallowed unmapped
  | elsewhere fds => exact h.elsewhere hallowed

theorem Reachable.kept (h : s.Reachable) : s.Kept := by
  refine Execution.Reachable.invariant (I := Kept) ?_ ?_ h
  · rintro s ⟨fds, c, effectiveUid, socketPath, cacheKey, size, a, hreply, rfl⟩
    exact kept_acquire fds c effectiveUid socketPath cacheKey size hreply
  · rintro s call s' hs ⟨hpermitted, rfl⟩
    exact hs.step hpermitted

/-! ### The accounts -/

/-- The descriptors and the mapping of a client. A number that is used after it was closed is a
bad use in the run in which nobody else opened it again. -/
structure Accounted (s : ClientLife) : Prop where
  sound : ∀ fd, ProcessEvent.badUse fd ∉ s.process.log
  held : ∃ base held, Custody base s.process.fds s.process.opened s.process.closed held ∧
    ∀ n, n ∈ held.map Prod.fst ↔ Field s.client n
  unmappedOnce : s.process.unmapped.length ≤ 1
  unmappedMapping : s.process.unmapped.Sublist s.process.mapped
  ended : s.ended = true → s.client = .initializer ∧ s.process.opened.Perm s.process.closed
  again : s.ended = true → ∀ p a unmapped,
    brokerClientShutdown p s.client a unmapped = (p, s.client)

theorem shutdown_initializer (p : Process) (a : ExchangeAnswers) (unmapped : Bool) :
    brokerClientShutdown p .initializer a unmapped = (p, .initializer) := rfl

/-- The life of a client, whatever every call is answered. -/
theorem client_accounted (h : s.Reachable) : s.Accounted := by
  have hkept := h.kept
  obtain ⟨base, cache, lock, socket, hholding⟩ := hkept.holding
  constructor
  · exact hholding.holds.sound
  · exact ⟨base, _, hholding.holds.custody, hholding.field_iff⟩
  · exact hkept.mapping.removed.length_le.trans hkept.mapping.once
  · exact hkept.mapping.removed
  · intro hended
    have hclient := hkept.ended hended
    refine ⟨hclient, ?_⟩
    have hnone : cache ++ (lock ++ socket) = [] := by
      apply List.map_eq_nil_iff.mp
      apply List.eq_nil_iff_forall_not_mem.mpr
      intro n hmem
      have hfield := (hholding.field_iff n).mp hmem
      rw [hclient] at hfield
      exact not_field_initializer n hfield
    have hcustody := hholding.holds.custody
    rw [hnone] at hcustody
    exact hcustody.settled.2
  · intro hended p a unmapped
    rw [hkept.ended hended]
    exact shutdown_initializer p a unmapped

theorem Reachable.call (h : s.Reachable) {call : ClientCall} (hpermitted : s.Permitted call) :
    (s.step call).Reachable :=
  h.tail ⟨hpermitted, rfl⟩

/-- A client that attaches. -/
def attaching : AcquireAnswers where
  connect := ⟨some 3, true, true, true, some ⟨true, 1, 1000⟩, some ⟨true, 1000, 0o600⟩⟩
  sent := .ok ()
  reply := .ok
    { octets := MessageV1.encode { brokerMessageInit .attach with
        mappingSize := 4096, mappingBase := 65536, sharedGlobalsOffset := 16 }
      control := [.rights [(4, .memfd 0), (5, .memfd 1)] false]
      controlTruncated := false }
  map := ⟨some 65536, true, 131072⟩

def attached : ClientLife := acquire .empty 0 1000 [115] [107] 4096 attaching

def detached : ClientLife := (attached.step (.lock fun _ _ => true)).step (.detach 8 true)

/-- The broker does not answer the goodbye. -/
def departed : ClientLife := detached.step (.shutdown ⟨.ok (), .error .again⟩ false)

theorem client_accounted_departed :
    departed.process.log =
      [.opened (.conn 0), .opened (.memfd 0), .opened (.memfd 1), .mapped 65536 4096 (.memfd 0),
        .allocated 131072, .unmapped 65536 4096, .freed 131072,
        .closed (.memfd 0), .closed (.memfd 1), .closed (.conn 0)] ∧
    departed.Accounted := by
  have hreply : Deliverable attaching.reply := by
    intro r hr
    cases hr
    exact ⟨by decide, by decide⟩
  have hsilent : Deliverable (.error .again) := by
    intro r hr
    cases hr
  have hattached : attached.Reachable := .of_init ⟨_, _, _, _, _, _, _, hreply, rfl⟩
  have hlocked : (attached.step (.lock fun _ _ => true)).Reachable :=
    hattached.call ⟨by decide +kernel, trivial⟩
  have hdetached : detached.Reachable := hlocked.call ⟨by decide +kernel, by decide +kernel⟩
  have hdeparted : departed.Reachable := hdetached.call ⟨by decide +kernel, hsilent⟩
  exact ⟨by decide +kernel, client_accounted hdeparted⟩

end ClientLife

end Hyperglyph
