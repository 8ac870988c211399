import Hyperglyph.Client.Holding

/-! The two ways `ahe_broker_client_acquire` ends: with everything given back, or with three
descriptors, a mapping and a block in the client's hands. -/
namespace Hyperglyph

open DescriptorTable Process

/-- The descriptor in a field of the client, if there is one. -/
def Slot (fd : Fd) (held : List (Nat × Object)) : Prop :=
  (fd = -1 ∧ held = []) ∨ ∃ (n : Nat) (o : Object), fd = n ∧ held = [(n, o)]

theorem slot_empty : Slot (-1) [] := .inl ⟨rfl, rfl⟩

theorem slot_full (n : Nat) (o : Object) : Slot n [(n, o)] := .inr ⟨n, o, rfl, rfl⟩

section Release

variable {base : DescriptorTable Object} {p : Process} {client : BrokerClient} {fd : Fd}
  {held slot cache lock socket : List (Nat × Object)}

def closeSlot (p : Process) (fd : Fd) : Process := if fd ≥ 0 then p.close fd else p

@[simp] theorem memory_closeSlot (p : Process) (fd : Fd) : (closeSlot p fd).memory = p.memory := by
  unfold closeSlot
  split
  · exact memory_close p fd
  · rfl

theorem Process.Holds.closeSlot (hslot : Slot fd slot) (h : p.Holds base (slot ++ held)) :
    (closeSlot p fd).Holds base held := by
  unfold Hyperglyph.closeSlot
  rcases hslot with ⟨rfl, rfl⟩ | ⟨n, o, rfl, rfl⟩
  · rw [if_neg (by decide)]
    exact h
  · rw [if_pos (Int.natCast_nonneg n)]
    exact h.close

/-- The client without its descriptors. -/
def BrokerClient.emptyHanded (client : BrokerClient) : BrokerClient :=
  { client with cacheFd := -1, lockFd := -1, socketFd := -1 }

/-- What the fields of the client hold. -/
structure BrokerClient.Owns (client : BrokerClient) (cache lock socket : List (Nat × Object)) :
    Prop where
  cache : Slot client.cacheFd cache
  lock : Slot client.lockFd lock
  socket : Slot client.socketFd socket

theorem Slot.cleared (h : Slot fd slot) : (if fd ≥ 0 then -1 else fd) = -1 := by
  rcases h with ⟨rfl, -⟩ | ⟨n, o, rfl, -⟩
  · rfl
  · exact if_pos (Int.natCast_nonneg n)

theorem closeDescriptors_eq (p : Process) (client : BrokerClient) :
    closeDescriptors p client =
      (closeSlot (closeSlot (closeSlot p client.cacheFd) client.lockFd) client.socketFd,
        { client with
          cacheFd := if client.cacheFd ≥ 0 then -1 else client.cacheFd
          lockFd := if client.lockFd ≥ 0 then -1 else client.lockFd
          socketFd := if client.socketFd ≥ 0 then -1 else client.socketFd }) := by
  unfold closeDescriptors closeSlot
  by_cases hcache : client.cacheFd ≥ 0 <;> by_cases hlock : client.lockFd ≥ 0 <;>
    by_cases hsocket : client.socketFd ≥ 0 <;> simp [hcache, hlock, hsocket]

theorem memory_closeDescriptors (p : Process) (client : BrokerClient) :
    (closeDescriptors p client).1.memory = p.memory := by
  rw [closeDescriptors_eq, memory_closeSlot, memory_closeSlot, memory_closeSlot]

/-- Every descriptor of the client is closed, and no other. -/
theorem Process.Holds.closeDescriptors (hclient : client.Owns cache lock socket)
    (h : p.Holds base (cache ++ (lock ++ (socket ++ held)))) :
    (closeDescriptors p client).1.Holds base held ∧
      (closeDescriptors p client).2 = client.emptyHanded := by
  rw [closeDescriptors_eq]
  have hcache := h.closeSlot hclient.cache
  have hlock := hcache.closeSlot hclient.lock
  refine ⟨hlock.closeSlot hclient.socket, ?_⟩
  unfold BrokerClient.emptyHanded
  rw [hclient.cache.cleared, hclient.lock.cleared, hclient.socket.cleared]

end Release

/-- What was mapped since is unmapped again, if the kernel let it; `unmapped` is its answer to
`munmap`. -/
def GaveUp (p₀ p : Process) (unmapped : Bool) : Prop :=
  p.memory = p₀.memory ∨ ∃ address size o,
    p.memory = p₀.memory ++ .mapped address size o ::
      if unmapped = true then [.unmapped address size] else []

/-- The acquisition failed and gave back everything. -/
structure AcquireFailed (base : DescriptorTable Object) (p : Process) (timedOut unmapped : Bool)
    (r : Process × BrokerClient × Outputs × ShmStatus) : Prop where
  status : r.2.2.2 = .allocFailure
  held : r.1.Holds base []
  client : r.2.1 = { BrokerClient.initializer with timedOut }
  outputs : ∃ errorIn, r.2.2.1 = { Outputs.cleared with errorIn }
  memory : GaveUp p r.1 unmapped

/-- The acquisition succeeded, and this is what the client has. -/
structure AcquireHeld (base : DescriptorTable Object) (p : Process) (c : ConnId) (size : UInt64)
    (r : Process × BrokerClient × Outputs × ShmStatus) : Prop where
  ends : ∃ (cacheFd lockFd socketFd : Nat) (cache lock : Object) (mapping allocation globals : UInt64)
      (creator : Bool),
    r.1.Holds base [(cacheFd, cache), (lockFd, lock), (socketFd, .conn c)] ∧
    r.1.memory = p.memory ++ [.mapped mapping size cache, .allocated allocation] ∧
    mapping ≠ 0 ∧ allocation ≠ 0 ∧
    r.2 =
      ({ BrokerClient.initializer with
          socketFd, cacheFd, lockFd, mapping, mappingSize := size, segmentAllocation := allocation,
          creator, reattached := !creator, acquired := true },
        { Outputs.cleared with
          sharedSegments := some ⟨allocation, ⟨size, size, 0, mapping⟩⟩, sharedSegmentCount := 1,
          reattachedSharedGlobals := globals },
        if creator = true then .allocSuccess else .successfullyReattached)

section Ends

variable {base : DescriptorTable Object} {p p₀ : Process} {c : ConnId} {size : UInt64}
  {out : Outputs} {a : MapAnswers} {n : Nat}

/-! ### Failing -/

theorem acquireUnanswered_fails (h : p.Holds base [(n, .conn c)]) (hmemory : p.memory = p₀.memory)
    (e : Errno) (unmapped : Bool) :
    AcquireFailed base p₀ (e == .again) unmapped
      (acquireUnanswered p { BrokerClient.initializer with socketFd := n } .cleared e) := by
  have howns : BrokerClient.Owns
      { BrokerClient.initializer with socketFd := n, timedOut := e == .again } [] []
      [(n, .conn c)] :=
    ⟨slot_empty, slot_empty, slot_full n _⟩
  obtain ⟨hheld, hclient⟩ := Process.Holds.closeDescriptors howns h
  have hkept := memory_closeDescriptors p
    { BrokerClient.initializer with socketFd := n, timedOut := e == .again }
  exact ⟨rfl, hheld, hclient, ⟨_, rfl⟩, .inl (hkept.trans hmemory)⟩

theorem acquireRefused_fails {installed : List (Nat × Object)}
    (h : p.Holds base (installed ++ [(n, .conn c)])) (hmemory : p.memory = p₀.memory)
    (text : String) (unmapped : Bool) :
    AcquireFailed base p₀ false unmapped
      (acquireRefused p { BrokerClient.initializer with socketFd := n } .cleared
        (installed.map fun i => (i.1 : Fd)) text) := by
  have hclosed : (closeReceivedFds p (installed.map fun i => (i.1 : Fd))).Holds base
      [(n, .conn c)] := by
    rw [closeReceivedFds_eq]
    exact h.closeAll
  have hquiet : (closeReceivedFds p (installed.map fun i => (i.1 : Fd))).memory = p₀.memory := by
    rw [memory_closeReceivedFds, hmemory]
  have howns : BrokerClient.Owns { BrokerClient.initializer with socketFd := n } [] []
      [(n, .conn c)] :=
    ⟨slot_empty, slot_empty, slot_full n _⟩
  obtain ⟨hheld, hclient⟩ := Process.Holds.closeDescriptors howns hclosed
  have hkept := memory_closeDescriptors
    (closeReceivedFds p (installed.map fun i => (i.1 : Fd)))
    { BrokerClient.initializer with socketFd := n }
  exact ⟨rfl, hheld, hclient, ⟨_, rfl⟩, .inl (hkept.trans hquiet)⟩

section Stored

variable {cacheFd lockFd socketFd : Nat} {cache lock : Object} {unmapped : Bool}

/-- The client once the received descriptors are in their fields. -/
def BrokerClient.stored (cacheFd lockFd socketFd : Fd) : BrokerClient :=
  { BrokerClient.initializer with socketFd, cacheFd, lockFd }

theorem acquireAbandoned_fails
    (h : p.Holds base [(cacheFd, cache), (lockFd, lock), (socketFd, .conn c)])
    (hmemory : GaveUp p₀ p unmapped) (text : String) :
    AcquireFailed base p₀ false unmapped
      (acquireAbandoned p (.stored cacheFd lockFd socketFd) .cleared text) := by
  have howns : (BrokerClient.stored cacheFd lockFd socketFd).Owns [(cacheFd, cache)]
      [(lockFd, lock)] [(socketFd, .conn c)] :=
    ⟨slot_full _ _, slot_full _ _, slot_full _ _⟩
  obtain ⟨hheld, hclient⟩ := Process.Holds.closeDescriptors howns h
  refine ⟨rfl, hheld, hclient, ⟨_, rfl⟩, ?_⟩
  unfold GaveUp at hmemory ⊢
  rw [← memory_closeDescriptors p (.stored cacheFd lockFd socketFd)] at hmemory
  exact hmemory

/-- `mmap` of a held descriptor. -/
theorem Process.Holds.mmap {held : List (Nat × Object)} {o : Object} (h : p.Holds base held)
    (hmem : (n, o) ∈ held) (size : UInt64) (answer : Option UInt64) :
    p.mmap n size answer = (p, none) ∨ ∃ address, address ≠ 0 ∧
      p.mmap n size answer = (p.emit [.mapped address size o], some address) := by
  unfold Process.mmap
  rw [h.get hmem]
  cases answer with
  | none => exact .inl rfl
  | some address =>
      by_cases hzero : address = 0
      · exact .inl (if_pos hzero)
      · exact .inr ⟨address, hzero, if_neg hzero⟩

/-- The mapping was made and is given up. -/
theorem munmap_gives_up {address : UInt64} {o : Object}
    (h : p.Holds base [(cacheFd, cache), (lockFd, lock), (socketFd, .conn c)])
    (hmemory : p.memory = p₀.memory ++ [.mapped address size o]) (unmapped : Bool) :
    (p.munmap address size unmapped).1.Holds base
        [(cacheFd, cache), (lockFd, lock), (socketFd, .conn c)] ∧
      GaveUp p₀ (p.munmap address size unmapped).1 unmapped := by
  unfold munmap
  cases unmapped with
  | true =>
      refine ⟨h.memory (by simp [ProcessEvent.isMemory]), .inr ⟨address, size, o, ?_⟩⟩
      show (p.emit [.unmapped address size]).memory = _
      rw [memory_emit, hmemory, List.append_assoc]
      rfl
  | false => exact ⟨h, .inr ⟨address, size, o, hmemory⟩⟩

theorem allocateSegment_cases (p : Process) (client : BrokerClient) (out : Outputs)
    (answer : UInt64) :
    allocateSegment p client out answer = (p, none) ∨ answer ≠ 0 ∧
      allocateSegment p client out answer = (p.emit [.allocated answer],
        some ({ client with segmentAllocation := answer },
          { out with
            sharedSegments := some ⟨answer, ⟨client.mappingSize, client.mappingSize, 0,
              client.mapping⟩⟩
            sharedSegmentCount := 1 })) := by
  unfold allocateSegment calloc
  by_cases hzero : answer = 0
  · exact .inl (by simp [hzero])
  · exact .inr ⟨hzero, by simp [hzero]⟩

/-- Mapping the cache and allocating the segment: both, or neither is left. -/
theorem acquireMap_ends {response : MessageV1}
    (h : p.Holds base [(cacheFd, cache), (lockFd, lock), (socketFd, .conn c)])
    (hmemory : p.memory = p₀.memory)
    (htype : response.type = MessageType.create.code ∨ response.type = MessageType.attach.code) :
    AcquireFailed base p₀ false a.unmapped
        (acquireMap p (.stored cacheFd lockFd socketFd) .cleared size response a) ∨
      AcquireHeld base p₀ c size
        (acquireMap p (.stored cacheFd lockFd socketFd) .cleared size response a) := by
  have hne : MessageType.create.code ≠ MessageType.attach.code := by decide
  unfold acquireMap
  dsimp only
  rcases h.mmap List.mem_cons_self size a.mapped with heq | ⟨address, haddress, heq⟩
  · have hfailed : p.mmap (BrokerClient.stored cacheFd lockFd socketFd).cacheFd size a.mapped =
        (p, none) := heq
    rw [hfailed]
    exact .inl (acquireAbandoned_fails h (.inl hmemory) _)
  · have hmade : p.mmap (BrokerClient.stored cacheFd lockFd socketFd).cacheFd size a.mapped =
        (p.emit [.mapped address size cache], some address) := heq
    rw [hmade]
    have hmapped : (p.emit [.mapped address size cache]).Holds base
        [(cacheFd, cache), (lockFd, lock), (socketFd, .conn c)] :=
      h.memory (by simp [ProcessEvent.isMemory])
    have hlog : (p.emit [.mapped address size cache]).memory =
        p₀.memory ++ [.mapped address size cache] := by
      rw [memory_emit, hmemory]
      rfl
    dsimp only
    split
    · obtain ⟨hheld, hgone⟩ := munmap_gives_up hmapped hlog a.unmapped
      exact .inl (acquireAbandoned_fails hheld hgone _)
    · have hallocate := allocateSegment_cases (p.emit [.mapped address size cache])
        { BrokerClient.stored cacheFd lockFd socketFd with mapping := address, mappingSize := size }
        .cleared a.allocated
      dsimp only at hallocate
      rcases hallocate with hnone | ⟨hallocation, hsome⟩
      · rw [hnone]
        obtain ⟨hheld, hgone⟩ := munmap_gives_up hmapped hlog a.unmapped
        exact .inl (acquireAbandoned_fails hheld hgone _)
      · rw [hsome]
        have hheld : ((p.emit [.mapped address size cache]).emit [.allocated a.allocated]).Holds base
            [(cacheFd, cache), (lockFd, lock), (socketFd, .conn c)] :=
          hmapped.memory (by simp [ProcessEvent.isMemory])
        have hkept : ((p.emit [.mapped address size cache]).emit [.allocated a.allocated]).memory =
            p₀.memory ++ [.mapped address size cache, .allocated a.allocated] := by
          rw [memory_emit, hlog, List.append_assoc]
          rfl
        right
        rcases htype with hcreate | hattach
        · simp only [hcreate, beq_self_eq_true, beq_eq_false_iff_ne.mpr hne, Bool.false_eq_true,
            if_false]
          exact ⟨_, _, _, _, _, _, _, _, true, hheld, hkept, haddress, hallocation, rfl⟩
        · simp only [hattach, beq_self_eq_true, beq_eq_false_iff_ne.mpr hne.symm, if_true]
          exact ⟨_, _, _, _, _, _, _, _, false, hheld, hkept, haddress, hallocation, rfl⟩

end Stored

/-! ### The reply -/

/-- The descriptors of a reply are closed again, or they are the two that are kept. -/
theorem acquireReply_ends {installed : List (Nat × Object)} {response : MessageV1}
    (h : p.Holds base (installed ++ [(n, .conn c)])) (hmemory : p.memory = p₀.memory) :
    AcquireFailed base p₀ false a.unmapped
        (acquireReply p { BrokerClient.initializer with socketFd := n } .cleared size response
          (installed.map fun i => (i.1 : Fd)) a) ∨
      AcquireHeld base p₀ c size
        (acquireReply p { BrokerClient.initializer with socketFd := n } .cleared size response
          (installed.map fun i => (i.1 : Fd)) a) := by
  unfold acquireReply
  split
  · exact .inl (acquireRefused_fails h hmemory _ _)
  split
  · exact .inl (acquireRefused_fails h hmemory _ _)
  next hvalid =>
    simp only [not_or, not_and, not_not, List.length_map] at hvalid
    obtain ⟨hcount, -, htype⟩ := hvalid
    obtain ⟨⟨cacheFd, cache⟩, ⟨lockFd, lock⟩, rfl⟩ := List.length_eq_two.mp hcount
    dsimp only
    split
    · exact .inl (acquireAbandoned_fails h (.inl hmemory) _)
    · refine acquireMap_ends h hmemory ?_
      by_cases hcreate : response.type = MessageType.create.code
      · exact .inl hcreate
      · exact .inr (htype hcreate)

theorem acquireReceive_ends {reply : Except Errno Reception} (h : p.Holds base [(n, .conn c)])
    (hmemory : p.memory = p₀.memory) (hreply : Deliverable reply) :
    AcquireFailed base p₀ (decide (reply = .error .again)) a.unmapped
        (acquireReceive p { BrokerClient.initializer with socketFd := n } .cleared size reply a) ∨
      AcquireHeld base p₀ c size
        (acquireReceive p { BrokerClient.initializer with socketFd := n } .cleared size reply a) := by
  unfold acquireReceive
  have hreceived := h.receive List.mem_cons_self brokerDescriptorCount hreply
  have hkept := memory_clientReceiveMessage p n brokerDescriptorCount reply
  dsimp only
  generalize clientReceiveMessage p n brokerDescriptorCount reply = received at hreceived hkept ⊢
  obtain ⟨p', answer⟩ := received
  rcases hreceived with ⟨e, heq, hagain, hheld⟩ | ⟨m, installed, hnot, -, heq, hheld⟩
  · cases heq
    have hflag : decide (reply = .error .again) = (e == .again) := by
      by_cases he : e = .again
      · simp [he, hagain.mp he]
      · simp [he, mt hagain.mpr he]
    rw [hflag]
    exact .inl (acquireUnanswered_fails hheld (hkept.trans hmemory) e _)
  · cases heq
    rw [decide_eq_false hnot]
    exact acquireReply_ends hheld (hkept.trans hmemory)

/-! ### Connecting -/

theorem brokerConnect_cases (h : p.Holds base []) (effectiveUid : Nat) (socketPath : List UInt8)
    (a : ConnectAnswers) :
    ((brokerConnect p c effectiveUid socketPath a).2 = -1 ∧
        (brokerConnect p c effectiveUid socketPath a).1.Holds base [] ∧
        (brokerConnect p c effectiveUid socketPath a).1.memory = p.memory) ∨
      ∃ n : Nat, (brokerConnect p c effectiveUid socketPath a).2 = n ∧
        (brokerConnect p c effectiveUid socketPath a).1.Holds base [(n, .conn c)] ∧
        (brokerConnect p c effectiveUid socketPath a).1.memory = p.memory := by
  unfold brokerConnect
  split
  · exact .inl ⟨rfl, h, rfl⟩
  rcases socket_cases p c a.socket with heq | ⟨n, hfree, heq⟩
  · rw [heq]
    exact .inl ⟨rfl, h, rfl⟩
  · rw [heq]
    have hopen := h.install hfree (.conn c)
    have hquiet : (p.emit [.opened (.conn c)]).memory = p.memory := by
      rw [memory_emit]
      exact List.append_nil _
    dsimp only
    rw [if_neg (by simp)]
    split
    · refine .inl ⟨rfl, hopen.close, ?_⟩
      rw [memory_close]
      exact hquiet
    · exact .inr ⟨n, rfl, hopen, hquiet⟩

/-- A `send` or `recvmsg` on the connected socket ended in `EAGAIN`. -/
def TimesOut (p : Process) (c : ConnId) (effectiveUid : Nat) (socketPath cacheKey : List UInt8)
    (a : AcquireAnswers) : Prop :=
  cacheKey.length < brokerCacheKeySize ∧
    (brokerConnect p c effectiveUid socketPath a.connect).2 ≥ 0 ∧
    (a.sent = .error .again ∨ a.sent = .ok () ∧ a.reply = .error .again)

/-- A client in its initial state acquires, whatever the kernel and the broker answer. -/
theorem brokerClientAcquire_ends (h : p.Holds base []) (c : ConnId) (effectiveUid : Nat)
    (socketPath cacheKey : List UInt8) (size : UInt64) {a : AcquireAnswers}
    (hreply : Deliverable a.reply) :
    (∃ timedOut, (timedOut = true ↔ TimesOut p c effectiveUid socketPath cacheKey a) ∧
        AcquireFailed base p timedOut a.map.unmapped
          (brokerClientAcquire p .initializer c effectiveUid socketPath cacheKey size .cleared a)) ∨
      AcquireHeld base p c size
        (brokerClientAcquire p .initializer c effectiveUid socketPath cacheKey size .cleared a) := by
  unfold brokerClientAcquire acquireConnect TimesOut
  dsimp only
  by_cases hlong : cacheKey.length ≥ brokerCacheKeySize
  · rw [if_pos hlong]
    have hnot : ¬ cacheKey.length < brokerCacheKeySize := Nat.not_lt.mpr hlong
    exact .inl ⟨false, by simp [hnot], ⟨rfl, h, rfl, ⟨_, rfl⟩, .inl rfl⟩⟩
  rw [if_neg hlong]
  have hconnect := brokerConnect_cases h effectiveUid socketPath a.connect (c := c)
  generalize brokerConnect p c effectiveUid socketPath a.connect = connected at hconnect ⊢
  obtain ⟨p', socketFd⟩ := connected
  rcases hconnect with ⟨hfd, hheld, hkept⟩ | ⟨n, hfd, hheld, hkept⟩
  · cases hfd
    exact .inl ⟨false, by simp, ⟨rfl, hheld, rfl, ⟨_, rfl⟩, .inl hkept⟩⟩
  · obtain rfl : socketFd = (n : Fd) := hfd
    have hopen : ¬ ((n : Fd) < 0) := Int.not_lt.mpr (Int.natCast_nonneg n)
    have hfits : cacheKey.length < brokerCacheKeySize := Nat.lt_of_not_le hlong
    dsimp only
    rw [if_neg hopen]
    dsimp only
    rw [send_of_held hheld List.mem_cons_self]
    cases hsent : a.sent with
    | error e =>
        refine .inl ⟨e == .again, ?_, acquireUnanswered_fails hheld hkept e _⟩
        simp [hfits]
    | ok =>
        rcases acquireReceive_ends hheld hkept hreply with hfailed | hsucceeded
        · refine .inl ⟨_, ?_, hfailed⟩
          simp [hfits]
        · exact .inr hsucceeded

end Ends

end Hyperglyph
