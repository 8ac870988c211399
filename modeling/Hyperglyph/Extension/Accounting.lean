import Hyperglyph.Extension.Contract
import Hyperglyph.Extension.Wiring

/-! The accounts of OPcache and the extension together: who holds which descriptor, over any
number of startups and shutdowns. -/
namespace Hyperglyph

open DescriptorTable Process

/-! ### What each function of OPcache does to the fields that matter here -/

namespace Opcache

variable {o : Opcache} {sizeofSharedGlobals : UInt64} {a : StartupAnswers}

/-- The provider that was registered. -/
def registration (o : Opcache) : Bool × ShmProviderV2 := (o.providerRegistered, o.provider)

/-- A provider is registered once. -/
theorem register_again (h : o.providerRegistered = true) (provider : Option ShmProviderV2) :
    o.register provider = o.emit [.registration false] := by
  have hrefused : o.registrationRefused provider = true := by
    cases provider with
    | none => rfl
    | some provider => simp [registrationRefused, h]
  unfold register
  rw [hrefused]
  rfl

theorem startupGlobals_fields (o : Opcache) (res : Int) (a : StartupAnswers) :
    (o.startupGlobals res a).providerActive = o.providerActive ∧
      (o.startupGlobals res a).registration = o.registration ∧
      (o.startupGlobals res a).lockFile = o.lockFile ∧
      (o.startupGlobals res a).stage ≠ .down := by
  unfold startupGlobals
  split
  · exact ⟨rfl, rfl, rfl, by simp⟩
  · split
    · exact ⟨rfl, rfl, rfl, by simp⟩
    · split
      · exact ⟨rfl, rfl, rfl, by simp [fatal]⟩
      · exact ⟨rfl, rfl, rfl, by simp⟩

/-- With an allocation of the provider OPcache's state is known before its own tables are made. -/
theorem startup_of_accepted (hregistered : o.providerRegistered = true)
    (h : (providerCreateSegments sizeofSharedGlobals a.allocated a.checkedLockFile).1 ≠
      allocFailure) :
    ∃ o' : Opcache, o'.registration = o.registration ∧
      o'.delivered = o.delivered ++ [.createSegments (providerCreateSegments sizeofSharedGlobals
        a.allocated a.checkedLockFile).1] ∧ o.sharedAllocStartup sizeofSharedGlobals a =
      Opcache.startupGlobals { o' with
          lockFile := a.lockFile, providerActive := true, startupFinished := false }
        (providerCreateSegments sizeofSharedGlobals a.allocated a.checkedLockFile).1 a := by
  refine ⟨{ (({ o.emit [.startup] with started := true } : Opcache).deliver
      [.createSegments (providerCreateSegments sizeofSharedGlobals a.allocated
        a.checkedLockFile).1]) with
    handler := some .external
    model := o.provider.name
    reattachedGlobals := a.allocated.reattachedSharedGlobals }, rfl, ?_, ?_⟩
  · simp only [delivered, deliver, emit, List.filterMap_append, List.append_assoc]
    rfl
  have hbegun : ({ o.emit [.startup] with started := true } : Opcache).providerRegistered = true :=
    hregistered
  simp only [sharedAllocStartup, startupProvider, if_pos hbegun, tryProvider, if_pos h,
    startupBuiltin]
  rfl

/-- Without one it goes on to the built-in memory models. -/
theorem startup_of_refused (hregistered : o.providerRegistered = true)
    (h : (providerCreateSegments sizeofSharedGlobals a.allocated a.checkedLockFile).1 =
      allocFailure) :
    ∃ o' : Opcache, o'.registration = o.registration ∧ o'.providerActive = o.providerActive ∧
      o'.lockFile = o.lockFile ∧ o'.handler = none ∧ o.sharedAllocStartup sizeofSharedGlobals a =
        match o'.startupBuiltin allocFailure a with
        | (s, none) => s.fatal
        | (s, some res) => s.startupGlobals res a := by
  have hbegun : ({ o.emit [.startup] with started := true } : Opcache).providerRegistered = true :=
    hregistered
  refine ⟨(({ o.emit [.startup] with started := true } : Opcache).startupProvider
    sizeofSharedGlobals a).1, ?_, ?_, ?_, ?_, ?_⟩
  all_goals simp only [sharedAllocStartup, startupProvider, if_pos hbegun, tryProvider, h,
    ne_eq, not_true_eq_false, if_false]
  all_goals rfl

/-- The provider is active, and OPcache locks its file. -/
theorem startup_accepted (hregistered : o.providerRegistered = true)
    (h : (providerCreateSegments sizeofSharedGlobals a.allocated a.checkedLockFile).1 ≠
      allocFailure) :
    (o.sharedAllocStartup sizeofSharedGlobals a).providerActive = true ∧
      (o.sharedAllocStartup sizeofSharedGlobals a).registration = o.registration ∧
      (o.sharedAllocStartup sizeofSharedGlobals a).lockFile = a.lockFile ∧
      (o.sharedAllocStartup sizeofSharedGlobals a).stage ≠ .down := by
  obtain ⟨o', hregistered', -, heq⟩ := startup_of_accepted hregistered h
  rw [heq]
  obtain ⟨hactive, hkept, hlock, hstage⟩ := startupGlobals_fields { o' with
    lockFile := a.lockFile, providerActive := true, startupFinished := false } _ a
  exact ⟨hactive, hkept.trans hregistered', hlock, hstage⟩

/-- OPcache goes on with a lock file of its own, or not at all. -/
theorem startup_refused (hregistered : o.providerRegistered = true)
    (h : (providerCreateSegments sizeofSharedGlobals a.allocated a.checkedLockFile).1 =
      allocFailure) :
    (o.sharedAllocStartup sizeofSharedGlobals a).providerActive = o.providerActive ∧
      (o.sharedAllocStartup sizeofSharedGlobals a).registration = o.registration ∧
      (o.sharedAllocStartup sizeofSharedGlobals a).lockFile =
        (a.createdLock.elim o.lockFile fun fd => (fd : Fd)) ∧
      (o.sharedAllocStartup sizeofSharedGlobals a).stage ≠ .down ∧
      (a.createdLock = none → (o.sharedAllocStartup sizeofSharedGlobals a).stage = .ended) := by
  obtain ⟨o', hregistered', hactive', hlock', hhandler', heq⟩ := startup_of_refused hregistered h
  rw [heq]
  unfold startupBuiltin
  rw [hhandler']
  cases a.createdLock with
  | none => exact ⟨hactive', hregistered', hlock', by simp [fatal], fun _ => rfl⟩
  | some fd =>
      cases a.builtin with
      | none => exact ⟨hactive', hregistered', rfl, by simp [fatal], fun hnone => by cases hnone⟩
      | some built =>
          obtain ⟨hactive, hkept, hlock, hstage⟩ := startupGlobals_fields
            { (o'.emit [.lockCreated fd]) with
              lockFile := fd, handler := some .builtin, model := some built.model } built.status a
          exact ⟨hactive.trans hactive', hkept.trans hregistered', hlock, hstage,
            fun hnone => by cases hnone⟩

/-- What a call leaves alone that neither starts nor ends anything. -/
structure Served (o o' : Opcache) : Prop where
  active : o'.providerActive = o.providerActive
  registered : o'.registration = o.registration
  lockFile : o'.lockFile = o.lockFile
  stage : o'.stage = o.stage ∨ o'.stage = .ended

theorem served_startupComplete (o : Opcache) (reattached : Bool) :
    o.Served (o.providerStartupComplete reattached) := by
  unfold providerStartupComplete
  split <;> exact ⟨rfl, rfl, rfl, .inl rfl⟩

theorem served_startupAborted (o : Opcache) (reason : String) :
    o.Served (o.providerStartupAborted reason) := by
  unfold providerStartupAborted
  split <;> exact ⟨rfl, rfl, rfl, .inl rfl⟩

theorem served_lock (o : Opcache) (granted : Bool) : o.Served (o.sharedAllocLock granted) := by
  unfold sharedAllocLock
  dsimp only
  split <;> split <;> first | exact ⟨rfl, rfl, rfl, .inl rfl⟩ | exact ⟨rfl, rfl, rfl, .inr rfl⟩

theorem served_unlock (o : Opcache) (granted : Bool) : o.Served (o.sharedAllocUnlock granted) := by
  unfold sharedAllocUnlock
  dsimp only
  split <;> split <;> first | exact ⟨rfl, rfl, rfl, .inl rfl⟩ | exact ⟨rfl, rfl, rfl, .inr rfl⟩

theorem shutdown_fields (o : Opcache) (segments : Nat) :
    (o.sharedAllocShutdown segments).providerActive = false ∧
      (o.sharedAllocShutdown segments).registration = o.registration ∧
      (o.sharedAllocShutdown segments).stage = .down ∧
      (o.providerActive = true ∨ 0 ≤ o.lockFile → (o.sharedAllocShutdown segments).lockFile = -1) := by
  have haborted : o.Served o.abortUnfinished := by
    unfold abortUnfinished
    split
    · exact served_startupAborted o _
    · exact ⟨rfl, rfl, rfl, .inl rfl⟩
  unfold sharedAllocShutdown
  dsimp only
  generalize o.abortUnfinished = o' at haborted ⊢
  generalize hdetached : (if o'.handler = some .external then
    o'.deliver (List.replicate segments .detachSegment) else o') = o''
  have hfields : o''.lockFile = o.lockFile ∧ o''.registration = o.registration := by
    rw [← hdetached, ← haborted.lockFile, ← haborted.registered]
    split <;> exact ⟨rfl, rfl⟩
  obtain ⟨hlock, hregistered⟩ := hfields
  cases o.providerActive with
  | true => exact ⟨rfl, hregistered, rfl, fun _ => rfl⟩
  | false =>
      simp only [Bool.false_eq_true, if_false, false_or]
      by_cases hopen : o''.lockFile ≥ 0
      · rw [if_pos hopen]
        exact ⟨rfl, hregistered, rfl, fun _ => rfl⟩
      · rw [if_neg hopen]
        refine ⟨rfl, hregistered, rfl, fun hnonneg => ?_⟩
        exact absurd (hlock ▸ hnonneg) hopen

end Opcache

theorem Slot.full {fd : Fd} {held : List (Nat × Object)} (h : Slot fd held) (hopen : 0 ≤ fd) :
    ∃ (n : Nat) (o : Object), fd = n ∧ held = [(n, o)] := by
  rcases h with ⟨rfl, -⟩ | hfull
  · exact absurd hopen (by decide)
  · exact hfull

theorem Slot.empty {held : List (Nat × Object)} (h : Slot (-1) held) : held = [] := by
  rcases h with ⟨-, hnone⟩ | ⟨n, o, hfd, -⟩
  · exact hnone
  · have hnegative : (-1 : Int) = n := hfd
    omega

/-! ### The client's functions as seen by OPcache -/

section Callbacks

variable {base : DescriptorTable Object} {p : Process} {broker : BrokerClient}
  {held cache lock socket : List (Nat × Object)}

/-- Detaching is about the mapping only. -/
theorem detach_holds (h : p.Holds base held) (howns : broker.Owns cache lock socket)
    (address : UInt64) {segment : ShmSegment} (unmapped : Bool)
    (hmapping : segment.p = broker.mapping) :
    (brokerClientDetach p broker address segment unmapped).1.Holds base held ∧
      (brokerClientDetach p broker address segment unmapped).2.1.Owns cache lock socket := by
  rcases ClientLife.detach_cases p broker address unmapped hmapping with
    ⟨hprocess, hclient⟩ | ⟨-, -, hprocess, allocation, hclient⟩
  · rw [hprocess, hclient]
    exact ⟨h, howns⟩
  · rw [hprocess, hclient]
    exact ⟨h.memory (by simp [ProcessEvent.isMemory]), howns.cache, howns.lock, howns.socket⟩

theorem Process.Holds.free (h : p.Holds base held) (address : UInt64) :
    (p.free address).Holds base held :=
  h.memory (by simp [ProcessEvent.isMemory])

theorem freeSegments_holds (h : p.Holds base held) (shared : Option SharedSegments) :
    (freeSegments p shared).Holds base held := by
  cases shared with
  | none => exact h
  | some block => exact h.free block.allocation

theorem cleanUpSegments_holds (h : p.Holds base held) (howns : broker.Owns cache lock socket)
    (unmapped : Bool) {shared : Option SharedSegments}
    (hmapping : ∀ block, shared = some block → block.segment.p = broker.mapping) :
    (cleanUpSegments p broker unmapped shared).1.Holds base held ∧
      (cleanUpSegments p broker unmapped shared).2.Owns cache lock socket := by
  cases shared with
  | none => exact ⟨h, howns⟩
  | some block =>
      unfold cleanUpSegments
      dsimp only
      split
      · obtain ⟨hholds, hkept⟩ := detach_holds h howns (block.allocation + sizeofPointer) unmapped
          (hmapping block rfl)
        exact ⟨hholds.free _, hkept⟩
      · exact ⟨h.free _, howns⟩

theorem detachSegment_holds (h : p.Holds base held) (howns : broker.Owns cache lock socket)
    (copy : UInt64) (unmapped : Bool) {segment : Option ShmSegment}
    (hmapping : ∀ s, segment = some s → s.p = broker.mapping) :
    (detachSegment p broker copy unmapped segment).1.Holds base held ∧
      (detachSegment p broker copy unmapped segment).2.Owns cache lock socket := by
  cases segment with
  | none => exact ⟨h, howns⟩
  | some s => exact detach_holds h howns copy unmapped (hmapping s rfl)

/-- OPcache's lock file is one more descriptor that is held, if there is one. -/
theorem openLock_holds (h : p.Holds base []) (answer : Option (Nat × Object)) :
    (p.openLock answer).2 = none ∧ (p.openLock answer).1.Holds base [] ∨
      ∃ n o, (p.openLock answer).2 = some n ∧ (p.openLock answer).1.Holds base [(n, o)] := by
  unfold Process.openLock
  cases answer with
  | none => exact .inl ⟨rfl, h⟩
  | some i =>
      obtain ⟨n, o⟩ := i
      dsimp only
      split
      · next hfree => exact .inr ⟨n, o, rfl, h.install hfree o⟩
      · exact .inl ⟨rfl, h⟩

/-- `fcntl` on a descriptor that is held. -/
theorem fcntl_of_slot {fd : Fd} {slot : List (Nat × Object)} (h : p.Holds base slot)
    (hslot : Slot fd slot) (hopen : 0 ≤ fd) (answer : Bool) : (p.fcntl fd answer).1 = p := by
  obtain ⟨n, o, hfd, hheld⟩ := hslot.full hopen
  unfold Process.fcntl
  rw [hfd, h.get (by rw [hheld]; exact List.mem_singleton_self _)]

theorem startupComplete_holds (h : p.Holds base held)
    (hsocket : broker.socketFd ≥ 0 → Connected broker held)
    (hcreator : broker.creator = true → broker.socketFd ≥ 0) (reattached : Bool)
    (sharedGlobals : UInt64) {publish abort : ExchangeAnswers} (hpublish : Deliverable publish.reply)
    (habort : Deliverable abort.reply) :
    (startupComplete p broker reattached sharedGlobals publish abort).1.Holds base held ∧
      ((startupComplete p broker reattached sharedGlobals publish abort).2.1 = broker ∨
        broker.creator = true ∧
          (startupComplete p broker reattached sharedGlobals publish abort).2.1 =
            broker.published) := by
  unfold startupComplete
  split
  · have hpublished := h.publish (fun hc => hsocket (hcreator hc)) hpublish sharedGlobals
    have hclient := (publish_spec p broker sharedGlobals publish).2
    generalize brokerClientPublish p broker sharedGlobals publish = published
      at hpublished hclient ⊢
    obtain ⟨p', broker', acknowledged⟩ := published
    dsimp only at hpublished hclient
    cases acknowledged with
    | true => exact ⟨hpublished, hclient⟩
    | false =>
        refine ⟨hpublished.abort ?_ habort, hclient⟩
        rcases hclient with heq | ⟨-, heq⟩ <;> rw [heq] <;> exact hsocket
  · exact ⟨h, .inl rfl⟩

end Callbacks

namespace Wired

variable {s s' : Wired} {sizeofSharedGlobals : UInt64} {base : DescriptorTable Object}
  {own cache lock socket : List (Nat × Object)}

/-! ### The invariant -/

/-- What is open is OPcache's own lock file and what the client's fields name. -/
structure Holding (s : Wired) (base : DescriptorTable Object)
    (own cache lock socket : List (Nat × Object)) : Prop where
  slot : Slot s.ownLock own
  owns : s.broker.Owns cache lock socket
  holds : s.process.Holds base (cache ++ (lock ++ (socket ++ own)))
  connection : ∀ i ∈ socket, ∃ c, i.2 = .conn c

/-- While the provider is active the client has what it acquired, and OPcache locks that; otherwise
the client is as it was at first. -/
structure Kept (s : Wired) : Prop where
  holding : ∃ base own cache lock socket, s.Holding base own cache lock socket
  registered : s.opcache.registration = (true, aheOpcacheProvider)
  creator : s.broker.creator = true → s.broker.socketFd ≥ 0
  active : s.opcache.providerActive = true →
    s.broker.acquired = true ∧ 0 ≤ s.broker.lockFd ∧ s.opcache.lockFile = s.broker.lockFd
  idle : s.opcache.providerActive = false → s.broker = .initializer
  down : s.opcache.stage = .down → s.opcache.providerActive = false ∧ s.opcache.lockFile = -1
  up : s.opcache.stage = .up → 0 ≤ s.opcache.lockFile
  segment : ∀ segment, s.segment = some segment → segment.p = s.broker.mapping

theorem Holding.connected (h : s.Holding base own cache lock socket) (hopen : s.broker.socketFd ≥ 0) :
    Connected s.broker (cache ++ (lock ++ (socket ++ own))) := by
  obtain ⟨n, o, hfd, hsocket⟩ := h.owns.socket.full hopen
  obtain ⟨c, hc⟩ := h.connection (n, o) (by rw [hsocket]; exact List.mem_singleton_self _)
  refine ⟨n, c, hfd, ?_⟩
  rw [← hc, hsocket]
  simp

/-- The client of an active provider, seen alone. -/
theorem Holding.life (h : s.Holding base own cache lock socket)
    (hactive : s.opcache.providerActive = true) :
    ClientLife.Holding ⟨s.process, s.broker, s.segment, false⟩ base cache lock socket := by
  have hown : own = [] := by
    have hslot := h.slot
    unfold ownLock at hslot
    rw [if_pos hactive] at hslot
    exact hslot.empty
  have hholds := h.holds
  rw [hown, List.append_nil] at hholds
  exact ⟨h.owns, hholds, h.connection⟩

/-- Nothing but OPcache's own lock file is open. -/
theorem Holding.alone (h : s.Holding base own cache lock socket) (hidle : s.broker = .initializer) :
    s.process.Holds base own := by
  have howns := h.owns
  rw [hidle] at howns
  have hholds := h.holds
  rw [howns.cache.empty, howns.lock.empty, howns.socket.empty] at hholds
  exact hholds

theorem Holding.of_alone (hslot : Slot s.ownLock own) (hidle : s.broker = .initializer)
    (h : s.process.Holds base own) : s.Holding base own [] [] [] := by
  refine ⟨hslot, ?_, h, by simp⟩
  rw [hidle]
  exact ⟨slot_empty, slot_empty, slot_empty⟩

theorem Kept.isRegistered (h : s.Kept) : s.opcache.providerRegistered = true :=
  congrArg Prod.fst h.registered

/-- A call that neither starts nor ends anything. -/
theorem Kept.served (h : s.Kept) (hopcache : s.opcache.Served s'.opcache)
    (hholds : ∀ base own cache lock socket, s.Holding base own cache lock socket →
      s'.process.Holds base (cache ++ (lock ++ (socket ++ own))))
    (hbroker : s'.broker = s.broker ∨ s'.broker = s.broker.published)
    (hchanged : s.opcache.providerActive = false → s'.broker = s.broker)
    (hsegment : s'.segment = s.segment) : s'.Kept := by
  obtain ⟨hactive, hregistered, hlock, hstage⟩ := hopcache
  have hfields : s'.broker.cacheFd = s.broker.cacheFd ∧ s'.broker.lockFd = s.broker.lockFd ∧
      s'.broker.socketFd = s.broker.socketFd ∧ s'.broker.creator = s.broker.creator ∧
      s'.broker.acquired = s.broker.acquired ∧ s'.broker.mapping = s.broker.mapping := by
    rcases hbroker with heq | heq <;> rw [heq]
    · exact ⟨rfl, rfl, rfl, rfl, rfl, rfl⟩
    · exact ⟨rfl, rfl, rfl, rfl, rfl, rfl⟩
  obtain ⟨hcacheFd, hlockFd, hsocketFd, hcreator, hacquired, hmapping⟩ := hfields
  obtain ⟨base, own, cache, lock, socket, hholding⟩ := h.holding
  constructor
  · refine ⟨base, own, cache, lock, socket, ?_, ⟨?_, ?_, ?_⟩, hholds _ _ _ _ _ hholding,
      hholding.connection⟩
    · unfold ownLock
      rw [hactive, hlock]
      exact hholding.slot
    · rw [hcacheFd]
      exact hholding.owns.cache
    · rw [hlockFd]
      exact hholding.owns.lock
    · rw [hsocketFd]
      exact hholding.owns.socket
  · exact hregistered.trans h.registered
  · rw [hcreator, hsocketFd]
    exact h.creator
  · rw [hactive, hlock, hlockFd, hacquired]
    exact h.active
  · intro hidle
    rw [hactive] at hidle
    exact (hchanged hidle).trans (h.idle hidle)
  · intro hdown
    rcases hstage with hsame | hended
    · rw [hactive, hlock]
      exact h.down (hsame.symm.trans hdown)
    · cases hended.symm.trans hdown
  · intro hup
    rcases hstage with hsame | hended
    · rw [hlock]
      exact h.up (hsame.symm.trans hup)
    · cases hended.symm.trans hup
  · rw [hsegment, hmapping]
    exact h.segment

/-- Without a provider. -/
theorem Kept.of_alone (hinactive : s.opcache.providerActive = false)
    (hidle : s.broker = .initializer) (hslot : Slot s.opcache.lockFile own)
    (hholds : s.process.Holds base own) (hregistered : s.opcache.registration = (true, aheOpcacheProvider))
    (hdown : s.opcache.stage = .down → s.opcache.lockFile = -1)
    (hup : s.opcache.stage = .up → 0 ≤ s.opcache.lockFile) (hsegment : s.segment = none) :
    s.Kept := by
  have hslot' : Slot s.ownLock own := by
    unfold ownLock
    rwa [hinactive, if_neg Bool.false_ne_true]
  constructor
  · exact ⟨base, own, [], [], [], .of_alone hslot' hidle hholds⟩
  · exact hregistered
  · intro hcreator
    rw [hidle] at hcreator
    cases hcreator
  · intro hactive
    cases hinactive.symm.trans hactive
  · exact fun _ => hidle
  · exact fun hstage => ⟨hinactive, hdown hstage⟩
  · exact hup
  · intro segment hsome
    cases hsegment.symm.trans hsome

/-! ### Starting -/

/-- What `ahe_create_segments` leaves of an acquisition that worked. -/
structure AcquiredSegments (base : DescriptorTable Object) (r : CreateResult)
    (cache lock socket : List (Nat × Object)) : Prop where
  holds : r.process.Holds base (cache ++ (lock ++ socket))
  owns : r.broker.Owns cache lock socket
  connection : ∀ i ∈ socket, ∃ c, i.2 = .conn c
  acquired : r.broker.acquired = true
  lockFd : 0 ≤ r.broker.lockFd
  socketFd : 0 ≤ r.broker.socketFd
  mapping : ∀ block, r.outputs.sharedSegments = some block → block.segment.p = r.broker.mapping
  ready : r.broker.ready = false
  reattached : r.broker.reattached = !r.broker.creator
  status : r.status = if r.broker.creator = true then .allocSuccess else .successfullyReattached

/-- What `ahe_create_segments` leaves: nothing, or the three descriptors of an acquisition. -/
theorem created_cases (h : s.process.Holds base []) (hidle : s.broker = .initializer)
    {a : WiredStartup} (hreply : Deliverable a.acquire.reply) :
    ((s.created a).status = .allocFailure ∧ (s.created a).process.Holds base [] ∧
        (∃ timedOut, (s.created a).broker = { BrokerClient.initializer with timedOut }) ∧
        (s.created a).outputs.sharedSegments = none) ∨
      ∃ cache lock socket, AcquiredSegments base (s.created a) cache lock socket := by
  unfold created createSegments
  rw [hidle]
  cases a.environment.createCacheKey a.requestedSize with
  | error errorIn => exact .inl ⟨rfl, h, ⟨false, rfl⟩, rfl⟩
  | ok key =>
      obtain ⟨socketPath, cacheKey⟩ := key
      dsimp only
      have hends := brokerClientAcquire_ends h a.connection a.environment.effectiveUid socketPath
        cacheKey a.requestedSize hreply
      generalize brokerClientAcquire s.process .initializer a.connection a.environment.effectiveUid
        socketPath cacheKey a.requestedSize .cleared a.acquire = r at hends ⊢
      rcases hends with ⟨timedOut, -, hfailed⟩ | hheld
      · obtain ⟨errorIn, houtputs⟩ := hfailed.outputs
        exact .inl ⟨hfailed.status, hfailed.held, ⟨timedOut, hfailed.client⟩,
          congrArg Outputs.sharedSegments houtputs⟩
      · obtain ⟨cacheFd, lockFd, socketFd, cache, lock, mapping, allocation, globals, creator,
          hholds, -, -, -, heq⟩ := hheld.ends
        obtain ⟨p, broker, outputs, status⟩ := r
        cases heq
        refine .inr ⟨[(cacheFd, cache)], [(lockFd, lock)], [(socketFd, .conn a.connection)], hholds,
          ⟨slot_full _ _, slot_full _ _, slot_full _ _⟩, by simp, rfl, Int.natCast_nonneg lockFd,
          Int.natCast_nonneg socketFd, ?_, rfl, rfl, rfl⟩
        intro block hblock
        cases hblock
        rfl

/-- When OPcache is down nothing is open on its behalf. -/
theorem Kept.atRest (h : s.Kept) (hdown : s.opcache.stage = .down) :
    s.opcache.providerActive = false ∧ s.broker = .initializer ∧ s.opcache.lockFile = -1 ∧
      s.process.Holds s.process.fds [] := by
  obtain ⟨base, own, cache, lock, socket, hholding⟩ := h.holding
  obtain ⟨hinactive, hlockFile⟩ := h.down hdown
  have hslot := hholding.slot
  have halone := hholding.alone (h.idle hinactive)
  unfold ownLock at hslot
  rw [hinactive, if_neg Bool.false_ne_true, hlockFile] at hslot
  rw [hslot.empty] at halone
  refine ⟨hinactive, h.idle hinactive, hlockFile, ?_⟩
  rw [halone.custody.settled.1]
  exact halone

/-- The provider is shut down again, and OPcache makes a lock file of its own in a process that is
as it was. -/
theorem startup_fallsBack (h : s.Kept) (hdown : s.opcache.stage = .down) {a : WiredStartup}
    (hreply : Deliverable a.acquire.reply) (hfarewell : Deliverable a.farewell.reply)
    (hverdict : s.verdict sizeofSharedGlobals a = allocFailure) :
    ∃ p : Process, p.fds = s.process.fds ∧ p.Holds s.process.fds [] ∧
      s.startup sizeofSharedGlobals a =
        { process := (p.openLock a.lockFile).1
          broker := .initializer
          opcache := s.opcache.sharedAllocStartup sizeofSharedGlobals
            (s.startupAnswers a (p.openLock a.lockFile).2)
          segment := none
          warnings := s.warnings ++ (s.created a).warning.toList } := by
  obtain ⟨-, hidle, -, halone⟩ := h.atRest hdown
  have hcleaned : ∃ cache lock socket, (cleanUpSegments (s.created a).process (s.created a).broker
      a.cleanedUp (s.created a).outputs.sharedSegments).1.Holds s.process.fds
        (cache ++ (lock ++ socket)) ∧
      (cleanUpSegments (s.created a).process (s.created a).broker a.cleanedUp
        (s.created a).outputs.sharedSegments).2.Owns cache lock socket ∧
      ∀ i ∈ socket, ∃ c, i.2 = .conn c := by
    rcases created_cases halone hidle hreply with ⟨-, hholds, ⟨timedOut, hbroker⟩, hnone⟩ |
      ⟨cache, lock, socket, hacquired⟩
    · rw [hnone, hbroker]
      exact ⟨[], [], [], hholds, ⟨slot_empty, slot_empty, slot_empty⟩, by simp⟩
    · obtain ⟨hcleaned, hkept⟩ := cleanUpSegments_holds hacquired.holds hacquired.owns a.cleanedUp
        hacquired.mapping
      exact ⟨cache, lock, socket, hcleaned, hkept, hacquired.connection⟩
  unfold Wired.startup startupExternal
  simp only [if_pos h.isRegistered, if_pos hverdict]
  generalize cleanUpSegments (s.created a).process (s.created a).broker a.cleanedUp
    (s.created a).outputs.sharedSegments = cleaned at hcleaned ⊢
  obtain ⟨cache, lock, socket, hholds, howns, hconnection⟩ := hcleaned
  obtain ⟨hleft, hinitial⟩ := ClientLife.Holding.shutdown
    (s := ⟨cleaned.1, cleaned.2, none, false⟩) ⟨howns, hholds, hconnection⟩ hfarewell a.unmapped
  dsimp only at hleft hinitial
  generalize brokerClientShutdown cleaned.1 cleaned.2 a.farewell a.unmapped = left
    at hleft hinitial ⊢
  refine ⟨left.1, hleft.custody.settled.1, hleft, ?_⟩
  rw [hinitial]

theorem Kept.startup (h : s.Kept) (hdown : s.opcache.stage = .down) {a : WiredStartup}
    (hreply : Deliverable a.acquire.reply) (hfarewell : Deliverable a.farewell.reply) :
    (s.startup sizeofSharedGlobals a).Kept := by
  obtain ⟨hinactive, hidle, hlockFile, halone⟩ := h.atRest hdown
  by_cases hverdict : s.verdict sizeofSharedGlobals a = allocFailure
  · obtain ⟨p, -, hleft, heq⟩ := startup_fallsBack h hdown hreply hfarewell hverdict
    have hlocked := openLock_holds hleft a.lockFile
    rw [heq]
    generalize p.openLock a.lockFile = locked at hlocked ⊢
    obtain ⟨hactive, hregistered, hlock, hstage, hended⟩ := Opcache.startup_refused
      (a := s.startupAnswers a locked.2) h.isRegistered hverdict
    rw [hinactive] at hactive
    rw [hlockFile] at hlock
    rcases hlocked with ⟨hnone, hheld⟩ | ⟨n, o, hsome, hheld⟩
    · have hfatal := hended hnone
      have hfile : (s.opcache.sharedAllocStartup sizeofSharedGlobals
          (s.startupAnswers a locked.2)).lockFile = -1 := by
        rw [hlock]
        exact congrArg (fun answer : Option Nat => answer.elim (-1 : Fd) fun fd => (fd : Fd)) hnone
      refine .of_alone hactive rfl (hfile ▸ slot_empty) hheld (hregistered.trans h.registered)
        (fun _ => hfile) (fun hup => ?_) rfl
      cases hfatal.symm.trans hup
    · have hfile : (s.opcache.sharedAllocStartup sizeofSharedGlobals
          (s.startupAnswers a locked.2)).lockFile = (n : Fd) := by
        rw [hlock]
        exact congrArg (fun answer : Option Nat => answer.elim (-1 : Fd) fun fd => (fd : Fd)) hsome
      refine .of_alone hactive rfl (hfile ▸ slot_full n o) hheld (hregistered.trans h.registered)
        (fun hdown' => absurd hdown' hstage) (fun _ => ?_) rfl
      exact le_of_le_of_eq (Int.natCast_nonneg n) hfile.symm
  · -- the acquisition is kept
    unfold Wired.startup startupExternal
    simp only [if_pos h.isRegistered, if_neg hverdict]
    rcases created_cases halone hidle hreply with ⟨hfailed, -⟩ | ⟨cache, lock, socket, hacquired⟩
    · refine absurd ?_ hverdict
      unfold verdict providerCreateSegments providerResult
      rw [hfailed]
      rfl
    · obtain ⟨hactive, hregistered, hlock, hstage⟩ := Opcache.startup_accepted
        (a := s.startupAnswers a none) h.isRegistered hverdict
      constructor
      · refine ⟨s.process.fds, [], cache, lock, socket, ?_, hacquired.owns, ?_, hacquired.connection⟩
        · unfold ownLock
          rw [if_pos hactive]
          exact slot_empty
        · rw [List.append_nil]
          dsimp only
          split
          · exact freeSegments_holds hacquired.holds _
          · exact hacquired.holds
      · exact hregistered.trans h.registered
      · exact fun _ => hacquired.socketFd
      · exact fun _ => ⟨hacquired.acquired, hacquired.lockFd, hlock⟩
      · intro hidle
        cases hactive.symm.trans hidle
      · exact fun hdown' => absurd hdown' hstage
      · exact fun _ => le_of_le_of_eq hacquired.lockFd hlock.symm
      · intro segment hsome
        obtain ⟨block, hblock, rfl⟩ := Option.map_eq_some_iff.mp hsome
        exact hacquired.mapping block hblock

/-! ### The steps -/

/-- Locking changes no descriptor, of the client or of OPcache. -/
theorem Kept.setLock (h : s.Kept) (hup : s.opcache.stage = .up)
    (hholding : s.Holding base own cache lock socket) (lockType : LockType) (command : LockCommand)
    (answer : LockType → LockCommand → Bool) :
    (if s.opcache.providerActive = true then
        brokerClientSetLock s.process s.broker lockType command answer
      else s.process.fcntl s.opcache.lockFile (answer lockType command)).1.Holds base
        (cache ++ (lock ++ (socket ++ own))) := by
  cases hactive : s.opcache.providerActive with
  | true =>
      refine hholding.holds.setLock ?_ lockType command answer
      intro hopen
      obtain ⟨n, o, hfd, hlock⟩ := hholding.owns.lock.full hopen
      exact ⟨n, o, hfd, by simp [hlock]⟩
  | false =>
      have hslot := hholding.slot
      unfold ownLock at hslot
      rw [hactive, if_neg Bool.false_ne_true] at hslot
      have hsame := fcntl_of_slot (hholding.alone (h.idle hactive)) hslot (h.up hup)
        (answer lockType command)
      rw [if_neg Bool.false_ne_true, hsame]
      exact hholding.holds

theorem Kept.sharedAllocLock (h : s.Kept) (hup : s.opcache.stage = .up)
    (answer : LockType → LockCommand → Bool) : (s.lock answer).Kept := by
  refine h.served (Opcache.served_lock s.opcache _) ?_ (.inl rfl) (fun _ => rfl) rfl
  exact fun _ _ _ _ _ hholding => h.setLock hup hholding .write .setLockWait answer

theorem Kept.sharedAllocUnlock (h : s.Kept) (hup : s.opcache.stage = .up)
    (answer : LockType → LockCommand → Bool) : (s.unlock answer).Kept := by
  refine h.served (Opcache.served_unlock s.opcache _) ?_ (.inl rfl) (fun _ => rfl) rfl
  exact fun _ _ _ _ _ hholding => h.setLock hup hholding .unlock .setLock answer

theorem notifies_active (h : s.notifies = true) : s.opcache.providerActive = true :=
  (Bool.and_eq_true_iff.mp h).1

theorem Kept.providerStartupComplete (h : s.Kept) (reattached : Bool)
    {publish abort : ExchangeAnswers} (hpublish : Deliverable publish.reply)
    (habort : Deliverable abort.reply) :
    (s.providerStartupComplete reattached publish abort).Kept := by
  have hserved := Opcache.served_startupComplete s.opcache reattached
  unfold Wired.providerStartupComplete
  dsimp only
  split
  · next hnotifies =>
      have hactive := notifies_active hnotifies
      have hcompleted : ∀ base own cache lock socket, s.Holding base own cache lock socket →
          _ := fun base own cache lock socket hholding =>
        startupComplete_holds hholding.holds hholding.connected h.creator reattached
          s.opcache.sharedGlobals hpublish habort
      refine h.served hserved ?_ ?_ ?_ rfl
      · exact fun base own cache lock socket hholding =>
          (hcompleted base own cache lock socket hholding).1
      · obtain ⟨base, own, cache, lock, socket, hholding⟩ := h.holding
        exact (hcompleted base own cache lock socket hholding).2.imp_right And.right
      · intro hidle
        cases hactive.symm.trans hidle
  · exact h.served hserved (fun _ _ _ _ _ hholding => hholding.holds) (.inl rfl) (fun _ => rfl) rfl

theorem Kept.providerStartupAborted (h : s.Kept) (reason : String) {abort : ExchangeAnswers}
    (habort : Deliverable abort.reply) : (s.providerStartupAborted reason abort).Kept := by
  refine h.served (Opcache.served_startupAborted s.opcache reason) ?_ (.inl rfl) (fun _ => rfl) rfl
  intro base own cache lock socket hholding
  unfold Wired.providerStartupAborted
  dsimp only
  split
  · exact hholding.holds.abort hholding.connected habort
  · exact hholding.holds

theorem Kept.sharedAllocShutdown (h : s.Kept) (hup : s.opcache.stage = .up) {a : WiredShutdown}
    (habort : Deliverable a.abort.reply) (hfarewell : Deliverable a.farewell.reply) :
    (s.sharedAllocShutdown a).Kept := by
  obtain ⟨base, own, cache, lock, socket, hholding⟩ := h.holding
  obtain ⟨hinactive, hregistered, hstage, hlock⟩ :=
    Opcache.shutdown_fields s.opcache s.segment.toList.length
  have hclosed := hlock (.inr (h.up hup))
  have hnotUp : (s.opcache.sharedAllocShutdown s.segment.toList.length).stage ≠ .up := by
    rw [hstage]
    decide
  unfold Wired.sharedAllocShutdown
  cases hactive : s.opcache.providerActive with
  | true =>
      obtain ⟨howns, hholds, hconnection⟩ := hholding.life hactive
      have haborted : (if s.notifies = true then brokerClientAbort s.process s.broker a.abort
          else s.process).Holds base (cache ++ (lock ++ socket)) := by
        split
        · exact hholds.abort (ClientLife.Holding.connected
            (s := ⟨s.process, s.broker, s.segment, false⟩) ⟨howns, hholds, hconnection⟩) habort
        · exact hholds
      simp only [if_true]
      generalize (if s.notifies = true then brokerClientAbort s.process s.broker a.abort
        else s.process) = p at haborted ⊢
      have hdetached := detachSegment_holds haborted howns a.copy a.detached h.segment
      generalize detachSegment p s.broker a.copy a.detached s.segment = detached at hdetached ⊢
      obtain ⟨hleft, hinitial⟩ := ClientLife.Holding.shutdown
        (s := ⟨detached.1, detached.2, none, false⟩) ⟨hdetached.2, hdetached.1, hconnection⟩
        hfarewell a.unmapped
      exact .of_alone hinactive hinitial (hclosed ▸ slot_empty) hleft
        (hregistered.trans h.registered) (fun _ => hclosed) (fun hup' => absurd hup' hnotUp) rfl
  | false =>
      have hslot := hholding.slot
      unfold ownLock at hslot
      rw [hactive, if_neg Bool.false_ne_true] at hslot
      have halone := hholding.alone (h.idle hactive)
      have hempty : (closeSlot s.process s.opcache.lockFile).Holds base [] := by
        rw [← List.append_nil own] at halone
        exact halone.closeSlot hslot
      simp only [Bool.false_eq_true, if_false]
      exact .of_alone hinactive (h.idle hactive) (hclosed ▸ slot_empty) hempty
        (hregistered.trans h.registered) (fun _ => hclosed) (fun hup' => absurd hup' hnotUp) rfl

theorem Holding.numbers (h : s.Holding base own cache lock socket) (n : Nat) :
    n ∈ (cache ++ (lock ++ (socket ++ own))).map Prod.fst ↔
      ClientLife.Field s.broker n ∨ s.ownLock = n := by
  rw [List.map_append, List.map_append, List.map_append, List.mem_append, List.mem_append,
    List.mem_append, ClientLife.mem_slot_iff h.owns.cache, ClientLife.mem_slot_iff h.owns.lock,
    ClientLife.mem_slot_iff h.owns.socket, ClientLife.mem_slot_iff h.slot]
  unfold ClientLife.Field
  rw [or_assoc, or_assoc]

theorem Kept.elsewhere (h : s.Kept) {fds : DescriptorTable Object} (halone : s.LeavesAlone fds) :
    Kept { s with process := { s.process with fds } } := by
  obtain ⟨base, own, cache, lock, socket, hholding⟩ := h.holding
  have hheld : ∀ n ∈ (cache ++ (lock ++ (socket ++ own))).map Prod.fst,
      fds n = s.process.fds n := by
    intro n hmem
    refine halone n ?_
    rcases (hholding.numbers n).mp hmem with (hcache | hlock | hsocket) | hown
    · simp [hcache]
    · simp [hlock]
    · simp [hsocket]
    · simp [hown]
  obtain ⟨base', hcustody⟩ := hholding.holds.custody.interfere hheld
  exact ⟨⟨base', own, cache, lock, socket, hholding.slot, hholding.owns,
    ⟨hcustody, hholding.holds.sound⟩, hholding.connection⟩, h.registered, h.creator, h.active,
    h.idle, h.down, h.up, h.segment⟩

theorem Kept.register (h : s.Kept) (provider : Option ShmProviderV2) :
    Kept { s with opcache := s.opcache.register provider } := by
  rw [Opcache.register_again h.isRegistered]
  exact h.served ⟨rfl, rfl, rfl, .inl rfl⟩ (fun _ _ _ _ _ hholding => hholding.holds) (.inl rfl)
    (fun _ => rfl) rfl

theorem Kept.step (h : s.Kept) {call : WiredCall} (hpermitted : s.Permitted call) :
    (s.step sizeofSharedGlobals call).Kept := by
  obtain ⟨-, hallowed⟩ := hpermitted
  cases call with
  | register provider => exact h.register provider
  | startup a => exact h.startup hallowed.1 hallowed.2.1 hallowed.2.2
  | startupComplete reattached publish abort =>
      exact h.providerStartupComplete reattached hallowed.1 hallowed.2
  | startupAborted reason abort => exact h.providerStartupAborted reason hallowed
  | lock answer => exact h.sharedAllocLock hallowed answer
  | unlock answer => exact h.sharedAllocUnlock hallowed answer
  | shutdown a => exact h.sharedAllocShutdown hallowed.1 hallowed.2.1 hallowed.2.2
  | elsewhere fds => exact h.elsewhere hallowed

theorem kept_start (fds : DescriptorTable Object) : (start fds).Kept := by
  have hregistered : (Opcache.start.register (some aheOpcacheProvider)).registration =
      (true, aheOpcacheProvider) := by decide
  exact .of_alone rfl rfl slot_empty (Holds.start fds) hregistered (fun _ => rfl)
    (fun hup => by cases hup) rfl

theorem Reachable.kept (h : s.Reachable sizeofSharedGlobals) : s.Kept := by
  refine Execution.Reachable.invariant (I := Kept) ?_ ?_ h
  · rintro s ⟨fds, rfl⟩
    exact kept_start fds
  · rintro s call s' hs ⟨hpermitted, rfl⟩
    exact hs.step hpermitted

theorem Reachable.call (h : s.Reachable sizeofSharedGlobals) {call : WiredCall}
    (hpermitted : s.Permitted call) : (s.step sizeofSharedGlobals call).Reachable
      sizeofSharedGlobals :=
  Execution.Reachable.tail h ⟨hpermitted, rfl⟩

/-- OPcache as it is wired to the extension is OPcache with some answers of a provider. -/
theorem Reachable.opcache (h : s.Reachable sizeofSharedGlobals) :
    Opcache.Reachable sizeofSharedGlobals s.opcache := by
  refine Execution.Reachable.invariant
    (I := fun s : Wired => Opcache.Reachable sizeofSharedGlobals s.opcache) ?_ ?_ h
  · rintro s ⟨fds, rfl⟩
    have hstart : Opcache.Reachable sizeofSharedGlobals .start := .of_init rfl
    have hallowed : Opcache.Permitted .start (.register (some aheOpcacheProvider)) :=
      ⟨by decide, trivial⟩
    exact Execution.Reachable.tail hstart ⟨hallowed, rfl⟩
  · rintro s call s' hs ⟨⟨hserving, hallowed⟩, rfl⟩
    have hcall : ∀ c : OpcacheCall, Opcache.Permitted s.opcache c →
        Opcache.Reachable sizeofSharedGlobals (s.opcache.step sizeofSharedGlobals c) :=
      fun c hc => Execution.Reachable.tail hs ⟨hc, rfl⟩
    cases call with
    | register provider => exact hcall (.register provider) ⟨hserving, trivial⟩
    | startup a =>
        change Opcache.Reachable sizeofSharedGlobals (s.startup sizeofSharedGlobals a).opcache
        unfold Wired.startup startupExternal startupAlone
        dsimp only
        split
        · split
          · exact hcall (.startup _) ⟨hserving, hallowed.1⟩
          · exact hcall (.startup _) ⟨hserving, hallowed.1⟩
        · exact hcall (.startup _) ⟨hserving, hallowed.1⟩
    | startupComplete reattached publish abort =>
        change Opcache.Reachable sizeofSharedGlobals
          (s.providerStartupComplete reattached publish abort).opcache
        unfold Wired.providerStartupComplete
        dsimp only
        split
        · exact hcall (.startupComplete reattached) ⟨hserving, trivial⟩
        · exact hcall (.startupComplete reattached) ⟨hserving, trivial⟩
    | startupAborted reason abort => exact hcall (.startupAborted reason) ⟨hserving, trivial⟩
    | lock answer => exact hcall (.lock _) ⟨hserving, trivial⟩
    | unlock answer => exact hcall (.unlock _) ⟨hserving, trivial⟩
    | shutdown a =>
        change Opcache.Reachable sizeofSharedGlobals (s.sharedAllocShutdown a).opcache
        unfold Wired.sharedAllocShutdown
        dsimp only
        split
        · exact hcall (.shutdown _) ⟨hserving, hallowed.1⟩
        · exact hcall (.shutdown _) ⟨hserving, hallowed.1⟩
    | elsewhere fds => exact hs

/-! ### The accounts -/

/-- The descriptors of OPcache and of the extension. -/
structure Accounted (s : Wired) : Prop where
  sound : ∀ fd, ProcessEvent.badUse fd ∉ s.process.log
  held : ∃ base held, Custody base s.process.fds s.process.opened s.process.closed held ∧
    ∀ n, n ∈ held.map Prod.fst ↔ ClientLife.Field s.broker n ∨ s.ownLock = n
  shared : s.opcache.providerActive = true → s.broker.acquired = true ∧
    s.opcache.lockFile = s.broker.lockFd ∧ ∃ o, s.process.fds.get s.opcache.lockFile = some o
  alone : s.opcache.providerActive = false → s.broker = .initializer
  down : s.opcache.stage = .down → s.broker = .initializer ∧ s.opcache.lockFile = -1 ∧
    s.process.opened.Perm s.process.closed

theorem Kept.accounted (h : s.Kept) : s.Accounted := by
  obtain ⟨base, own, cache, lock, socket, hholding⟩ := h.holding
  constructor
  · exact hholding.holds.sound
  · exact ⟨base, _, hholding.holds.custody, hholding.numbers⟩
  · intro hactive
    obtain ⟨hacquired, hopen, hlock⟩ := h.active hactive
    obtain ⟨n, o, hfd, hheld⟩ := hholding.owns.lock.full hopen
    refine ⟨hacquired, hlock, o, ?_⟩
    rw [hlock, hfd]
    exact hholding.holds.get (by simp [hheld])
  · exact h.idle
  · intro hdown
    obtain ⟨hinactive, hlockFile⟩ := h.down hdown
    have hidle := h.idle hinactive
    refine ⟨hidle, hlockFile, ?_⟩
    have halone := hholding.alone hidle
    have hslot := hholding.slot
    unfold ownLock at hslot
    rw [hinactive, if_neg Bool.false_ne_true, hlockFile] at hslot
    rw [hslot.empty] at halone
    exact halone.custody.settled.2

/-- Over any number of startups and shutdowns nothing is lost between OPcache and the extension,
and nothing is closed by both. -/
theorem wired_accounted (h : s.Reachable sizeofSharedGlobals) : s.Accounted := h.kept.accounted

/-- An OPcache that attaches. -/
def attachingStartup : WiredStartup where
  environment := cliEnvironment
  connection := 0
  requestedSize := 4096
  acquire := ClientLife.attaching
  cleanedUp := true
  farewell := ⟨.ok (), .error .again⟩
  unmapped := true
  lockFile := none
  builtin := none
  globals := none

def silentShutdown : WiredShutdown :=
  ⟨⟨.ok (), .error .again⟩, 8, true, ⟨.ok (), .error .again⟩, true⟩

def attachedOnce : Wired :=
  ((start .empty).step 64 (.startup attachingStartup)).step 64 (.lock fun _ _ => true)

/-- OPcache ends before its startup was complete. -/
def endedOnce : Wired := attachedOnce.step 64 (.shutdown silentShutdown)

theorem reachable_attachedOnce : attachedOnce.Reachable 64 := by
  have hreply : Deliverable attachingStartup.acquire.reply := by
    intro r hr
    cases hr
    exact ⟨by decide, by decide⟩
  have hsilent : Deliverable (.error .again) := by
    intro r hr
    cases hr
  have hstart : (start .empty).Reachable 64 := .of_init ⟨.empty, rfl⟩
  have hstartup : (start .empty).Permitted (.startup attachingStartup) :=
    ⟨by decide, by decide, hreply, hsilent⟩
  have hlock : ((start .empty).step 64 (.startup attachingStartup)).Permitted
      (.lock fun _ _ => true) := ⟨by decide +kernel, by decide +kernel⟩
  exact (hstart.call hstartup).call hlock

theorem wired_accounted_once :
    endedOnce.process.log =
      [.opened (.conn 0), .opened (.memfd 0), .opened (.memfd 1), .mapped 65536 4096 (.memfd 0),
        .allocated 131072, .unmapped 65536 4096, .freed 131072,
        .closed (.memfd 0), .closed (.memfd 1), .closed (.conn 0)] ∧
    endedOnce.Accounted := by
  have hsilent : Deliverable (.error .again) := by
    intro r hr
    cases hr
  have hshutdown : attachedOnce.Permitted (.shutdown silentShutdown) :=
    ⟨by decide +kernel, by decide +kernel, hsilent, hsilent⟩
  exact ⟨by decide +kernel, wired_accounted (reachable_attachedOnce.call hshutdown)⟩

end Wired

end Hyperglyph
