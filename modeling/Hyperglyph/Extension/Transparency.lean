import Hyperglyph.Extension.PostStartup

/-! What a PHP without a broker notices of the extension: nothing. A run in which every allocation
of the provider fails is compared with a run of the same OPcache to which no provider was
registered. -/
namespace Hyperglyph

open DescriptorTable Process

/-- Events that are not about a provider. -/
def OpcacheEvent.isOwn : OpcacheEvent → Bool
  | .startup | .lockCreated _ | .lockClosed _ => true
  | .registration _ | .provider _ => false

namespace Opcache

/-- OPcache without what it knows of the provider. -/
def erased (o : Opcache) : Opcache :=
  { o with
    provider := .zero, providerRegistered := false, reattachedGlobals := 0
    log := o.log.filter OpcacheEvent.isOwn }

variable {o : Opcache} {sizeofSharedGlobals : UInt64} {a b : StartupAnswers}

theorem erased_emit (o : Opcache) (events : List OpcacheEvent) :
    (o.emit events).erased = o.erased.emit (events.filter OpcacheEvent.isOwn) := by
  unfold erased emit
  rw [List.filter_append]

theorem erased_deliver (o : Opcache) (events : List ProviderEvent) :
    (o.deliver events).erased = o.erased := by
  have hnone : (events.map OpcacheEvent.provider).filter OpcacheEvent.isOwn = [] := by
    apply List.filter_eq_nil_iff.mpr
    intro e he
    obtain ⟨e', -, rfl⟩ := List.mem_map.mp he
    exact Bool.false_ne_true
  rw [deliver, erased_emit, hnone]
  unfold emit
  rw [List.append_nil]

/-- The built-in memory models and OPcache's tables have nothing to do with a provider. -/
theorem erased_startupGlobals {res : Int} (hres : res ≠ successfullyReattached)
    (hglobals : a.globals = b.globals) :
    (o.startupGlobals res a).erased = o.erased.startupGlobals res b := by
  unfold startupGlobals
  rw [if_neg hres, if_neg hres, hglobals]
  split
  · rfl
  · cases b.globals <;> rfl

/-- The rest of the startup when there is no provider, or it failed. -/
def startupRest (o : Opcache) (a : StartupAnswers) : Opcache :=
  match o.startupBuiltin allocFailure a with
  | (s, none) => s.fatal
  | (s, some res) => s.startupGlobals res a

theorem erased_startupRest (hhandler : o.handler = none) (hlock : a.createdLock = b.createdLock)
    (hbuiltin : a.builtin = b.builtin) (hglobals : a.globals = b.globals)
    (hplain : ∀ built, a.builtin = some built → built.status ≠ successfullyReattached) :
    (o.startupRest a).erased = o.erased.startupRest b := by
  have hhandler' : o.erased.handler = none := hhandler
  unfold startupRest startupBuiltin
  rw [hhandler, hhandler', hlock]
  cases b.createdLock with
  | none => rfl
  | some fd =>
      rw [hbuiltin] at hplain ⊢
      have hemitted := erased_emit o [.lockCreated fd]
      cases hmodel : b.builtin with
      | none =>
          dsimp only
          unfold fatal
          exact congrArg (fun o' : Opcache => { o' with lockFile := fd, stage := .ended }) hemitted
      | some built =>
          have hres := hplain built hmodel
          refine (erased_startupGlobals hres hglobals).trans ?_
          exact congrArg (fun o' : Opcache => Opcache.startupGlobals { o' with
            lockFile := fd, handler := some .builtin, model := some built.model } built.status b)
            hemitted

theorem handler_startupRest (hhandler : o.handler = none) :
    (o.startupRest a).handler ≠ some .external := by
  unfold startupRest startupBuiltin
  rw [hhandler]
  cases a.createdLock with
  | none => simp [fatal, hhandler]
  | some fd =>
      cases a.builtin with
      | none => simp [fatal, emit, hhandler]
      | some built =>
          dsimp only
          unfold startupGlobals
          split
          · simp
          · split
            · simp
            · split <;> simp [fatal]

/-- The provider's failure leaves no trace that matters. -/
theorem startup_failed (hhandler : o.handler = none) (hmodel : o.model = none)
    (hfailed : (providerCreateSegments sizeofSharedGlobals a.allocated a.checkedLockFile).1 =
      allocFailure) :
    ∃ o' : Opcache, o'.handler = none ∧
      o'.erased = ({ o.emit [.startup] with started := true } : Opcache).erased ∧
      o.sharedAllocStartup sizeofSharedGlobals a = o'.startupRest a := by
  generalize hbegun : ({ o.emit [.startup] with started := true } : Opcache) = begun
  have hhandler' : begun.handler = none := hbegun ▸ hhandler
  have hmodel' : begun.model = none := hbegun ▸ hmodel
  have hstartup : o.sharedAllocStartup sizeofSharedGlobals a =
      match (begun.startupProvider sizeofSharedGlobals a).1.startupBuiltin
        (begun.startupProvider sizeofSharedGlobals a).2 a with
      | (s, none) => s.fatal
      | (s, some res) => s.startupGlobals res a := by
    rw [← hbegun]
    rfl
  cases hregistered : begun.providerRegistered with
  | false =>
      have hskipped : begun.startupProvider sizeofSharedGlobals a = (begun, allocFailure) := by
        simp [startupProvider, hregistered]
      rw [hskipped] at hstartup
      exact ⟨begun, hhandler', rfl, hstartup⟩
  | true =>
      refine ⟨(begun.startupProvider sizeofSharedGlobals a).1, ?_, ?_, ?_⟩
      · simp [startupProvider, hregistered, tryProvider, hfailed, deliver, emit]
      · simp only [startupProvider, hregistered, tryProvider, hfailed, ne_eq, not_true_eq_false,
          if_true, if_false]
        rw [erased_deliver]
        have hlog : ∀ (o' : Opcache) (events : List ProviderEvent),
            (o'.deliver events).log.filter OpcacheEvent.isOwn = o'.log.filter OpcacheEvent.isOwn :=
          fun o' events => congrArg Opcache.log (erased_deliver o' events)
        unfold erased
        rw [hlog, hlog, hhandler', hmodel']
        rfl
      · rw [hstartup]
        have hres : (begun.startupProvider sizeofSharedGlobals a).2 = allocFailure := by
          simp [startupProvider, hregistered, tryProvider, hfailed]
        rw [hres]
        rfl

/-- A startup in which the provider fails is one without the provider. -/
theorem erased_startup (hhandler : o.handler = none) (hmodel : o.model = none)
    (hlock : a.createdLock = b.createdLock) (hbuiltin : a.builtin = b.builtin)
    (hglobals : a.globals = b.globals)
    (hplain : ∀ built, a.builtin = some built → built.status ≠ successfullyReattached)
    (hfailed : (providerCreateSegments sizeofSharedGlobals a.allocated a.checkedLockFile).1 =
      allocFailure) :
    (o.sharedAllocStartup sizeofSharedGlobals a).erased =
      o.erased.sharedAllocStartup sizeofSharedGlobals b := by
  obtain ⟨o', hhandler', herased, heq⟩ := startup_failed hhandler hmodel hfailed
  rw [heq, erased_startupRest hhandler' hlock hbuiltin hglobals hplain, herased]
  have hbegun : ({ o.emit [.startup] with started := true } : Opcache).erased =
      { o.erased.emit [.startup] with started := true } :=
    congrArg (fun o' : Opcache => { o' with started := true }) (erased_emit o [.startup])
  rw [hbegun]
  rfl

theorem erased_lock (hidle : o.providerActive = false) (granted : Bool) :
    (o.sharedAllocLock granted).erased = o.erased.sharedAllocLock granted := by
  have hidle' : o.erased.providerActive = false := hidle
  unfold sharedAllocLock
  rw [hidle, hidle']
  cases granted <;> rfl

theorem erased_unlock (hidle : o.providerActive = false) (granted : Bool) :
    (o.sharedAllocUnlock granted).erased = o.erased.sharedAllocUnlock granted := by
  have hidle' : o.erased.providerActive = false := hidle
  unfold sharedAllocUnlock
  dsimp only
  rw [hidle, hidle']
  cases granted <;> rfl

theorem complete_idle (hidle : o.providerActive = false) (reattached : Bool) :
    o.providerStartupComplete reattached = o := by
  simp [providerStartupComplete, hidle]

theorem aborted_idle (hidle : o.providerActive = false) (reason : String) :
    o.providerStartupAborted reason = o := by
  simp [providerStartupAborted, hidle]

theorem shutdown_cleared (o : Opcache) (segments : Nat) :
    (o.sharedAllocShutdown segments).handler = none ∧
      (o.sharedAllocShutdown segments).model = none := by
  unfold sharedAllocShutdown
  dsimp only
  generalize (if o.abortUnfinished.handler = some .external then
    o.abortUnfinished.deliver (List.replicate segments .detachSegment) else o.abortUnfinished) = o'
  cases o.providerActive with
  | true => exact ⟨rfl, rfl⟩
  | false =>
      simp only [Bool.false_eq_true, if_false]
      split <;> exact ⟨rfl, rfl⟩

theorem erased_shutdown (hidle : o.providerActive = false) (hhandler : o.handler ≠ some .external)
    (segments segments' : Nat) :
    (o.sharedAllocShutdown segments).erased = o.erased.sharedAllocShutdown segments' := by
  have hidle' : o.erased.providerActive = false := hidle
  have hhandler' : o.erased.handler ≠ some .external := hhandler
  have hquiet : o.abortUnfinished = o := by simp [abortUnfinished, hidle]
  have hquiet' : o.erased.abortUnfinished = o.erased := by simp [abortUnfinished, hidle']
  unfold sharedAllocShutdown
  simp only [hquiet, hquiet', hidle, hidle', if_neg hhandler, if_neg hhandler', Bool.false_eq_true,
    if_false]
  by_cases hopen : o.lockFile ≥ 0
  · have hopen' : o.erased.lockFile ≥ 0 := hopen
    rw [if_pos hopen, if_pos hopen']
    have hclosed := erased_emit o [.lockClosed o.lockFile]
    exact congrArg (fun o' : Opcache => { o' with
      handler := none, model := none, providerActive := false, stage := .down, lockFile := -1 })
      hclosed
  · have hopen' : ¬ o.erased.lockFile ≥ 0 := hopen
    rw [if_neg hopen, if_neg hopen']
    rfl

end Opcache

namespace Wired

variable {s t : Wired} {sizeofSharedGlobals : UInt64} {fds : DescriptorTable Object}

/-- The provider is of no use at this call. No other provider registers, and the built-in memory
models do not reattach. -/
def FallsBack (sizeofSharedGlobals : UInt64) (s : Wired) : WiredCall → Prop
  | .register _ => False
  | .startup a => s.verdict sizeofSharedGlobals a = allocFailure ∧
      ∀ built, a.builtin = some built → built.status ≠ successfullyReattached
  | _ => True

/-- A PHP whose provider failed, and one without a provider. -/
structure Alike (s t : Wired) : Prop where
  kept : s.Kept
  idle : s.opcache.providerActive = false
  handler : s.opcache.handler ≠ some .external
  down : s.opcache.stage = .down → s.opcache.handler = none ∧ s.opcache.model = none
  segment : s.segment = none
  opcache : t.opcache = s.opcache.erased
  fds : t.process.fds = s.process.fds
  broker : t.broker = s.broker

theorem alike_start (fds : DescriptorTable Object) : (start fds).Alike (bare fds) := by
  have hopcache : (start fds).opcache = { (Opcache.start.emit [.registration true]) with
      provider := aheOpcacheProvider, providerRegistered := true } := rfl
  refine ⟨kept_start fds, ?_, ?_, fun _ => ⟨rfl, rfl⟩, rfl, ?_, rfl, rfl⟩
  · rw [hopcache]
    rfl
  · rw [hopcache]
    decide
  · rw [hopcache]
    rfl

theorem openLock_fds {p q : Process} (h : q.fds = p.fds) (answer : Option (Nat × Object)) :
    (q.openLock answer).1.fds = (p.openLock answer).1.fds ∧
      (q.openLock answer).2 = (p.openLock answer).2 := by
  unfold Process.openLock
  cases answer with
  | none => exact ⟨h, rfl⟩
  | some i =>
      obtain ⟨n, o⟩ := i
      dsimp only
      rw [h]
      split
      · exact ⟨rfl, rfl⟩
      · exact ⟨h, rfl⟩

theorem fcntl_fds {p q : Process} (h : q.fds = p.fds) (fd : Fd) (answer : Bool) :
    (q.fcntl fd answer).1.fds = (p.fcntl fd answer).1.fds ∧
      (q.fcntl fd answer).2 = (p.fcntl fd answer).2 := by
  unfold Process.fcntl
  rw [h]
  split
  · exact ⟨h, rfl⟩
  · exact ⟨h, rfl⟩

theorem closeSlot_fds {p q : Process} (h : q.fds = p.fds) (fd : Fd) :
    (closeSlot q fd).fds = (closeSlot p fd).fds := by
  unfold closeSlot
  split
  · rw [close_fds, close_fds, h]
  · exact h

/-- What is permitted to the one is permitted to the other. -/
theorem Alike.permitted (h : s.Alike t) {call : WiredCall} (hpermitted : s.Permitted call) :
    t.Permitted call := by
  have hstage : t.opcache.stage = s.opcache.stage := by
    rw [h.opcache]
    rfl
  have hown : t.ownLock = s.ownLock := by
    unfold ownLock
    rw [h.opcache]
    rfl
  obtain ⟨hserving, hallowed⟩ := hpermitted
  refine ⟨hstage ▸ hserving, ?_⟩
  cases call with
  | register provider => trivial
  | startup a => exact ⟨hstage.trans hallowed.1, hallowed.2⟩
  | startupComplete reattached publish abort => exact hallowed
  | startupAborted reason abort => exact hallowed
  | lock answer => exact hstage.trans hallowed
  | unlock answer => exact hstage.trans hallowed
  | shutdown a => exact ⟨hstage.trans hallowed.1, hallowed.2⟩
  | elsewhere fds =>
      intro fd hfd
      rw [h.fds]
      refine hallowed fd ?_
      rwa [h.broker, hown] at hfd

theorem Alike.idle_right (h : s.Alike t) : t.opcache.providerActive = false := by
  rw [h.opcache]
  exact h.idle

theorem Alike.startup (h : s.Alike t) (hdown : s.opcache.stage = .down) {a : WiredStartup}
    (hreply : Deliverable a.acquire.reply) (hfarewell : Deliverable a.farewell.reply)
    (hfalls : s.FallsBack sizeofSharedGlobals (.startup a)) :
    (s.startup sizeofSharedGlobals a).Alike (t.startup sizeofSharedGlobals a) := by
  obtain ⟨hverdict, hplain⟩ := hfalls
  have hkept : (s.startup sizeofSharedGlobals a).Kept := h.kept.startup hdown hreply hfarewell
  obtain ⟨p, hfds, -, heq⟩ := startup_fallsBack h.kept hdown hreply hfarewell hverdict
  have hunregistered : t.opcache.providerRegistered = false := by
    rw [h.opcache]
    rfl
  have hright : t.startup sizeofSharedGlobals a = t.startupAlone sizeofSharedGlobals a := by
    unfold Wired.startup
    rw [hunregistered]
    rfl
  obtain ⟨hopened, hanswered⟩ := openLock_fds (h.fds.trans hfds.symm) a.lockFile
  obtain ⟨hhandler, hmodel⟩ := h.down hdown
  have herased := Opcache.erased_startup (a := s.startupAnswers a (p.openLock a.lockFile).2)
    (b := t.startupAnswers a (t.process.openLock a.lockFile).2) hhandler hmodel hanswered.symm rfl
    rfl hplain hverdict
  rw [hright]
  rw [heq] at hkept ⊢
  obtain ⟨hactive, -, -, hstage, -⟩ := Opcache.startup_refused
    (a := s.startupAnswers a (p.openLock a.lockFile).2) h.kept.isRegistered hverdict
  refine ⟨hkept, hactive.trans h.idle, ?_, fun hdown' => absurd hdown' hstage, rfl, ?_, hopened, ?_⟩
  · obtain ⟨o', hhandler', -, hrest⟩ := Opcache.startup_failed
      (a := s.startupAnswers a (p.openLock a.lockFile).2) hhandler hmodel hverdict
    rw [hrest]
    exact Opcache.handler_startupRest hhandler'
  · unfold startupAlone
    rw [h.opcache]
    exact herased.symm
  · exact h.broker.trans (h.kept.idle h.idle)

/-- A call that neither starts nor ends anything. -/
theorem Alike.served {s' t' : Wired} (h : s.Alike t) (hkept : s'.Kept)
    (hserved : s.opcache.Served s'.opcache) (hhandler : s'.opcache.handler = s.opcache.handler)
    (hmodel : s'.opcache.model = s.opcache.model) (hsegment : s'.segment = s.segment)
    (hopcache : t'.opcache = s'.opcache.erased) (hfds : t'.process.fds = s'.process.fds)
    (hbroker : t'.broker = s'.broker) : s'.Alike t' := by
  refine ⟨hkept, hserved.active.trans h.idle, ?_, fun hdown => ?_, hsegment.trans h.segment, hopcache,
    hfds, hbroker⟩
  · rw [hhandler]
    exact h.handler
  · rw [hhandler, hmodel]
    rcases hserved.stage with hsame | hended
    · exact h.down (hsame.symm.trans hdown)
    · cases hended.symm.trans hdown

theorem lock_idle (hidle : s.opcache.providerActive = false)
    (answer : LockType → LockCommand → Bool) :
    s.lock answer =
      { s with
        process := (s.process.fcntl s.opcache.lockFile (answer .write .setLockWait)).1
        opcache := s.opcache.sharedAllocLock
          (s.process.fcntl s.opcache.lockFile (answer .write .setLockWait)).2 } := by
  unfold Wired.lock
  rw [hidle]
  rfl

theorem unlock_idle (hidle : s.opcache.providerActive = false)
    (answer : LockType → LockCommand → Bool) :
    s.unlock answer =
      { s with
        process := (s.process.fcntl s.opcache.lockFile (answer .unlock .setLock)).1
        opcache := s.opcache.sharedAllocUnlock
          (s.process.fcntl s.opcache.lockFile (answer .unlock .setLock)).2 } := by
  unfold Wired.unlock
  rw [hidle]
  rfl

theorem Alike.lockFile (h : s.Alike t) : t.opcache.lockFile = s.opcache.lockFile := by
  rw [h.opcache]
  rfl

theorem Alike.lock (h : s.Alike t) (hup : s.opcache.stage = .up)
    (answer : LockType → LockCommand → Bool) : (s.lock answer).Alike (t.lock answer) := by
  have hkept := h.kept.sharedAllocLock hup answer
  obtain ⟨hfds, hgranted⟩ := fcntl_fds h.fds s.opcache.lockFile (answer .write .setLockWait)
  rw [lock_idle h.idle] at hkept ⊢
  rw [lock_idle h.idle_right, h.lockFile, hgranted]
  refine h.served hkept (Opcache.served_lock _ _) ?_ ?_ rfl ?_ hfds h.broker
  · unfold Opcache.sharedAllocLock
    rw [h.idle]
    dsimp only
    split <;> rfl
  · unfold Opcache.sharedAllocLock
    rw [h.idle]
    dsimp only
    split <;> rfl
  · rw [h.opcache]
    exact (Opcache.erased_lock h.idle _).symm

theorem Alike.unlock (h : s.Alike t) (hup : s.opcache.stage = .up)
    (answer : LockType → LockCommand → Bool) : (s.unlock answer).Alike (t.unlock answer) := by
  have hkept := h.kept.sharedAllocUnlock hup answer
  obtain ⟨hfds, hgranted⟩ := fcntl_fds h.fds s.opcache.lockFile (answer .unlock .setLock)
  rw [unlock_idle h.idle] at hkept ⊢
  rw [unlock_idle h.idle_right, h.lockFile, hgranted]
  refine h.served hkept (Opcache.served_unlock _ _) ?_ ?_ rfl ?_ hfds h.broker
  · unfold Opcache.sharedAllocUnlock
    rw [h.idle]
    dsimp only
    split <;> rfl
  · unfold Opcache.sharedAllocUnlock
    rw [h.idle]
    dsimp only
    split <;> rfl
  · rw [h.opcache]
    exact (Opcache.erased_unlock h.idle _).symm

/-- Without an active provider there is nobody to notify. -/
theorem complete_idle (hidle : s.opcache.providerActive = false) (reattached : Bool)
    (publish abort : ExchangeAnswers) : s.providerStartupComplete reattached publish abort = s := by
  have hquiet : s.notifies = false := by simp [notifies, hidle]
  unfold Wired.providerStartupComplete
  rw [hquiet, Opcache.complete_idle hidle]
  rfl

theorem aborted_idle (hidle : s.opcache.providerActive = false) (reason : String)
    (abort : ExchangeAnswers) : s.providerStartupAborted reason abort = s := by
  have hquiet : s.notifies = false := by simp [notifies, hidle]
  unfold Wired.providerStartupAborted
  rw [hquiet, Opcache.aborted_idle hidle]
  rfl

theorem shutdown_idle (hidle : s.opcache.providerActive = false) (a : WiredShutdown) :
    s.sharedAllocShutdown a =
      { s with
        process := closeSlot s.process s.opcache.lockFile
        opcache := s.opcache.sharedAllocShutdown s.segment.toList.length
        segment := none } := by
  unfold Wired.sharedAllocShutdown
  rw [hidle]
  rfl

theorem Alike.shutdown (h : s.Alike t) (hup : s.opcache.stage = .up) {a : WiredShutdown}
    (habort : Deliverable a.abort.reply) (hfarewell : Deliverable a.farewell.reply) :
    (s.sharedAllocShutdown a).Alike (t.sharedAllocShutdown a) := by
  have hkept := h.kept.sharedAllocShutdown hup habort hfarewell
  have herased := Opcache.erased_shutdown h.idle h.handler s.segment.toList.length
    t.segment.toList.length
  rw [shutdown_idle h.idle] at hkept ⊢
  rw [shutdown_idle h.idle_right, h.lockFile]
  have hcleared := Opcache.shutdown_cleared s.opcache s.segment.toList.length
  refine ⟨hkept, (Opcache.shutdown_fields s.opcache _).1, ?_, fun _ => hcleared, rfl, ?_,
    closeSlot_fds h.fds _, h.broker⟩
  · rw [hcleared.1]
    simp
  · rw [herased, h.opcache]

theorem Alike.step (h : s.Alike t) {call : WiredCall} (hpermitted : s.Permitted call)
    (hfalls : s.FallsBack sizeofSharedGlobals call) :
    (s.step sizeofSharedGlobals call).Alike (t.step sizeofSharedGlobals call) := by
  obtain ⟨-, hallowed⟩ := hpermitted
  cases call with
  | register provider => exact hfalls.elim
  | startup a => exact h.startup hallowed.1 hallowed.2.1 hallowed.2.2 hfalls
  | startupComplete reattached publish abort =>
      change (s.providerStartupComplete reattached publish abort).Alike
        (t.providerStartupComplete reattached publish abort)
      rw [complete_idle h.idle, complete_idle h.idle_right]
      exact h
  | startupAborted reason abort =>
      change (s.providerStartupAborted reason abort).Alike (t.providerStartupAborted reason abort)
      rw [aborted_idle h.idle, aborted_idle h.idle_right]
      exact h
  | lock answer => exact h.lock hallowed answer
  | unlock answer => exact h.unlock hallowed answer
  | shutdown a => exact h.shutdown hallowed.1 hallowed.2.1 hallowed.2.2
  | elsewhere fds =>
      exact ⟨h.kept.elsewhere hallowed, h.idle, h.handler, h.down, h.segment, h.opcache, rfl, h.broker⟩

/-- OPcache's startup ends the same way. -/
theorem Alike.postStartup (h : s.Alike t) (hdown : s.opcache.stage = .down) {a : PostStartupAnswers}
    (ha : a.Delivered) (hfalls : s.FallsBack sizeofSharedGlobals (.startup a.startup)) :
    (t.accelPostStartup sizeofSharedGlobals a).2 = (s.accelPostStartup sizeofSharedGlobals a).2 ∧
      (s.accelPostStartup sizeofSharedGlobals a).1.Alike
        (t.accelPostStartup sizeofSharedGlobals a).1 := by
  have hstarted := h.startup hdown ha.acquire ha.farewell hfalls
  obtain ⟨hverdict, hplain⟩ := hfalls
  have hunregistered : t.opcache.providerRegistered = false := by
    rw [h.opcache]
    rfl
  have hstatus : s.startupStatus sizeofSharedGlobals a.startup =
      a.startup.builtin.elim allocFailure (·.status) := if_neg fun hboth => hboth.2 hverdict
  have hstatus' : t.startupStatus sizeofSharedGlobals a.startup =
      a.startup.builtin.elim allocFailure (·.status) := by
    refine if_neg fun hboth => ?_
    rw [hunregistered] at hboth
    cases hboth.1
  have hnot : a.startup.builtin.elim allocFailure (·.status) ≠ successfullyReattached := by
    cases hbuiltin : a.startup.builtin with
    | none => decide
    | some built => exact hplain built hbuiltin
  have hstage : (t.startup sizeofSharedGlobals a.startup).opcache.stage =
      (s.startup sizeofSharedGlobals a.startup).opcache.stage := by
    rw [hstarted.opcache]
    rfl
  have haborted : ∀ reason,
      ((s.startup sizeofSharedGlobals a.startup).providerStartupAborted reason a.abort).Alike
        ((t.startup sizeofSharedGlobals a.startup).providerStartupAborted reason a.abort) := by
    intro reason
    rw [aborted_idle hstarted.idle, aborted_idle hstarted.idle_right]
    exact hstarted
  unfold accelPostStartup
  dsimp only
  rw [hstage, hstatus, hstatus', if_neg hnot, if_neg hnot]
  split
  · exact ⟨rfl, hstarted⟩
  · split
    · -- the fatal error of a startup that failed to reattach
      have hfatal := haborted "OPcache could not reattach the external shared memory"
      refine ⟨rfl, hfatal.served ?_ ⟨rfl, rfl, rfl, .inr rfl⟩ rfl rfl rfl ?_ hfatal.fds hfatal.broker⟩
      · exact hfatal.kept.served ⟨rfl, rfl, rfl, .inr rfl⟩
          (fun _ _ _ _ _ hholding => hholding.holds) (.inl rfl) (fun _ => rfl) rfl
      · exact congrArg Opcache.fatal hfatal.opcache
    · split
      · exact ⟨rfl, haborted _⟩
      · unfold finishStartup
        split
        · rw [complete_idle hstarted.idle, complete_idle hstarted.idle_right]
          exact ⟨rfl, hstarted⟩
        · exact ⟨rfl, haborted _⟩

/-- A PHP for which the broker is of no use runs as one without the extension: the same calls are
possible, OPcache is in the same state after them, the same descriptors are open, and the next
startup ends the same way. -/
theorem fallback_transparent {calls : List WiredCall}
    (h : Execution.Run (Execution.Guarded (Step sizeofSharedGlobals)
      fun s call => s.Permitted call ∧ s.FallsBack sizeofSharedGlobals call) (start fds) calls s) :
    ∃ t, Execution.Run (Execution.Guarded (Step sizeofSharedGlobals) Permitted) (bare fds) calls t ∧
      t.opcache = s.opcache.erased ∧ t.process.fds = s.process.fds ∧
      ∀ a : PostStartupAnswers, s.opcache.stage = .down → a.Delivered →
        s.FallsBack sizeofSharedGlobals (.startup a.startup) →
          (t.accelPostStartup sizeofSharedGlobals a).2 =
            (s.accelPostStartup sizeofSharedGlobals a).2 := by
  obtain ⟨t, hrun, halike⟩ : ∃ t, Execution.Run
      (Execution.Guarded (Step sizeofSharedGlobals) Permitted) (bare fds) calls t ∧ s.Alike t := by
    refine h.matched (R := Alike) ?_ (alike_start fds)
    rintro s t call s' hst ⟨⟨hpermitted, hfalls⟩, rfl⟩
    exact ⟨t.step sizeofSharedGlobals call, ⟨hst.permitted hpermitted, rfl⟩,
      hst.step hpermitted hfalls⟩
  exact ⟨t, hrun, halike.opcache, halike.fds,
    fun a hdown ha hfalls => (halike.postStartup hdown ha hfalls).1⟩

theorem allocSuccess_ne_failure : allocSuccess ≠ allocFailure := by decide

/-- The broker's cache is mapped at the wrong address, and OPcache's own memory model takes over. -/
def misplacedStartup : WiredStartup :=
  { attachingStartup with
    acquire := misplaced
    lockFile := some (3, .memfd 9)
    builtin := some ⟨"mmap", allocSuccess, allocSuccess_ne_failure⟩
    globals := some 4096 }

theorem fallback_transparent_misplaced :
    (((start .empty).step 64 (.startup misplacedStartup)).process.log =
        [.opened (.conn 0), .opened (.memfd 0), .opened (.memfd 1),
          .mapped 131072 4096 (.memfd 0), .unmapped 131072 4096,
          .closed (.memfd 0), .closed (.memfd 1), .closed (.conn 0), .opened (.memfd 9)] ∧
      ((start .empty).step 64 (.startup misplacedStartup)).opcache.model = some "mmap") ∧
      ∃ t, Execution.Run (Execution.Guarded (Step 64) Permitted) (bare .empty)
          [.startup misplacedStartup] t ∧
        t.opcache = ((start .empty).step 64 (.startup misplacedStartup)).opcache.erased ∧
        t.process.fds = ((start .empty).step 64 (.startup misplacedStartup)).process.fds ∧
        ∀ a : PostStartupAnswers,
          ((start .empty).step 64 (.startup misplacedStartup)).opcache.stage = .down → a.Delivered →
          ((start .empty).step 64 (.startup misplacedStartup)).FallsBack 64 (.startup a.startup) →
            (t.accelPostStartup 64 a).2 =
              (((start .empty).step 64 (.startup misplacedStartup)).accelPostStartup 64 a).2 := by
  have hreply : Deliverable misplacedStartup.acquire.reply := by
    intro r hr
    cases hr
    exact ⟨by decide, by decide⟩
  have hsilent : Deliverable (.error .again) := by
    intro r hr
    cases hr
  have hplain : ∀ built, misplacedStartup.builtin = some built →
      built.status ≠ successfullyReattached := by
    intro built hbuilt
    cases hbuilt
    decide
  exact ⟨⟨by decide +kernel, by decide +kernel⟩, fallback_transparent (.single
    ⟨⟨⟨by decide, by decide, hreply, hsilent⟩, by decide +kernel, hplain⟩, rfl⟩)⟩

end Wired

end Hyperglyph
