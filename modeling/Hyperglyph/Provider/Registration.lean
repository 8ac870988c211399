import Hyperglyph.Provider.Sessions

/-! A provider is registered at most once, and only before OPcache first starts. -/
namespace Hyperglyph

namespace Opcache

variable {s : Opcache}

/-- Nothing was registered and no startup entered. -/
structure Continues (s s' : Opcache) : Prop where
  log : ∃ events, s'.log = s.log ++ events ∧ .registration true ∉ events ∧ .startup ∉ events
  registered : s'.providerRegistered = s.providerRegistered
  started : s'.started = s.started

theorem Continues.of_log {s' : Opcache} (hlog : s'.log = s.log)
    (hregistered : s'.providerRegistered = s.providerRegistered) (hstarted : s'.started = s.started) :
    s.Continues s' :=
  ⟨⟨[], by rw [hlog, List.append_nil], by simp, by simp⟩, hregistered, hstarted⟩

theorem Continues.trans {s' s'' : Opcache} (h : s.Continues s') (h' : s'.Continues s'') :
    s.Continues s'' := by
  obtain ⟨first, hlog, hregistration, hstartup⟩ := h.log
  obtain ⟨second, hlog', hregistration', hstartup'⟩ := h'.log
  refine ⟨⟨first ++ second, ?_, ?_, ?_⟩, h'.registered.trans h.registered,
    h'.started.trans h.started⟩
  · rw [hlog', hlog, List.append_assoc]
  · simp [hregistration, hregistration']
  · simp [hstartup, hstartup']

theorem continues_emit {events : List OpcacheEvent}
    (hregistration : OpcacheEvent.registration true ∉ events)
    (hstartup : OpcacheEvent.startup ∉ events) : s.Continues (s.emit events) :=
  ⟨⟨events, rfl, hregistration, hstartup⟩, rfl, rfl⟩

/-- The provider was called, and what else changed is not about registration. -/
theorem Continues.said {s' : Opcache} {events : List ProviderEvent}
    (hlog : s'.log = s.log ++ events.map OpcacheEvent.provider)
    (hregistered : s'.providerRegistered = s.providerRegistered) (hstarted : s'.started = s.started) :
    s.Continues s' :=
  ⟨⟨_, hlog, by simp, by simp⟩, hregistered, hstarted⟩

theorem continues_deliver (events : List ProviderEvent) : s.Continues (s.deliver events) :=
  .said rfl rfl rfl

/-- What is recorded of registrations and startups. -/
structure Registered (s : Opcache) : Prop where
  once : s.log.count (.registration true) = if s.providerRegistered = true then 1 else 0
  first : ¬ History.Precedes s.log .startup (.registration true)
  entered : .startup ∈ s.log → s.started = true

theorem Registered.continues {s' : Opcache} (h : s.Registered) (h' : s.Continues s') :
    s'.Registered := by
  obtain ⟨events, hlog, hregistration, hstartup⟩ := h'.log
  constructor
  · rw [hlog, List.count_append, List.count_eq_zero_of_not_mem hregistration, h'.registered]
    exact h.once
  · rw [hlog, History.precedes_append_iff]
    rintro (hold | ⟨-, hnew⟩ | hnew)
    · exact h.first hold
    · exact hregistration hnew
    · exact hregistration hnew.right
  · rw [hlog, h'.started]
    intro hmem
    exact h.entered ((List.mem_append.mp hmem).resolve_right hstartup)

theorem Registered.register (h : s.Registered) (provider : Option ShmProviderV2) :
    (s.register provider).Registered := by
  unfold Opcache.register
  split
  · have hrefused : s.Continues (s.emit [.registration false]) := continues_emit (by simp) (by simp)
    exact h.continues hrefused
  · next hrefused =>
      have hfresh : s.providerRegistered = false ∧ s.started = false := by
        cases provider with
        | none => exact absurd rfl hrefused
        | some provider => simp_all [registrationRefused]
      have hnone : .startup ∉ s.log := by
        intro hmem
        have hstarted := h.entered hmem
        rw [hfresh.2] at hstarted
        cases hstarted
      constructor
      · show (s.log ++ [OpcacheEvent.registration true]).count (.registration true) = 1
        rw [List.count_append, h.once, hfresh.1]
        rfl
      · show ¬ History.Precedes (s.log ++ [OpcacheEvent.registration true]) .startup (.registration true)
        rw [History.precedes_append_iff]
        rintro (hold | ⟨hold, -⟩ | hnew)
        · exact h.first hold
        · exact hnone hold
        · cases List.mem_singleton.mp hnew.left
      · intro hmem
        rcases List.mem_append.mp hmem with hold | hnew
        · exact h.entered hold
        · cases List.mem_singleton.mp hnew

theorem continues_tryProvider (sizeofSharedGlobals : UInt64) (a : StartupAnswers) :
    s.Continues (s.tryProvider sizeofSharedGlobals a).1 := by
  unfold tryProvider
  dsimp only
  have hcreated : s.Continues { (s.deliver [.createSegments
      (providerCreateSegments sizeofSharedGlobals a.allocated a.checkedLockFile).1]) with
      handler := some .external
      model := s.provider.name
      reattachedGlobals := a.allocated.reattachedSharedGlobals } := .said rfl rfl rfl
  split
  · exact hcreated
  · exact (hcreated.trans (continues_deliver _)).trans (.of_log rfl rfl rfl)

theorem continues_startupProvider (sizeofSharedGlobals : UInt64) (a : StartupAnswers) :
    s.Continues (s.startupProvider sizeofSharedGlobals a).1 := by
  have htried := continues_tryProvider (s := s) sizeofSharedGlobals a
  unfold startupProvider
  split
  · generalize s.tryProvider sizeofSharedGlobals a = tried at htried ⊢
    obtain ⟨s', res⟩ := tried
    dsimp only
    split
    · exact htried.trans (.of_log rfl rfl rfl)
    · exact htried.trans (continues_deliver _)
  · exact .of_log rfl rfl rfl

theorem continues_startupBuiltin (res : Int) (a : StartupAnswers) :
    s.Continues (s.startupBuiltin res a).1 := by
  unfold startupBuiltin
  split
  · exact .of_log rfl rfl rfl
  · split
    · exact .of_log rfl rfl rfl
    · next fd _ =>
        have hlocked : s.Continues (s.emit [.lockCreated fd]) := continues_emit (by simp) (by simp)
        dsimp only
        split <;> exact hlocked.trans (.of_log rfl rfl rfl)

theorem continues_startupGlobals (res : Int) (a : StartupAnswers) :
    s.Continues (s.startupGlobals res a) := by
  unfold startupGlobals
  split
  · exact .of_log rfl rfl rfl
  · split
    · exact .of_log rfl rfl rfl
    · split <;> exact .of_log rfl rfl rfl

theorem Registered.sharedAllocStartup (h : s.Registered) (sizeofSharedGlobals : UInt64)
    (a : StartupAnswers) : (s.sharedAllocStartup sizeofSharedGlobals a).Registered := by
  have hentered : Registered { (s.emit [.startup]) with started := true } := by
    constructor
    · show (s.log ++ [OpcacheEvent.startup]).count (.registration true) = _
      rw [List.count_append, h.once]
      rfl
    · show ¬ History.Precedes (s.log ++ [OpcacheEvent.startup]) .startup (.registration true)
      rw [History.precedes_append_iff]
      rintro (hold | ⟨-, hnew⟩ | hnew)
      · exact h.first hold
      · cases List.mem_singleton.mp hnew
      · cases List.mem_singleton.mp hnew.right
    · exact fun _ => rfl
  unfold Opcache.sharedAllocStartup
  dsimp only
  have hprovider := hentered.continues (continues_startupProvider sizeofSharedGlobals a)
  generalize Opcache.startupProvider sizeofSharedGlobals { (s.emit [.startup]) with started := true }
    a = tried at hprovider ⊢
  obtain ⟨s', res⟩ := tried
  have hbuiltin := hprovider.continues (continues_startupBuiltin res a)
  split
  · next s'' heq =>
      rw [heq] at hbuiltin
      exact hbuiltin.continues (.of_log rfl rfl rfl)
  · next s'' res' heq =>
      rw [heq] at hbuiltin
      exact hbuiltin.continues (continues_startupGlobals res' a)

theorem continues_providerStartupAborted (reason : String) :
    s.Continues (s.providerStartupAborted reason) := by
  unfold providerStartupAborted
  split
  · exact .of_log rfl rfl rfl
  · exact (continues_deliver _).trans (.of_log rfl rfl rfl)

theorem continues_sharedAllocShutdown (segments : Nat) :
    s.Continues (s.sharedAllocShutdown segments) := by
  have haborted : s.Continues s.abortUnfinished := by
    unfold abortUnfinished
    split
    · exact continues_providerStartupAborted _
    · exact .of_log rfl rfl rfl
  refine haborted.trans ?_
  unfold sharedAllocShutdown
  dsimp only
  generalize s.abortUnfinished = s'
  have hdetached : s'.Continues (if s'.handler = some .external then
      s'.deliver (List.replicate segments .detachSegment) else s') := by
    split
    · exact continues_deliver _
    · exact .of_log rfl rfl rfl
  refine hdetached.trans ?_
  generalize (if s'.handler = some .external then
    s'.deliver (List.replicate segments .detachSegment) else s') = s''
  split
  · exact Continues.trans (continues_deliver [.shutdown s''.provider.shutdown]) (.of_log rfl rfl rfl)
  · split
    · have hclosed : s''.Continues (s''.emit [.lockClosed s''.lockFile]) :=
        continues_emit (by simp) (by simp)
      exact hclosed.trans (.of_log rfl rfl rfl)
    · exact .of_log rfl rfl rfl

theorem Registered.step (h : s.Registered) (sizeofSharedGlobals : UInt64) (call : OpcacheCall) :
    (s.step sizeofSharedGlobals call).Registered := by
  cases call with
  | register provider => exact h.register provider
  | startup a => exact h.sharedAllocStartup sizeofSharedGlobals a
  | startupComplete reattached =>
      unfold Opcache.step providerStartupComplete
      dsimp only
      split
      · exact h
      · exact h.continues ((continues_deliver _).trans (.of_log rfl rfl rfl))
  | startupAborted reason => exact h.continues (continues_providerStartupAborted reason)
  | lock granted =>
      have hused : s.Continues (if s.providerActive = true then s.deliver [.lock granted] else s) := by
        split
        · exact continues_deliver _
        · exact .of_log rfl rfl rfl
      unfold Opcache.step sharedAllocLock
      dsimp only
      split <;> exact h.continues (hused.trans (.of_log rfl rfl rfl))
  | unlock granted =>
      unfold Opcache.step sharedAllocUnlock
      dsimp only
      have hused : s.Continues (if s.providerActive = true then
          Opcache.deliver { s with locked := false } [.unlock granted]
          else { s with locked := false }) := by
        split
        · exact .said rfl rfl rfl
        · exact .of_log rfl rfl rfl
      split
      · exact h.continues hused
      · exact h.continues (hused.trans (.of_log rfl rfl rfl))
  | shutdown segments => exact h.continues (continues_sharedAllocShutdown segments)

theorem Reachable.registered {sizeofSharedGlobals : UInt64} (h : Reachable sizeofSharedGlobals s) :
    s.Registered := by
  refine Execution.Reachable.invariant (I := Registered) ?_ ?_ h
  · rintro s rfl
    constructor
    · rfl
    · exact fun hprecedes => absurd hprecedes.left (by simp [start])
    · intro hmem
      cases hmem
  · rintro s call s' hs ⟨-, rfl⟩
    exact hs.step sizeofSharedGlobals call

/-! ### The life of a provider -/

/-- The provider is active and has not been told how the startup went. -/
def Unsettled (s : Opcache) : Prop := s.providerActive = true ∧ s.startupFinished = false

instance : Decidable s.Unsettled := inferInstanceAs (Decidable (_ ∧ _))

/-- What holds of every history of calls. -/
structure LifeCycleKept (s : Opcache) : Prop where
  registeredOnce : s.log.count (.registration true) ≤ 1
  registeredFirst : ¬ History.Precedes s.log .startup (.registration true)
  seen : s.Seen
  calls : ∀ e ∈ s.delivered, e.CallsWhatIsSet s.provider
  lockFiles : ∃ pending, OwnLocks pending s.lockFiles ∧ (s.stage ≠ .ended → pending = s.openLock)
  locking : ∀ granted, (s.sharedAllocLock granted).delivered =
    s.delivered ++ if s.providerActive = true then [.lock granted] else []
  unlocking : ∀ granted, (s.sharedAllocUnlock granted).delivered =
    s.delivered ++ if s.providerActive = true then [.unlock granted] else []
  /-- The startup of an activation is over with the first of the two notifications. -/
  completing : ∀ reattached, (s.providerStartupComplete reattached).delivered =
      s.delivered ++ (if s.Unsettled then
        [.startupComplete s.provider.startupComplete reattached s.sharedGlobals] else []) ∧
    ¬ (s.providerStartupComplete reattached).Unsettled
  aborting : ∀ reason, (s.providerStartupAborted reason).delivered =
      s.delivered ++ (if s.Unsettled then
        [.startupAborted s.provider.startupAborted reason] else []) ∧
    ¬ (s.providerStartupAborted reason).Unsettled

theorem delivered_sharedAllocLock (granted : Bool) : (s.sharedAllocLock granted).delivered =
    s.delivered ++ if s.providerActive = true then [.lock granted] else [] := by
  have hlog : (s.sharedAllocLock granted).delivered =
      (if s.providerActive = true then s.deliver [.lock granted] else s).delivered := by
    unfold sharedAllocLock
    dsimp only
    split <;> rfl
  rw [hlog]
  by_cases hactive : s.providerActive = true
  · rw [if_pos hactive, if_pos hactive, delivered_deliver]
  · rw [if_neg hactive, if_neg hactive, List.append_nil]

theorem delivered_sharedAllocUnlock (granted : Bool) : (s.sharedAllocUnlock granted).delivered =
    s.delivered ++ if s.providerActive = true then [.unlock granted] else [] := by
  have hlog : (s.sharedAllocUnlock granted).delivered =
      (if s.providerActive = true then s.deliver [.unlock granted] else s).delivered := by
    unfold sharedAllocUnlock
    dsimp only
    by_cases hactive : s.providerActive = true
    · rw [if_pos hactive, if_pos hactive]
      split <;> rfl
    · rw [if_neg hactive, if_neg hactive]
      split <;> rfl
  rw [hlog]
  by_cases hactive : s.providerActive = true
  · rw [if_pos hactive, if_pos hactive, delivered_deliver]
  · rw [if_neg hactive, if_neg hactive, List.append_nil]

theorem unsettled_iff : s.Unsettled ↔ ¬ (!s.providerActive || s.startupFinished) = true := by
  simp [Unsettled]

theorem delivered_providerStartupComplete (reattached : Bool) :
    (s.providerStartupComplete reattached).delivered = s.delivered ++ (if s.Unsettled then
        [.startupComplete s.provider.startupComplete reattached s.sharedGlobals] else []) ∧
      ¬ (s.providerStartupComplete reattached).Unsettled := by
  unfold providerStartupComplete
  by_cases hunsettled : s.Unsettled
  · rw [if_neg (unsettled_iff.mp hunsettled), if_pos hunsettled]
    exact ⟨delivered_deliver s _, fun h => Bool.noConfusion h.2⟩
  · rw [if_pos (not_not.mp (hunsettled ∘ unsettled_iff.mpr)), if_neg hunsettled, List.append_nil]
    exact ⟨rfl, hunsettled⟩

theorem delivered_providerStartupAborted (reason : String) :
    (s.providerStartupAborted reason).delivered = s.delivered ++ (if s.Unsettled then
        [.startupAborted s.provider.startupAborted reason] else []) ∧
      ¬ (s.providerStartupAborted reason).Unsettled := by
  unfold providerStartupAborted
  by_cases hunsettled : s.Unsettled
  · rw [if_neg (unsettled_iff.mp hunsettled), if_pos hunsettled]
    exact ⟨delivered_deliver s _, fun h => Bool.noConfusion h.2⟩
  · rw [if_pos (not_not.mp (hunsettled ∘ unsettled_iff.mpr)), if_neg hunsettled, List.append_nil]
    exact ⟨rfl, hunsettled⟩

instance (call : OpcacheCall) : Decidable (s.Permitted call) :=
  match call with
  | .startup _ => inferInstanceAs (Decidable (_ ∧ s.stage = .down))
  | .shutdown _ => inferInstanceAs (Decidable (_ ∧ s.stage = .up))
  | .register _ | .startupComplete _ | .startupAborted _ | .lock _ | .unlock _ =>
      inferInstanceAs (Decidable (_ ∧ True))

/-- All of the calls are permitted, one after the other. -/
def Permits (sizeofSharedGlobals : UInt64) (s : Opcache) : List OpcacheCall → Bool
  | [] => true
  | call :: calls =>
      decide (s.Permitted call) && (s.step sizeofSharedGlobals call).Permits sizeofSharedGlobals calls

theorem Reachable.foldl {sizeofSharedGlobals : UInt64} {calls : List OpcacheCall}
    (h : Reachable sizeofSharedGlobals s) (hpermits : s.Permits sizeofSharedGlobals calls = true) :
    Reachable sizeofSharedGlobals (calls.foldl (step sizeofSharedGlobals) s) := by
  induction calls generalizing s with
  | nil => exact h
  | cons call calls ih =>
      simp only [Permits, Bool.and_eq_true, decide_eq_true_eq] at hpermits
      exact ih (h.tail ⟨hpermits.1, rfl⟩) hpermits.2

/-- A provider with all the callbacks. -/
def notifiedProvider : ShmProviderV2 where
  abiVersion := shmProviderAbiV2
  structSize := sizeofShmProviderV2
  name := some "external"
  createSegments := true
  detachSegment := true
  segmentTypeSize := some sizeofSharedSegment
  getLockFile := true
  lock := true
  unlock := true
  startupComplete := true
  startupAborted := true
  shutdown := true

/-- The provider's segment is valid, or it has none and the built-in model is tried. -/
def answeringStartup (status : Int) : StartupAnswers where
  allocated := ⟨status, some ⟨[some ⟨0x10000, 4096, 0, 4096⟩], 1, rfl⟩, 0, none⟩
  checkedLockFile := 5
  lockFile := 5
  createdLock := some 6
  builtin := some ⟨"mmap", allocSuccess, by decide⟩
  globals := some 0x10000

/-- A startup that is completed and then cannot be aborted any more, one that is shut down before
it is over, and an allocation that came to nothing, for which the built-in memory model stands
in. -/
def threeSessions : List OpcacheCall :=
  [.register (some notifiedProvider), .startup (answeringStartup allocSuccess), .lock true,
    .startupComplete false, .unlock true, .startupAborted "too late", .shutdown 1,
    .register (some notifiedProvider), .startup (answeringStartup allocSuccess), .lock true,
    .shutdown 1, .startup (answeringStartup allocFailure)]

end Opcache

end Hyperglyph
