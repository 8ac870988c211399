import Hyperglyph.Library.History
import Hyperglyph.Provider.LifeCycle

/-! What the provider sees of OPcache: a sequence of sessions, each opened by `create_segments`
and closed by `shutdown`, with one notification about the startup in every session that
activated it. -/
namespace Hyperglyph

namespace ProviderEvent

def IsUse : ProviderEvent → Prop
  | .lock _ | .unlock _ => True
  | _ => False

def IsNotice : ProviderEvent → Prop
  | .startupComplete .. | .startupAborted .. => True
  | _ => False

/-- An optional callback is called exactly when it is set. -/
def CallsWhatIsSet (provider : ShmProviderV2) : ProviderEvent → Prop
  | .startupComplete called _ _ => called = provider.startupComplete
  | .startupAborted called _ => called = provider.startupAborted
  | .shutdown called => called = provider.shutdown
  | _ => True

end ProviderEvent

/-- The detachments and the shutdown that end a session. -/
def closing (segments : Nat) (called : Bool) : List ProviderEvent :=
  List.replicate segments .detachSegment ++ [.shutdown called]

/-- A whole session: an allocation that came to nothing, or an activation. -/
inductive Session : List ProviderEvent → Prop
  | refused (segments : Nat) (called : Bool) :
      Session (.createSegments allocFailure :: closing segments called)
  | activated {status : Int} {before after : List ProviderEvent} {notice : ProviderEvent}
      (segments : Nat) (called : Bool) : status ≠ allocFailure → (∀ e ∈ before, e.IsUse) →
      notice.IsNotice → (∀ e ∈ after, e.IsUse) →
      Session (.createSegments status :: before ++ notice :: after ++ closing segments called)

/-- The part of a session that lies behind an active provider; the flags are those of OPcache. -/
inductive Current : Bool → Bool → List ProviderEvent → Prop
  | idle (finished : Bool) : Current false finished []
  | unsettled {status : Int} {before : List ProviderEvent} : status ≠ allocFailure →
      (∀ e ∈ before, e.IsUse) → Current true false (.createSegments status :: before)
  | settled {status : Int} {before after : List ProviderEvent} {notice : ProviderEvent} :
      status ≠ allocFailure → (∀ e ∈ before, e.IsUse) → notice.IsNotice → (∀ e ∈ after, e.IsUse) →
      Current true true (.createSegments status :: before ++ notice :: after)

section Current

variable {active finished : Bool} {current : List ProviderEvent} {e : ProviderEvent}

theorem forall_mem_concat {before : List ProviderEvent} (h : ∀ e ∈ before, e.IsUse) (he : e.IsUse) :
    ∀ e' ∈ before ++ [e], e'.IsUse := by
  intro e' hmem
  rcases List.mem_append.mp hmem with hold | hnew
  · exact h e' hold
  · rw [List.mem_singleton.mp hnew]
    exact he

theorem Current.use (h : Current true finished current) (he : e.IsUse) :
    Current true finished (current ++ [e]) := by
  cases h with
  | unsettled hstatus hbefore => exact .unsettled hstatus (forall_mem_concat hbefore he)
  | settled hstatus hbefore hnotice hafter =>
      rw [List.append_assoc]
      exact .settled hstatus hbefore hnotice (forall_mem_concat hafter he)

theorem Current.notice (h : Current true false current) (he : e.IsNotice) :
    Current true true (current ++ [e]) := by
  cases h with
  | unsettled hstatus hbefore => exact .settled hstatus hbefore he (by simp)

theorem Current.close (h : Current true true current) (segments : Nat) (called : Bool) :
    Session (current ++ closing segments called) := by
  cases h with
  | settled hstatus hbefore hnotice hafter =>
      exact .activated segments called hstatus hbefore hnotice hafter

end Current

/-- OPcache's own lock files: each is created, and closed before the next one is. The first
argument is the one that is open. -/
inductive OwnLocks : Option Int → List OpcacheEvent → Prop
  | none : OwnLocks none []
  | created {events : List OpcacheEvent} (fd : Int) : OwnLocks .none events →
      OwnLocks (some fd) (events ++ [.lockCreated fd])
  | closed {events : List OpcacheEvent} {fd : Int} : OwnLocks (some fd) events →
      OwnLocks .none (events ++ [.lockClosed fd])

def OpcacheEvent.provider? : OpcacheEvent → Option ProviderEvent
  | .provider e => some e
  | _ => none

def OpcacheEvent.isLockFile : OpcacheEvent → Bool
  | .lockCreated _ | .lockClosed _ => true
  | _ => false

namespace Opcache

/-- What the provider was called for. -/
def delivered (s : Opcache) : List ProviderEvent := s.log.filterMap OpcacheEvent.provider?

def lockFiles (s : Opcache) : List OpcacheEvent := s.log.filter OpcacheEvent.isLockFile

/-- The provider has seen whole sessions, and what `current` says of the one that is open. -/
def Seen (s : Opcache) : Prop :=
  ∃ (sessions : List (List ProviderEvent)) (current : List ProviderEvent),
    s.delivered = sessions.flatten ++ current ∧ (∀ l ∈ sessions, Session l) ∧
      Current s.providerActive s.startupFinished current

/-- The lock file of its own that OPcache has open. -/
def openLock (s : Opcache) : Option Int :=
  if s.stage = .down ∨ s.providerActive = true then none else some s.lockFile

/-- The invariant as far as it does not depend on the stage; the argument is the lock file of
OPcache's own that is open. -/
structure Steady (s : Opcache) (pending : Option Int) : Prop where
  seen : s.Seen
  external : s.handler = some .external ↔ s.providerActive = true
  locks : OwnLocks pending s.lockFiles
  calls : ∀ e ∈ s.delivered, e.CallsWhatIsSet s.provider
  unregistered : s.providerRegistered = false → s.delivered = []

/-- The invariant of the static variables. -/
structure Lawful (s : Opcache) : Prop where
  seen : s.Seen
  external : s.handler = some .external ↔ s.providerActive = true
  down : s.stage = .down → s.handler = none
  locks : ∃ pending, OwnLocks pending s.lockFiles ∧ (s.stage ≠ .ended → pending = s.openLock)
  positive : s.stage = .up → s.providerActive = false → 0 ≤ s.lockFile
  calls : ∀ e ∈ s.delivered, e.CallsWhatIsSet s.provider
  unregistered : s.providerRegistered = false → s.delivered = []

variable {s : Opcache}

@[simp] theorem delivered_emit (s : Opcache) (events : List OpcacheEvent) :
    (s.emit events).delivered = s.delivered ++ events.filterMap OpcacheEvent.provider? :=
  List.filterMap_append

@[simp] theorem lockFiles_emit (s : Opcache) (events : List OpcacheEvent) :
    (s.emit events).lockFiles = s.lockFiles ++ events.filter OpcacheEvent.isLockFile :=
  List.filter_append ..

@[simp] theorem delivered_deliver (s : Opcache) (events : List ProviderEvent) :
    (s.deliver events).delivered = s.delivered ++ events := by
  have hsame : (events.map OpcacheEvent.provider).filterMap OpcacheEvent.provider? = events := by
    rw [List.filterMap_map]
    exact List.filterMap_some
  rw [deliver, delivered_emit, hsame]

@[simp] theorem lockFiles_deliver (s : Opcache) (events : List ProviderEvent) :
    (s.deliver events).lockFiles = s.lockFiles := by
  have hnone : (events.map OpcacheEvent.provider).filter OpcacheEvent.isLockFile = [] := by
    simp [OpcacheEvent.isLockFile]
  rw [deliver, lockFiles_emit, hnone, List.append_nil]

theorem Lawful.not_active_of_down (h : s.Lawful) (hdown : s.stage = .down) :
    s.providerActive = false := by
  cases hactive : s.providerActive with
  | false => rfl
  | true =>
      have hexternal := h.external.mpr hactive
      rw [h.down hdown] at hexternal
      cases hexternal

/-- An active provider has been called. -/
theorem Lawful.delivered_ne_nil (h : s.Lawful) (hactive : s.providerActive = true) :
    s.delivered ≠ [] := by
  obtain ⟨sessions, current, hlog, -, hcurrent⟩ := h.seen
  intro hnil
  rw [hnil] at hlog
  obtain ⟨-, hnone⟩ := List.append_eq_nil_iff.mp hlog.symm
  rw [hactive, hnone] at hcurrent
  generalize s.startupFinished = finished at hcurrent
  cases hcurrent

theorem lawful_start : start.Lawful where
  seen := ⟨[], [], rfl, by simp, .idle false⟩
  external := by simp [start]
  down := fun _ => rfl
  locks := ⟨none, .none, fun _ => rfl⟩
  positive := by
    intro hup
    cases hup
  calls := by simp [start, delivered]
  unregistered := fun _ => rfl

/-- Nothing was said to the provider, and no lock file was touched. -/
theorem Lawful.quiet (h : s.Lawful) {events : List OpcacheEvent}
    (hprovider : events.filterMap OpcacheEvent.provider? = [])
    (hlock : events.filter OpcacheEvent.isLockFile = []) : (s.emit events).Lawful := by
  have hdelivered : (s.emit events).delivered = s.delivered := by
    rw [delivered_emit, hprovider, List.append_nil]
  have hlocks : (s.emit events).lockFiles = s.lockFiles := by
    rw [lockFiles_emit, hlock, List.append_nil]
  constructor
  · obtain ⟨sessions, current, hlog, hrest⟩ := h.seen
    exact ⟨sessions, current, hdelivered.trans hlog, hrest⟩
  · exact h.external
  · exact h.down
  · obtain ⟨pending, hpending, hopen⟩ := h.locks
    exact ⟨pending, hlocks.symm ▸ hpending, hopen⟩
  · exact h.positive
  · exact fun e he => h.calls e (hdelivered ▸ he)
  · exact fun hfresh => hdelivered.trans (h.unregistered hfresh)

theorem Steady.fatal {pending : Option Int} (h : s.Steady pending) : s.fatal.Lawful where
  seen := h.seen
  external := h.external
  down := by
    intro hdown
    cases hdown
  locks := ⟨pending, h.locks, fun hne => absurd rfl hne⟩
  positive := by
    intro hup
    cases hup
  calls := h.calls
  unregistered := h.unregistered

theorem Lawful.fatal (h : s.Lawful) : s.fatal.Lawful := by
  obtain ⟨pending, hlocks, -⟩ := h.locks
  exact Steady.fatal ⟨h.seen, h.external, hlocks, h.calls, h.unregistered⟩

theorem Lawful.register (h : s.Lawful) (provider : Option ShmProviderV2) :
    (s.register provider).Lawful := by
  unfold Opcache.register
  split
  · exact h.quiet rfl rfl
  · next hrefused =>
      have hfresh : s.providerRegistered = false := by
        cases provider with
        | none => exact absurd rfl hrefused
        | some provider => simp_all [registrationRefused]
      obtain ⟨hseen, hexternal, hdown, hlocks, hpositive, -, -⟩ :=
        (h.quiet rfl rfl : (s.emit [.registration true]).Lawful)
      refine ⟨hseen, hexternal, hdown, hlocks, hpositive, ?_, ?_⟩
      · intro e he
        have hnone : (s.emit [.registration true]).delivered = [] := by
          rw [delivered_emit, h.unregistered hfresh]
          rfl
        have hmem : e ∈ (s.emit [.registration true]).delivered := he
        rw [hnone] at hmem
        cases hmem
      · intro hfalse
        cases hfalse

/-- An active provider is called for something that continues its session. -/
theorem Lawful.told (h : s.Lawful) (hactive : s.providerActive = true) {e : ProviderEvent}
    {finished : Bool}
    (hcontinues : ∀ current, Current true s.startupFinished current →
      Current true finished (current ++ [e]))
    (hcalls : e.CallsWhatIsSet s.provider) :
    Lawful { (s.deliver [e]) with startupFinished := finished } := by
  have hdelivered : (s.deliver [e]).delivered = s.delivered ++ [e] :=
    delivered_deliver s _
  have hlocks : (s.deliver [e]).lockFiles = s.lockFiles := lockFiles_deliver s _
  constructor
  · obtain ⟨sessions, current, hlog, hsessions, hcurrent⟩ := h.seen
    rw [hactive] at hcurrent
    refine ⟨sessions, current ++ [e], ?_, hsessions, ?_⟩
    · show (s.deliver [e]).delivered = _
      rw [hdelivered, hlog, List.append_assoc]
    · show Current s.providerActive finished _
      rw [hactive]
      exact hcontinues current hcurrent
  · exact h.external
  · exact h.down
  · obtain ⟨pending, hpending⟩ := h.locks
    refine ⟨pending, ?_⟩
    show OwnLocks pending (s.deliver [e]).lockFiles ∧ _
    rw [hlocks]
    exact hpending
  · exact h.positive
  · intro e' he'
    have hmem : e' ∈ (s.deliver [e]).delivered := he'
    rw [hdelivered] at hmem
    rcases List.mem_append.mp hmem with hold | hnew
    · exact h.calls e' hold
    · rw [List.mem_singleton.mp hnew]
      exact hcalls
  · intro hfresh
    exact absurd (h.unregistered hfresh) (h.delivered_ne_nil hactive)

theorem Lawful.providerStartupComplete (h : s.Lawful) (reattached : Bool) :
    (s.providerStartupComplete reattached).Lawful := by
  unfold Opcache.providerStartupComplete
  split
  · exact h
  · next hpending =>
      simp only [Bool.or_eq_true, Bool.not_eq_true', not_or, Bool.not_eq_false,
        Bool.not_eq_true] at hpending
      refine h.told hpending.1 ?_ rfl
      intro current hcurrent
      rw [hpending.2] at hcurrent
      exact hcurrent.notice trivial

theorem Lawful.providerStartupAborted (h : s.Lawful) (reason : String) :
    (s.providerStartupAborted reason).Lawful := by
  unfold Opcache.providerStartupAborted
  split
  · exact h
  · next hpending =>
      simp only [Bool.or_eq_true, Bool.not_eq_true', not_or, Bool.not_eq_false,
        Bool.not_eq_true] at hpending
      refine h.told hpending.1 ?_ rfl
      intro current hcurrent
      rw [hpending.2] at hcurrent
      exact hcurrent.notice trivial

theorem Lawful.used (h : s.Lawful) {e : ProviderEvent} (he : e.IsUse)
    (hcalls : e.CallsWhatIsSet s.provider) :
    Lawful (if s.providerActive = true then s.deliver [e] else s) := by
  split
  · next hactive => exact h.told hactive (fun _ hcurrent => hcurrent.use he) hcalls
  · exact h

theorem Lawful.sharedAllocLock (h : s.Lawful) (granted : Bool) :
    (s.sharedAllocLock granted).Lawful := by
  have hused : Lawful (if s.providerActive = true then s.deliver [.lock granted] else s) :=
    h.used trivial trivial
  unfold Opcache.sharedAllocLock
  dsimp only
  split
  · exact ⟨hused.seen, hused.external, hused.down, hused.locks, hused.positive, hused.calls,
      hused.unregistered⟩
  · exact hused.fatal

theorem Lawful.sharedAllocUnlock (h : s.Lawful) (granted : Bool) :
    (s.sharedAllocUnlock granted).Lawful := by
  have hunlocked : Lawful { s with locked := false } :=
    ⟨h.seen, h.external, h.down, h.locks, h.positive, h.calls, h.unregistered⟩
  have hused : Lawful (if s.providerActive = true then
      Opcache.deliver { s with locked := false } [.unlock granted]
      else { s with locked := false }) := hunlocked.used trivial trivial
  unfold Opcache.sharedAllocUnlock
  dsimp only
  split
  · exact hused
  · exact hused.fatal

/-! ### Shutdown -/

/-- The session of an active provider is over. -/
theorem Lawful.closed (h : s.Lawful) (hup : s.stage = .up) (hactive : s.providerActive = true)
    (hfinished : s.startupFinished = true) (segments : Nat) :
    Lawful { ((s.deliver (List.replicate segments .detachSegment)).deliver
        [.shutdown s.provider.shutdown]) with
      handler := none, model := none, providerActive := false, stage := .down, lockFile := -1 } := by
  have hdelivered : ((s.deliver (List.replicate segments .detachSegment)).deliver
      [.shutdown s.provider.shutdown]).delivered =
      s.delivered ++ closing segments s.provider.shutdown := by
    rw [delivered_deliver, delivered_deliver, List.append_assoc]
    rfl
  have hlocks : ((s.deliver (List.replicate segments .detachSegment)).deliver
      [.shutdown s.provider.shutdown]).lockFiles = s.lockFiles := by
    rw [lockFiles_deliver, lockFiles_deliver]
  constructor
  · obtain ⟨sessions, current, hlog, hsessions, hcurrent⟩ := h.seen
    rw [hactive, hfinished] at hcurrent
    refine ⟨sessions ++ [current ++ closing segments s.provider.shutdown], [], ?_, ?_, .idle _⟩
    · refine hdelivered.trans ?_
      rw [hlog, List.flatten_concat, List.append_nil, List.append_assoc]
    · intro l hl
      rcases List.mem_append.mp hl with hold | hnew
      · exact hsessions l hold
      · rw [List.mem_singleton.mp hnew]
        exact hcurrent.close segments s.provider.shutdown
  · constructor
    · intro hexternal
      cases hexternal
    · intro htrue
      cases htrue
  · exact fun _ => rfl
  · obtain ⟨pending, hpending, hopen⟩ := h.locks
    refine ⟨pending, hlocks.symm ▸ hpending, fun _ => ?_⟩
    rw [hopen (by rw [hup]; decide)]
    simp [openLock, hactive]
  · intro hup'
    cases hup'
  · intro e he
    have hmem : e ∈ s.delivered ++ closing segments s.provider.shutdown := hdelivered ▸ he
    rcases List.mem_append.mp hmem with hold | hnew
    · exact h.calls e hold
    · rcases List.mem_append.mp hnew with hdetach | hshutdown
      · rw [(List.mem_replicate.mp hdetach).2]
        trivial
      · rw [List.mem_singleton.mp hshutdown]
        rfl
  · intro hfresh
    exact absurd (h.unregistered hfresh) (h.delivered_ne_nil hactive)

/-- The lock file of OPcache's own is closed. -/
theorem Lawful.unlocked (h : s.Lawful) (hup : s.stage = .up) (hactive : s.providerActive = false) :
    Lawful { (s.emit [.lockClosed s.lockFile]) with
      handler := none, model := none, providerActive := false, stage := .down, lockFile := -1 } := by
  have hdelivered : (s.emit [.lockClosed s.lockFile]).delivered = s.delivered := by
    simp [OpcacheEvent.provider?]
  have hlocks : (s.emit [.lockClosed s.lockFile]).lockFiles =
      s.lockFiles ++ [.lockClosed s.lockFile] := lockFiles_emit s _
  constructor
  · obtain ⟨sessions, current, hlog, hsessions, hcurrent⟩ := h.seen
    rw [hactive] at hcurrent
    exact ⟨sessions, current, hdelivered.trans hlog, hsessions, hcurrent⟩
  · constructor
    · intro hexternal
      cases hexternal
    · intro htrue
      cases htrue
  · exact fun _ => rfl
  · obtain ⟨pending, hpending, hopen⟩ := h.locks
    have hsome : pending = some s.lockFile := by
      rw [hopen (by rw [hup]; decide)]
      simp [openLock, hup, hactive]
    refine ⟨none, ?_, fun _ => rfl⟩
    show OwnLocks none (s.emit [.lockClosed s.lockFile]).lockFiles
    rw [hlocks]
    exact (hsome ▸ hpending).closed
  · intro hup'
    cases hup'
  · exact fun e he => h.calls e (hdelivered ▸ he)
  · exact fun hfresh => hdelivered.trans (h.unregistered hfresh)

theorem Lawful.abortUnfinished (h : s.Lawful) : s.abortUnfinished.Lawful := by
  unfold Opcache.abortUnfinished
  split
  · exact h.providerStartupAborted _
  · exact h

/-- What the first step of the shutdown leaves alone. -/
theorem abortUnfinished_same (s : Opcache) : s.abortUnfinished.providerActive = s.providerActive ∧
    s.abortUnfinished.handler = s.handler ∧ s.abortUnfinished.stage = s.stage ∧
    s.abortUnfinished.lockFile = s.lockFile := by
  unfold abortUnfinished providerStartupAborted
  split
  · split <;> exact ⟨rfl, rfl, rfl, rfl⟩
  · exact ⟨rfl, rfl, rfl, rfl⟩

theorem abortUnfinished_finished (hactive : s.providerActive = true) :
    s.abortUnfinished.startupFinished = true := by
  unfold abortUnfinished providerStartupAborted
  cases hfinished : s.startupFinished <;> simp [hactive, hfinished]

theorem Lawful.sharedAllocShutdown (h : s.Lawful) (hup : s.stage = .up) (segments : Nat) :
    (s.sharedAllocShutdown segments).Lawful := by
  have haborted := h.abortUnfinished
  obtain ⟨hactive', hhandler', hstage', hlockFile'⟩ := abortUnfinished_same s
  rw [hup] at hstage'
  unfold Opcache.sharedAllocShutdown
  dsimp only
  cases hactive : s.providerActive with
  | true =>
      rw [hactive] at hactive'
      rw [if_pos (haborted.external.mpr hactive'), if_pos rfl, if_pos rfl]
      exact haborted.closed hstage' hactive' (abortUnfinished_finished hactive) segments
  | false =>
      rw [hactive] at hactive'
      have hinternal : s.abortUnfinished.handler ≠ some .external := by
        rw [Ne, haborted.external, hactive']
        exact Bool.false_ne_true
      rw [if_neg hinternal, if_neg Bool.false_ne_true, if_neg Bool.false_ne_true]
      have hpos : s.abortUnfinished.lockFile ≥ 0 := haborted.positive hstage' hactive'
      rw [if_pos hpos]
      exact haborted.unlocked hstage' hactive'

/-! ### Startup -/

theorem Lawful.steady (h : s.Lawful) (hdown : s.stage = .down) : s.Steady none := by
  obtain ⟨pending, hpending, hopen⟩ := h.locks
  have hnone : pending = none := by
    rw [hopen (by rw [hdown]; decide)]
    simp [openLock, hdown]
  exact ⟨h.seen, h.external, hnone ▸ hpending, h.calls, h.unregistered⟩

/-- A memory model works, and the lock file in use is the provider's or OPcache's own. -/
structure Settling (s : Opcache) (pending : Option Int) : Prop extends s.Steady pending where
  lock : pending = if s.providerActive = true then none else some s.lockFile
  positive : s.providerActive = false → 0 ≤ s.lockFile

theorem Settling.up {pending : Option Int} (h : s.Settling pending) (globals : UInt64) :
    Lawful { s with sharedGlobals := globals, stage := .up } where
  seen := h.seen
  external := h.external
  down := by
    intro hdown
    cases hdown
  locks := by
    refine ⟨pending, h.locks, fun _ => ?_⟩
    rw [h.lock]
    simp [openLock]
  positive := fun _ => h.positive
  calls := h.calls
  unregistered := h.unregistered

theorem Settling.startupGlobals {pending : Option Int} (h : s.Settling pending) (res : Int)
    (a : StartupAnswers) : (s.startupGlobals res a).Lawful := by
  unfold Opcache.startupGlobals
  split
  · exact h.up _
  · split
    · exact h.up _
    · split
      · exact h.toSteady.fatal
      · exact h.up _

/-- The provider's allocation was taken. -/
theorem Steady.activated (h : s.Steady none) (hidle : s.providerActive = false) {status : Int}
    (hregistered : s.providerRegistered = true) (hstatus : status ≠ allocFailure)
    (model : Option String) (reattached : UInt64) (lockFile : Int) :
    Settling { (s.deliver [.createSegments status]) with
      handler := some .external, model := model, reattachedGlobals := reattached,
      lockFile := lockFile, providerActive := true, startupFinished := false } none := by
  have hdelivered : (s.deliver [.createSegments status]).delivered =
      s.delivered ++ [.createSegments status] := delivered_deliver s _
  have hlocks : (s.deliver [.createSegments status]).lockFiles = s.lockFiles :=
    lockFiles_deliver s _
  refine ⟨⟨?_, ?_, ?_, ?_, ?_⟩, rfl, ?_⟩
  · obtain ⟨sessions, current, hlog, hsessions, hcurrent⟩ := h.seen
    rw [hidle] at hcurrent
    cases hcurrent
    refine ⟨sessions, [.createSegments status], ?_, hsessions, .unsettled hstatus (by simp)⟩
    refine hdelivered.trans ?_
    rw [hlog, List.append_nil]
  · exact ⟨fun _ => rfl, fun _ => rfl⟩
  · exact hlocks.symm ▸ h.locks
  · intro e he
    have hmem : e ∈ s.delivered ++ [.createSegments status] := hdelivered ▸ he
    rcases List.mem_append.mp hmem with hold | hnew
    · exact h.calls e hold
    · rw [List.mem_singleton.mp hnew]
      trivial
  · intro hfresh
    rw [show s.providerRegistered = false from hfresh] at hregistered
    cases hregistered
  · intro hfalse
    cases hfalse

/-- The provider's allocation came to nothing, and the provider was shut down. -/
theorem Steady.refused (h : s.Steady none) (hidle : s.providerActive = false)
    (hregistered : s.providerRegistered = true) (segments : Nat) (reattached : UInt64) :
    Steady { (((s.deliver [.createSegments allocFailure]).deliver
        (List.replicate segments .detachSegment)).deliver [.shutdown s.provider.shutdown]) with
      handler := none, model := none, reattachedGlobals := reattached } none := by
  have hdelivered : (((s.deliver [.createSegments allocFailure]).deliver
      (List.replicate segments .detachSegment)).deliver [.shutdown s.provider.shutdown]).delivered =
      s.delivered ++ (.createSegments allocFailure :: closing segments s.provider.shutdown) := by
    rw [delivered_deliver, delivered_deliver, delivered_deliver, List.append_assoc,
      List.append_assoc]
    rfl
  have hlocks : (((s.deliver [.createSegments allocFailure]).deliver
      (List.replicate segments .detachSegment)).deliver [.shutdown s.provider.shutdown]).lockFiles = s.lockFiles := by
    rw [lockFiles_deliver, lockFiles_deliver, lockFiles_deliver]
  refine ⟨?_, ?_, ?_, ?_, ?_⟩
  · obtain ⟨sessions, current, hlog, hsessions, hcurrent⟩ := h.seen
    rw [hidle] at hcurrent
    cases hcurrent
    refine ⟨sessions ++ [.createSegments allocFailure :: closing segments s.provider.shutdown], [],
      ?_, ?_, ?_⟩
    · refine hdelivered.trans ?_
      rw [hlog, List.flatten_concat, List.append_nil, List.append_nil]
    · intro l hl
      rcases List.mem_append.mp hl with hold | hnew
      · exact hsessions l hold
      · rw [List.mem_singleton.mp hnew]
        exact .refused segments s.provider.shutdown
    · show Current s.providerActive _ _
      rw [hidle]
      exact .idle _
  · constructor
    · intro hexternal
      cases hexternal
    · intro htrue
      rw [show s.providerActive = true from htrue] at hidle
      cases hidle
  · exact hlocks.symm ▸ h.locks
  · intro e he
    have hmem : e ∈ s.delivered ++
        (.createSegments allocFailure :: closing segments s.provider.shutdown) := hdelivered ▸ he
    rcases List.mem_append.mp hmem with hold | hnew
    · exact h.calls e hold
    · rcases List.mem_cons.mp hnew with rfl | hclosing
      · trivial
      · rcases List.mem_append.mp hclosing with hdetach | hshutdown
        · rw [(List.mem_replicate.mp hdetach).2]
          trivial
        · rw [List.mem_singleton.mp hshutdown]
          rfl
  · intro hfresh
    rw [show s.providerRegistered = false from hfresh] at hregistered
    cases hregistered

/-- OPcache's own lock file was created. -/
theorem Steady.locking (h : s.Steady none) (fd : Nat) :
    Steady { (s.emit [.lockCreated fd]) with lockFile := fd } (some fd) := by
  have hdelivered : (s.emit [.lockCreated fd]).delivered = s.delivered := by
    simp [OpcacheEvent.provider?]
  have hlocks : (s.emit [.lockCreated fd]).lockFiles = s.lockFiles ++ [.lockCreated fd] :=
    lockFiles_emit s _
  constructor
  · obtain ⟨sessions, current, hlog, hrest⟩ := h.seen
    exact ⟨sessions, current, hdelivered.trans hlog, hrest⟩
  · exact h.external
  · show OwnLocks (some fd) (s.emit [.lockCreated fd]).lockFiles
    rw [hlocks]
    exact .created fd h.locks
  · exact fun e he => h.calls e (hdelivered ▸ he)
  · exact fun hfresh => hdelivered.trans (h.unregistered hfresh)

/-- What the provider's part of the startup comes to: a working memory model, or a closed
session. -/
theorem Steady.startupProvider (h : s.Steady none) (hidle : s.providerActive = false)
    (hnone : s.handler = none) (sizeofSharedGlobals : UInt64) (a : StartupAnswers) :
    ((s.startupProvider sizeofSharedGlobals a).1.handler = some .external ∧
        (s.startupProvider sizeofSharedGlobals a).1.Settling none) ∨
      ((s.startupProvider sizeofSharedGlobals a).1.handler = none ∧
        (s.startupProvider sizeofSharedGlobals a).1.providerActive = false ∧
        (s.startupProvider sizeofSharedGlobals a).1.Steady none) := by
  unfold Opcache.startupProvider
  split
  · next hregistered =>
      unfold tryProvider
      dsimp only
      by_cases hres : (providerCreateSegments sizeofSharedGlobals a.allocated a.checkedLockFile).1 =
          allocFailure
      · rw [if_neg (not_not.mpr hres), if_neg (not_not.mpr rfl), hres, List.map_const']
        exact .inr ⟨rfl, hidle, h.refused hidle hregistered _ _⟩
      · rw [if_pos hres, if_pos hres]
        exact .inl ⟨rfl, h.activated hidle hregistered hres _ _ _⟩
  · exact .inr ⟨hnone, hidle, h⟩

theorem Lawful.sharedAllocStartup (h : s.Lawful) (hdown : s.stage = .down)
    (sizeofSharedGlobals : UInt64) (a : StartupAnswers) :
    (s.sharedAllocStartup sizeofSharedGlobals a).Lawful := by
  have hentered : Lawful { (s.emit [.startup]) with started := true } := by
    have hquiet : (s.emit [.startup]).Lawful := h.quiet rfl rfl
    exact ⟨hquiet.seen, hquiet.external, hquiet.down, hquiet.locks, hquiet.positive, hquiet.calls,
      hquiet.unregistered⟩
  have hidle : s.providerActive = false := h.not_active_of_down hdown
  have htried := (hentered.steady hdown).startupProvider hidle (h.down hdown) sizeofSharedGlobals a
  unfold Opcache.sharedAllocStartup
  dsimp only
  generalize Opcache.startupProvider sizeofSharedGlobals { (s.emit [.startup]) with started := true }
    a = tried at htried ⊢
  obtain ⟨s', res⟩ := tried
  unfold startupBuiltin
  rcases htried with ⟨hexternal, hsettling⟩ | ⟨hnone, hidle', hsteady⟩
  · simp only at hexternal hsettling ⊢
    rw [hexternal]
    exact hsettling.startupGlobals res a
  · simp only at hnone hidle' hsteady ⊢
    rw [hnone]
    cases a.createdLock with
    | none => exact hsteady.fatal
    | some fd =>
        have hlocked := hsteady.locking fd
        cases a.builtin with
        | none => exact hlocked.fatal
        | some built =>
            have hsettling : Settling { (s'.emit [.lockCreated fd]) with
                lockFile := fd, handler := some .builtin, model := some built.model } (some fd) := by
              refine ⟨⟨hlocked.seen, ?_, hlocked.locks, hlocked.calls, hlocked.unregistered⟩, ?_, ?_⟩
              · constructor
                · intro hexternal
                  cases hexternal
                · intro htrue
                  rw [show s'.providerActive = true from htrue] at hidle'
                  cases hidle'
              · show some (fd : Int) = if s'.providerActive = true then none else some (fd : Int)
                rw [hidle', if_neg Bool.false_ne_true]
              · exact fun _ => Int.natCast_nonneg fd
            exact hsettling.startupGlobals built.status a

theorem Lawful.step (h : s.Lawful) (sizeofSharedGlobals : UInt64) {call : OpcacheCall}
    (hpermitted : s.Permitted call) : (s.step sizeofSharedGlobals call).Lawful := by
  cases call with
  | register provider => exact h.register provider
  | startup a => exact h.sharedAllocStartup hpermitted.2 sizeofSharedGlobals a
  | startupComplete reattached => exact h.providerStartupComplete reattached
  | startupAborted reason => exact h.providerStartupAborted reason
  | lock granted => exact h.sharedAllocLock granted
  | unlock granted => exact h.sharedAllocUnlock granted
  | shutdown segments => exact h.sharedAllocShutdown hpermitted.2 segments

theorem Reachable.lawful {sizeofSharedGlobals : UInt64} (h : Reachable sizeofSharedGlobals s) :
    s.Lawful := by
  refine Execution.Reachable.invariant (I := Lawful) ?_ ?_ h
  · rintro s rfl
    exact lawful_start
  · rintro s call s' hs ⟨hpermitted, rfl⟩
    exact hs.step sizeofSharedGlobals hpermitted

end Opcache

end Hyperglyph
