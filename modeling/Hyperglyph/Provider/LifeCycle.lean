import Hyperglyph.Library.Execution
import Hyperglyph.Provider.Segments

/-! The provider's life in the patched `zend_shared_alloc.c`: registration, startup, the two
notifications about it, locking and shutdown. What OPcache does between these calls is not
modelled; a call that does not return ends the run. -/
namespace Hyperglyph

/-- `zend_opcache_shm_provider_v2`: the callbacks that are set, and for `segment_type_size`
what it returns. -/
structure ShmProviderV2 where
  abiVersion : UInt32
  structSize : UInt32
  name : Option String
  createSegments : Bool
  detachSegment : Bool
  segmentTypeSize : Option UInt64
  getLockFile : Bool
  lock : Bool
  unlock : Bool
  startupComplete : Bool
  startupAborted : Bool
  shutdown : Bool
  deriving DecidableEq

/-- The static variable before anything was registered. -/
def ShmProviderV2.zero : ShmProviderV2 where
  abiVersion := 0
  structSize := 0
  name := none
  createSegments := false
  detachSegment := false
  segmentTypeSize := none
  getLockFile := false
  lock := false
  unlock := false
  startupComplete := false
  startupAborted := false
  shutdown := false

def shmProviderAbiV2 : UInt32 := 2
def sizeofShmProviderV2 : UInt32 := 96
def sizeofSharedSegment : UInt64 := 32
def allocFallback : Int := 9

/-- What the provider is called for. A notification whose callback is not set is recorded as
not `called`. -/
inductive ProviderEvent
  | createSegments (status : Int)
  | detachSegment
  | lock (granted : Bool)
  | unlock (granted : Bool)
  | startupComplete (called reattached : Bool) (sharedGlobals : UInt64)
  | startupAborted (called : Bool) (reason : String)
  | shutdown (called : Bool)
  deriving DecidableEq

inductive OpcacheEvent
  | registration (accepted : Bool)
  | startup
  | provider (e : ProviderEvent)
  | lockCreated (fd : Int)
  | lockClosed (fd : Int)
  deriving DecidableEq

/-- What the caller of the functions may do next: shutdown belongs to a startup that worked,
and after a fatal error nothing happens. -/
inductive OpcacheStage
  | down | up | ended
  deriving DecidableEq

inductive ShmHandler
  | external | builtin
  deriving DecidableEq

/-- The static variables of `zend_shared_alloc.c`, and what was called so far. -/
structure Opcache where
  provider : ShmProviderV2
  providerRegistered : Bool
  providerActive : Bool
  startupFinished : Bool
  started : Bool
  handler : Option ShmHandler
  model : Option String
  reattachedGlobals : UInt64
  sharedGlobals : UInt64
  lockFile : Int
  locked : Bool
  stage : OpcacheStage
  log : List OpcacheEvent

/-- A built-in memory model that works. -/
structure BuiltinAllocation where
  model : String
  status : Int
  status_ne : status ≠ allocFailure

/-- Without `globals` the segment has no room for OPcache's own tables. -/
structure StartupAnswers where
  allocated : ProviderResult
  checkedLockFile : Int
  lockFile : Int
  createdLock : Option Nat
  builtin : Option BuiltinAllocation
  globals : Option UInt64

inductive OpcacheCall
  | register (provider : Option ShmProviderV2)
  | startup (a : StartupAnswers)
  | startupComplete (reattached : Bool)
  | startupAborted (reason : String)
  | lock (granted : Bool)
  | unlock (granted : Bool)
  | shutdown (segments : Nat)

namespace Opcache

def start : Opcache where
  provider := .zero
  providerRegistered := false
  providerActive := false
  startupFinished := false
  started := false
  handler := none
  model := none
  reattachedGlobals := 0
  sharedGlobals := 0
  lockFile := -1
  locked := false
  stage := .down
  log := []

def emit (s : Opcache) (events : List OpcacheEvent) : Opcache := { s with log := s.log ++ events }

/-- Calls of the provider. -/
def deliver (s : Opcache) (events : List ProviderEvent) : Opcache :=
  s.emit (events.map OpcacheEvent.provider)

/-- `zend_accel_error_noreturn` and `no_memory_bailout`. -/
def fatal (s : Opcache) : Opcache := { s with stage := .ended }

/-- The condition of `zend_opcache_register_shared_memory_provider_v2`. -/
def registrationRefused (s : Opcache) : Option ShmProviderV2 → Bool
  | none => true
  | some provider =>
      s.started || s.providerRegistered || provider.abiVersion != shmProviderAbiV2
        || decide (provider.structSize < sizeofShmProviderV2)
        || (provider.name.getD "").isEmpty
        || !provider.createSegments || !provider.detachSegment
        || provider.segmentTypeSize.isNone || !provider.getLockFile
        || !provider.lock || !provider.unlock
        || decide (provider.segmentTypeSize.getD 0 < sizeofSharedSegment)

def register (s : Opcache) (provider : Option ShmProviderV2) : Opcache :=
  if s.registrationRefused provider then s.emit [.registration false]
  else
    { (s.emit [.registration true]) with
      provider := provider.getD .zero, providerRegistered := true }

/-- The segments the cleanup of `zend_shared_alloc_try` detaches. -/
def mappedSegments (shared : Option SegmentArray) : List ShmSegment :=
  (shared.elim [] (·.entries.filterMap id)).filter fun segment =>
    segment.p != 0 && segment.p != mapFailed

/-- `zend_shared_alloc_try` of the provider. -/
def tryProvider (sizeofSharedGlobals : UInt64) (s : Opcache) (a : StartupAnswers) : Opcache × Int :=
  let res := (providerCreateSegments sizeofSharedGlobals a.allocated a.checkedLockFile).1
  let s := { (s.deliver [.createSegments res]) with
    handler := some .external
    model := s.provider.name
    reattachedGlobals := a.allocated.reattachedSharedGlobals }
  if res ≠ allocFailure then (s, res)
  else
    let detached := (mappedSegments a.allocated.sharedSegments).map
      fun _ => ProviderEvent.detachSegment
    ({ (s.deliver detached) with handler := none, model := none }, allocFailure)

/-- The provider's part of `zend_shared_alloc_startup`. -/
def startupProvider (sizeofSharedGlobals : UInt64) (s : Opcache) (a : StartupAnswers) :
    Opcache × Int :=
  if s.providerRegistered then
    let (s, res) := s.tryProvider sizeofSharedGlobals a
    if res ≠ allocFailure then
      ({ s with lockFile := a.lockFile, providerActive := true, startupFinished := false }, res)
    else (s.deliver [.shutdown s.provider.shutdown], res)
  else (s, allocFailure)

/-- The built-in memory models, which are tried when the provider did not work. `none` is a
fatal error. -/
def startupBuiltin (s : Opcache) (res : Int) (a : StartupAnswers) : Opcache × Option Int :=
  match s.handler with
  | some _ => (s, some res)
  | none =>
      match a.createdLock with
      | none => (s, none)
      | some fd =>
          let s := { (s.emit [.lockCreated fd]) with lockFile := fd }
          match a.builtin with
          | none => (s, none)
          | some built =>
              ({ s with handler := some .builtin, model := some built.model }, some built.status)

/-- The rest of `zend_shared_alloc_startup`, once a memory model works. -/
def startupGlobals (s : Opcache) (res : Int) (a : StartupAnswers) : Opcache :=
  if res = successfullyReattached then
    { s with sharedGlobals := s.reattachedGlobals, stage := .up }
  else if res = allocFallback then { s with sharedGlobals := 0, stage := .up }
  else
    match a.globals with
    | none => s.fatal
    | some globals => { s with sharedGlobals := globals, stage := .up }

/-- `zend_shared_alloc_startup`. -/
def sharedAllocStartup (sizeofSharedGlobals : UInt64) (s : Opcache) (a : StartupAnswers) : Opcache :=
  let s := { (s.emit [.startup]) with started := true }
  let (s, res) := s.startupProvider sizeofSharedGlobals a
  match s.startupBuiltin res a with
  | (s, none) => s.fatal
  | (s, some res) => s.startupGlobals res a

/-- `zend_shared_alloc_provider_startup_complete`. -/
def providerStartupComplete (s : Opcache) (reattached : Bool) : Opcache :=
  if !s.providerActive || s.startupFinished then s
  else
    { (s.deliver [.startupComplete s.provider.startupComplete reattached s.sharedGlobals]) with
      startupFinished := true }

/-- `zend_shared_alloc_provider_startup_aborted`. -/
def providerStartupAborted (s : Opcache) (reason : String) : Opcache :=
  if !s.providerActive || s.startupFinished then s
  else
    { (s.deliver [.startupAborted s.provider.startupAborted reason]) with
      startupFinished := true }

/-- `zend_shared_alloc_lock`. -/
def sharedAllocLock (s : Opcache) (granted : Bool) : Opcache :=
  let s := if s.providerActive then s.deliver [.lock granted] else s
  if granted then { s with locked := true } else s.fatal

/-- `zend_shared_alloc_unlock`. -/
def sharedAllocUnlock (s : Opcache) (granted : Bool) : Opcache :=
  let s := { s with locked := false }
  let s := if s.providerActive then s.deliver [.unlock granted] else s
  if granted then s else s.fatal

/-- The first step of `zend_shared_alloc_shutdown`. -/
def abortUnfinished (s : Opcache) : Opcache :=
  if s.providerActive && !s.startupFinished then
    s.providerStartupAborted "OPcache shut down before shared-memory startup completed"
  else s

/-- `zend_shared_alloc_shutdown`, with the number of segments in the shared globals. -/
def sharedAllocShutdown (s : Opcache) (segments : Nat) : Opcache :=
  let providerActive := s.providerActive
  let s := s.abortUnfinished
  let s :=
    if s.handler = some .external then s.deliver (List.replicate segments .detachSegment) else s
  let s := { s with handler := none, model := none }
  let s := if providerActive then s.deliver [.shutdown s.provider.shutdown] else s
  let s := { s with providerActive := false, stage := .down }
  if providerActive then { s with lockFile := -1 }
  else if s.lockFile ≥ 0 then { (s.emit [.lockClosed s.lockFile]) with lockFile := -1 }
  else s

def step (sizeofSharedGlobals : UInt64) (s : Opcache) : OpcacheCall → Opcache
  | .register provider => s.register provider
  | .startup a => s.sharedAllocStartup sizeofSharedGlobals a
  | .startupComplete reattached => s.providerStartupComplete reattached
  | .startupAborted reason => s.providerStartupAborted reason
  | .lock granted => s.sharedAllocLock granted
  | .unlock granted => s.sharedAllocUnlock granted
  | .shutdown segments => s.sharedAllocShutdown segments

/-- What OPcache guarantees of its calls. -/
def Permitted (s : Opcache) (call : OpcacheCall) : Prop :=
  s.stage ≠ .ended ∧
    match call with
    | .startup _ => s.stage = .down
    | .shutdown _ => s.stage = .up
    | _ => True

def Step (sizeofSharedGlobals : UInt64) (s : Opcache) (call : OpcacheCall) (s' : Opcache) : Prop :=
  s' = s.step sizeofSharedGlobals call

/-- The states of OPcache after some permitted calls. -/
def Reachable (sizeofSharedGlobals : UInt64) (s : Opcache) : Prop :=
  Execution.Reachable (Execution.Guarded (Step sizeofSharedGlobals) Permitted) (· = start) s

end Opcache

end Hyperglyph
