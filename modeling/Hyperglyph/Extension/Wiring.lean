import Hyperglyph.Extension.Engine
import Hyperglyph.Provider.Allocation

/-! OPcache and the extension in one process. What the callbacks answer is what
`abyssal_hyperglyph_engine.c` and the broker client compute, and the descriptors of both stand in
one table. -/
namespace Hyperglyph

open DescriptorTable Process

/-- `segment` is what the shared globals list; an attached process finds there what the creator put
down, a segment of the same size at the same address. -/
structure Wired where
  process : Process
  broker : BrokerClient
  opcache : Opcache
  segment : Option ShmSegment
  warnings : List String

/-- What happens around a call of `zend_shared_alloc_startup`. OPcache's own lock file is whatever
descriptor `zend_shared_alloc_create_lock` obtains. -/
structure WiredStartup where
  environment : Environment
  connection : ConnId
  requestedSize : UInt64
  acquire : AcquireAnswers
  cleanedUp : Bool
  farewell : ExchangeAnswers
  unmapped : Bool
  lockFile : Option (Nat × Object)
  builtin : Option BuiltinAllocation
  globals : Option UInt64

/-- What happens around a call of `zend_shared_alloc_shutdown`. -/
structure WiredShutdown where
  abort : ExchangeAnswers
  copy : UInt64
  detached : Bool
  farewell : ExchangeAnswers
  unmapped : Bool

inductive WiredCall
  | register (provider : Option ShmProviderV2)
  | startup (a : WiredStartup)
  | startupComplete (reattached : Bool) (publish abort : ExchangeAnswers)
  | startupAborted (reason : String) (abort : ExchangeAnswers)
  | lock (answer : LockType → LockCommand → Bool)
  | unlock (answer : LockType → LockCommand → Bool)
  | shutdown (a : WiredShutdown)
  | elsewhere (fds : DescriptorTable Object)

/-- `zend_shared_alloc_create_lock`. -/
def Process.openLock (p : Process) (answer : Option (Nat × Object)) : Process × Option Nat :=
  match answer with
  | some (n, o) =>
      if p.fds.Free n then
        ({ p with fds := p.fds.install n o, log := p.log ++ [.opened o] }, some n)
      else (p, none)
  | none => (p, none)

/-- The segments are detached as far as they are mapped, and the block is freed. -/
def cleanUpSegments (p : Process) (broker : BrokerClient) (unmapped : Bool) :
    Option SharedSegments → Process × BrokerClient
  | none => (p, broker)
  | some block =>
      let detached :=
        if block.segment.p ≠ 0 ∧ block.segment.p ≠ mapFailed then
          let r := brokerClientDetach p broker (block.allocation + sizeofPointer) block.segment
            unmapped
          (r.1, r.2.1)
        else (p, broker)
      (detached.1.free block.allocation, detached.2)

/-- The shared globals list at most one segment of the provider. -/
def detachSegment (p : Process) (broker : BrokerClient) (copy : UInt64) (unmapped : Bool) :
    Option ShmSegment → Process × BrokerClient
  | none => (p, broker)
  | some segment =>
      let r := brokerClientDetach p broker copy segment unmapped
      (r.1, r.2.1)

/-- The block is freed once the segment was copied to the shared globals. -/
def freeSegments (p : Process) : Option SharedSegments → Process
  | none => p
  | some block => p.free block.allocation

def abandonedText : String :=
  aheName ++ ": persistence was abandoned because the OPcache generation could not be published"

namespace Wired

/-- A PHP without the extension. -/
def bare (fds : DescriptorTable Object) : Wired where
  process := ⟨fds, []⟩
  broker := .initializer
  opcache := .start
  segment := none
  warnings := []

/-- The extension has registered its provider, and nothing was allocated. -/
def start (fds : DescriptorTable Object) : Wired where
  process := ⟨fds, []⟩
  broker := .initializer
  opcache := Opcache.start.register (some aheOpcacheProvider)
  segment := none
  warnings := []

section Calls

variable (sizeofSharedGlobals : UInt64) (s : Wired)

def created (a : WiredStartup) : CreateResult :=
  createSegments a.environment s.process s.broker a.connection a.requestedSize a.acquire

/-- What OPcache's wrapper makes of the allocation. -/
def verdict (a : WiredStartup) : Int :=
  (providerCreateSegments sizeofSharedGlobals
    (providerResult (s.created a).outputs (s.created a).status) (s.created a).broker.lockFd).1

/-- `ahe_create_segments` and `ahe_get_lock_file`, as OPcache sees them. -/
def startupAnswers (a : WiredStartup) (createdLock : Option Nat) : StartupAnswers where
  allocated := providerResult (s.created a).outputs (s.created a).status
  checkedLockFile := (s.created a).broker.lockFd
  lockFile := (s.created a).broker.lockFd
  createdLock := createdLock
  builtin := a.builtin
  globals := a.globals

/-- `zend_shared_alloc_startup` without a provider. -/
def startupAlone (a : WiredStartup) : Wired :=
  let locked := s.process.openLock a.lockFile
  { s with
    process := locked.1
    opcache := s.opcache.sharedAllocStartup sizeofSharedGlobals (s.startupAnswers a locked.2)
    segment := none }

/-- `zend_shared_alloc_startup` with the extension's provider. -/
def startupExternal (a : WiredStartup) : Wired :=
  let created := s.created a
  let warnings := s.warnings ++ created.warning.toList
  if s.verdict sizeofSharedGlobals a = allocFailure then
    let cleaned := cleanUpSegments created.process created.broker a.cleanedUp
      created.outputs.sharedSegments
    let left := brokerClientShutdown cleaned.1 cleaned.2 a.farewell a.unmapped
    let locked := left.1.openLock a.lockFile
    { process := locked.1
      broker := left.2
      opcache := s.opcache.sharedAllocStartup sizeofSharedGlobals (s.startupAnswers a locked.2)
      segment := none
      warnings := warnings }
  else
    let copied := s.verdict sizeofSharedGlobals a ≠ successfullyReattached ∧ a.globals ≠ none
    { process :=
        if copied then freeSegments created.process created.outputs.sharedSegments
        else created.process
      broker := created.broker
      opcache := s.opcache.sharedAllocStartup sizeofSharedGlobals (s.startupAnswers a none)
      segment := created.outputs.sharedSegments.map SharedSegments.segment
      warnings := warnings }

/-- `zend_shared_alloc_startup`. -/
def startup (a : WiredStartup) : Wired :=
  if s.opcache.providerRegistered then s.startupExternal sizeofSharedGlobals a
  else s.startupAlone sizeofSharedGlobals a

/-- The provider hears of the end of the startup. -/
def notifies : Bool := s.opcache.providerActive && !s.opcache.startupFinished

/-- `zend_shared_alloc_provider_startup_complete`. -/
def providerStartupComplete (reattached : Bool) (publish abort : ExchangeAnswers) : Wired :=
  let opcache := s.opcache.providerStartupComplete reattached
  if s.notifies then
    let r := Hyperglyph.startupComplete s.process s.broker reattached s.opcache.sharedGlobals
      publish abort
    { s with
      process := r.1, broker := r.2.1, opcache := opcache
      warnings := if r.2.2 then s.warnings ++ [abandonedText] else s.warnings }
  else { s with opcache := opcache }

/-- `zend_shared_alloc_provider_startup_aborted`. -/
def providerStartupAborted (reason : String) (abort : ExchangeAnswers) : Wired :=
  { s with
    process := if s.notifies then brokerClientAbort s.process s.broker abort else s.process
    opcache := s.opcache.providerStartupAborted reason }

/-- `zend_shared_alloc_lock`. -/
def lock (answer : LockType → LockCommand → Bool) : Wired :=
  let r :=
    if s.opcache.providerActive then brokerClientLock s.process s.broker answer
    else s.process.fcntl s.opcache.lockFile (answer .write .setLockWait)
  { s with process := r.1, opcache := s.opcache.sharedAllocLock r.2 }

/-- `zend_shared_alloc_unlock`. -/
def unlock (answer : LockType → LockCommand → Bool) : Wired :=
  let r :=
    if s.opcache.providerActive then brokerClientUnlock s.process s.broker answer
    else s.process.fcntl s.opcache.lockFile (answer .unlock .setLock)
  { s with process := r.1, opcache := s.opcache.sharedAllocUnlock r.2 }

/-- `zend_shared_alloc_shutdown`. -/
def sharedAllocShutdown (a : WiredShutdown) : Wired :=
  let opcache := s.opcache.sharedAllocShutdown s.segment.toList.length
  if s.opcache.providerActive then
    let process := if s.notifies then brokerClientAbort s.process s.broker a.abort else s.process
    let detached := detachSegment process s.broker a.copy a.detached s.segment
    let left := brokerClientShutdown detached.1 detached.2 a.farewell a.unmapped
    { s with process := left.1, broker := left.2, opcache := opcache, segment := none }
  else
    { s with
      process := closeSlot s.process s.opcache.lockFile, opcache := opcache, segment := none }

def step : WiredCall → Wired
  | .register provider => { s with opcache := s.opcache.register provider }
  | .startup a => s.startup sizeofSharedGlobals a
  | .startupComplete reattached publish abort => s.providerStartupComplete reattached publish abort
  | .startupAborted reason abort => s.providerStartupAborted reason abort
  | .lock answer => s.lock answer
  | .unlock answer => s.unlock answer
  | .shutdown a => s.sharedAllocShutdown a
  | .elsewhere fds => { s with process := { s.process with fds } }

end Calls

/-- OPcache's own lock file; what a provider gave it is not its own. -/
def ownLock (s : Wired) : Fd := if s.opcache.providerActive then -1 else s.opcache.lockFile

/-- The rest of the process leaves their descriptors alone. -/
def LeavesAlone (s : Wired) (fds : DescriptorTable Object) : Prop :=
  ∀ fd ∈ [s.broker.cacheFd, s.broker.lockFd, s.broker.socketFd, s.ownLock],
    fds.get fd = s.process.fds.get fd

/-- OPcache starts when it is down, locks and ends when it is up, and does nothing after a fatal
error; the kernel delivers what it can. -/
def Permitted (s : Wired) (call : WiredCall) : Prop :=
  s.opcache.stage ≠ .ended ∧
    match call with
    | .register _ => True
    | .startup a => s.opcache.stage = .down ∧ Deliverable a.acquire.reply ∧
        Deliverable a.farewell.reply
    | .startupComplete _ publish abort => Deliverable publish.reply ∧ Deliverable abort.reply
    | .startupAborted _ abort => Deliverable abort.reply
    | .lock _ | .unlock _ => s.opcache.stage = .up
    | .shutdown a => s.opcache.stage = .up ∧ Deliverable a.abort.reply ∧
        Deliverable a.farewell.reply
    | .elsewhere fds => s.LeavesAlone fds

def Step (sizeofSharedGlobals : UInt64) (s : Wired) (call : WiredCall) (s' : Wired) : Prop :=
  s' = s.step sizeofSharedGlobals call

def Reachable (sizeofSharedGlobals : UInt64) (s : Wired) : Prop :=
  Execution.Reachable (Execution.Guarded (Step sizeofSharedGlobals) Permitted)
    (fun s => ∃ fds, s = start fds) s

end Wired

end Hyperglyph
