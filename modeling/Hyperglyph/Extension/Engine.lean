import Hyperglyph.Client.Fallback
import Hyperglyph.Provider.Registration

/-! `abyssal_hyperglyph_engine.c` as a Zend extension: the message with which it finds OPcache,
its startup, and what PHP does with the shared objects of its extensions meanwhile. -/
namespace Hyperglyph

def opcacheName : String := "Zend OPcache"
def addrNoRandomize : UInt32 := 0x0040000
def zendExtmsgNewExtension : Int := 1

/-- An entry of `zend_extensions`. One that is linked statically has no handle. -/
structure ZendExtension where
  name : String
  handle : Option Nat
  deriving DecidableEq

/-- What the launcher hands on: the personality, and the variables that are read at startup. -/
structure PhpProcess where
  personality : UInt32
  personalityReadable : Bool
  expectNoAslr : Bool
  brokerSocket : Option Text
  deriving DecidableEq

namespace PhpProcess

/-- `personality(0xffffffff)`; `none` is the return value -1. -/
def currentPersonality (p : PhpProcess) : Option UInt32 :=
  if p.personalityReadable ∧ p.personality ≠ 0xffffffff then some p.personality else none

def brokerSocketSet (p : PhpProcess) : Bool := p.brokerSocket.any fun t => t.bytes ≠ []

/-- `ahe_verify_aslr_contract`. -/
def verifyAslrContract (p : PhpProcess) : Bool :=
  if !p.expectNoAslr && !p.brokerSocketSet then true
  else
    match p.currentPersonality with
    | some current => current &&& addrNoRandomize != 0
    | none => false

/-- The process runs at fixed addresses, and says so. -/
def aslrDisabled (p : PhpProcess) : Bool :=
  p.currentPersonality.any fun current => current &&& addrNoRandomize != 0

end PhpProcess

/-- The table the extension registers. -/
def aheOpcacheProvider : ShmProviderV2 where
  abiVersion := shmProviderAbiV2
  structSize := sizeofShmProviderV2
  name := some "abyssal-hyperglyph-engine"
  createSegments := true
  detachSegment := true
  segmentTypeSize := some sizeofSharedSegment
  getLockFile := true
  lock := true
  unlock := true
  startupComplete := true
  startupAborted := true
  shutdown := true

/-- PHP's module startup, its life afterwards, and the end of the extensions. -/
inductive EngineStage
  | loading | started | destroyed
  deriving DecidableEq

/-- The static variables of the extension, and around them the list of extensions, the shared
objects opened for it and unloaded again, and OPcache. -/
structure Engine where
  opcacheSeen : Bool
  opcacheProviderRegistered : Bool
  opcacheProviderEnabled : Bool
  extensions : List ZendExtension
  opened : List Nat
  unloaded : List Nat
  opcache : Opcache
  warnings : List String
  stage : EngineStage

namespace Engine

def start : Engine where
  opcacheSeen := false
  opcacheProviderRegistered := false
  opcacheProviderEnabled := false
  extensions := []
  opened := []
  unloaded := []
  opcache := .start
  warnings := []
  stage := .loading

/-- `zend_error(E_CORE_WARNING, "%s: ...", AHE_NAME)`. -/
def warn (s : Engine) (text : String) : Engine :=
  { s with warnings := s.warnings ++ [aheName ++ ": " ++ text] }

def opcacheIsLoaded (s : Engine) : Bool := s.extensions.any fun e => e.name = opcacheName

/-- `ahe_message_handler`. `exported` says whether the shared object has the symbol of the
registration function. -/
def messageHandler (s : Engine) (message : Int) (arg : Option ZendExtension) (exported : Bool) :
    Engine :=
  match arg with
  | none => s
  | some loaded =>
      if message ≠ zendExtmsgNewExtension then s
      else if loaded.name ≠ opcacheName then s
      else
        let s := { s with opcacheSeen := true }
        if loaded.handle.isNone then s
        else if !exported then s
        else
          let refused := s.opcache.registrationRefused (some aheOpcacheProvider)
          let s := { s with opcache := s.opcache.register (some aheOpcacheProvider) }
          if refused then s else { s with opcacheProviderRegistered := true }

/-- `zend_extension_dispatch_message`: the extension hears of what is loaded after it. -/
def dispatchMessage (s : Engine) (e : ZendExtension) (exported : Bool) : Engine :=
  if s.extensions.any fun e => e.name = aheName then
    s.messageHandler zendExtmsgNewExtension (some e) exported
  else s

/-- `zend_register_extension`. -/
def load (s : Engine) (e : ZendExtension) (exported : Bool) : Engine :=
  let s := s.dispatchMessage e exported
  { s with extensions := s.extensions ++ [e], opened := s.opened ++ e.handle.toList }

/-- `extension->handle = NULL`. -/
def clearHandle (s : Engine) : Engine :=
  { s with
    extensions := s.extensions.map fun e => if e.name = aheName then { e with handle := none } else e }

/-- `ahe_startup`; the flag is `SUCCESS`. -/
def startup (p : PhpProcess) (s : Engine) : Engine × Bool :=
  if (s.opcacheSeen || s.opcacheIsLoaded) && !s.opcacheProviderRegistered then
    (s.warn "Zend OPcache does not expose the shared-memory provider ABI", false)
  else
    let s := if s.opcacheProviderRegistered then s.clearHandle else s
    if !p.verifyAslrContract then (s.warn "the launcher did not disable ASLR", false)
    else ({ s with opcacheProviderEnabled := true }, true)

/-- An extension whose startup failed leaves the list, and its shared object is unloaded. -/
def remove (s : Engine) (name : String) : Engine :=
  { s with
    extensions := s.extensions.filter fun e => e.name ≠ name
    unloaded := s.unloaded ++ (s.extensions.filter fun e => e.name = name).filterMap (·.handle) }

/-- The startup of one extension; `starts` says which of the others succeed. -/
def startOne (p : PhpProcess) (starts : String → Bool) (s : Engine) (name : String) : Engine :=
  let (s, succeeded) := if name = aheName then s.startup p else (s, starts name)
  if succeeded then s else s.remove name

/-- `zend_startup_extensions`. -/
def startExtensions (p : PhpProcess) (starts : String → Bool) (s : Engine) : Engine :=
  { (s.extensions.map (·.name)).foldl (startOne p starts) s with stage := .started }

/-- The end of the list of extensions. -/
def destroyExtensions (s : Engine) : Engine :=
  { s with
    extensions := [], unloaded := s.unloaded ++ s.extensions.filterMap (·.handle), stage := .destroyed }

inductive Label
  | load (e : ZendExtension) (exported : Bool)
  | startExtensions (starts : String → Bool)
  | opcache (call : OpcacheCall)
  | destroyExtensions

def step (p : PhpProcess) (sizeofSharedGlobals : UInt64) (s : Engine) : Label → Engine
  | .load e exported => s.load e exported
  | .startExtensions starts => s.startExtensions p starts
  | .opcache call => { s with opcache := s.opcache.step sizeofSharedGlobals call }
  | .destroyExtensions => s.destroyExtensions

/-- What PHP guarantees: no extension is loaded twice, and the handle `ours` is that of this
extension; the extensions are loaded, then started, then left; OPcache allocates no memory
before they are started, and then goes on to the end. Other extensions may register
providers too, but not this one. -/
def Permitted (ours : Nat) (s : Engine) : Label → Prop
  | .load e _ => s.stage = .loading ∧ (∀ e' ∈ s.extensions, e'.name ≠ e.name) ∧
      (∀ h, e.handle = some h → h ∉ s.opened) ∧ (e.name = aheName ↔ e.handle = some ours)
  | .startExtensions _ => s.stage = .loading
  | .opcache call => Opcache.Permitted s.opcache call ∧
      match call with
      | .register provider => provider ≠ some aheOpcacheProvider
      | _ => s.stage ≠ .loading
  | .destroyExtensions => s.stage = .started

def Step (p : PhpProcess) (sizeofSharedGlobals : UInt64) (s : Engine) (label : Label)
    (s' : Engine) : Prop := s' = s.step p sizeofSharedGlobals label

def Reachable (p : PhpProcess) (sizeofSharedGlobals : UInt64) (ours : Nat) (s : Engine) : Prop :=
  Execution.Reachable (Execution.Guarded (Step p sizeofSharedGlobals) (Permitted ours))
    (· = start) s

end Engine

end Hyperglyph
