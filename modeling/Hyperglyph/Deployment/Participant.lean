import Hyperglyph.Client.BrokerClient
import Hyperglyph.Client.CacheKey
import Hyperglyph.Deployment.Channel

/-! One PHP process and its use of the client: `ahe_create_segments`, then at most one of the
startup hooks, then `ahe_detach_segment` and `ahe_provider_shutdown`. Each step is one
exchange with the socket and the code up to the next one. -/
namespace Hyperglyph

/-- What is fixed when the process starts. -/
structure Config where
  environment : Environment
  requestedSize : UInt64

def Config.key (config : Config) : Except (Option String) (List UInt8 × List UInt8) :=
  config.environment.createCacheKey config.requestedSize

/-- Where the process stands. In the states whose name begins with `await` it is inside
`recvmsg`. -/
inductive ParticipantPc
  | idle
  | connected
  | awaitAllocation
  | running
  | awaitPublication (sharedGlobals : UInt64)
  | abortDue
  | awaitAbort
  | settled
  | awaitDetach
  | ended
  deriving DecidableEq

structure Participant where
  process : Process
  client : BrokerClient
  outputs : Outputs
  pc : ParticipantPc

/-- What `ahe_broker_client_acquire` returned, and the objects its descriptors named then. -/
structure Acquisition where
  status : ShmStatus
  client : BrokerClient
  outputs : Outputs
  cache : Option Object
  lock : Option Object
  deriving DecidableEq

/-- The client when `ahe_broker_client_publish` returned zero. -/
structure Publication where
  sharedGlobals : UInt64
  client : BrokerClient
  cache : Option Object
  lock : Option Object
  deriving DecidableEq

inductive Happening
  | acquired (c : ConnId) (acquisition : Acquisition)
  | startupComplete (c : ConnId) (sharedGlobals : UInt64)
  | sent (c : ConnId) (message : MessageV1)
  | published (c : ConnId) (publication : Publication)
  | abandoned (c : ConnId)
  deriving DecidableEq

inductive Act
  | createSegments (a : ConnectAnswers)
  | sendAcquire (answer : Except Errno Unit)
  | receiveAllocation (delivery : Delivery) (a : MapAnswers)
  | startupComplete (reattached : Bool) (sharedGlobals : UInt64) (answer : Except Errno Unit)
  | receivePublication (delivery : Delivery)
  | startupAborted
  | sendAbort (answer : Except Errno Unit)
  | receiveAbort (delivery : Delivery)
  | detach (address : UInt64) (segment : ShmSegment) (unmapped : Bool)
  | shutdown (answer : Except Errno Unit) (unmapped : Bool)
  | receiveDetach (delivery : Delivery) (unmapped : Bool)
  | crash

namespace Participant

def start : Participant := ⟨.start, .initializer, .cleared, .idle⟩

abbrev Outcome := Participant × Channel × List Happening

/-- Nothing happens: the act does not belong to this state. -/
def stay (x : Participant) (ch : Channel) : Outcome := (x, ch, [])

/-- The process closed its socket, or is gone. -/
def finish (x : Participant) (ch : Channel) (happened : List Happening) : Outcome :=
  ({ x with pc := .ended }, ch.hangUp, happened)

/-- The connection came about, though the process may have turned away from it since. -/
def connectionMade (socketPath : List UInt8) (a : ConnectAnswers) : Bool :=
  decide (socketPath.length ≠ 0) && decide (socketPath.length < sizeofSunPath)
    && a.socket.isSome && a.receiveTimeoutSet && a.sendTimeoutSet && a.connected

def createSegments (config : Config) (c : ConnId) (x : Participant) (ch : Channel)
    (a : ConnectAnswers) : Outcome :=
  match config.key with
  | .error text => ({ x with outputs := { Outputs.cleared with errorIn := text }, pc := .ended }, ch, [])
  | .ok (socketPath, cacheKey) =>
      let made := { ch with connected := connectionMade socketPath a }
      match acquireConnect x.process x.client c config.environment.effectiveUid socketPath cacheKey a with
      | (process, client, some text) =>
          finish { x with process, client, outputs := Outputs.cleared.fail text } made []
      | (process, client, none) =>
          ({ process, client, outputs := .cleared, pc := .connected }, made, [])

def sendAcquire (config : Config) (c : ConnId) (x : Participant) (ch : Channel)
    (answer : Except Errno Unit) : Outcome :=
  match config.key with
  | .error _ => x.stay ch
  | .ok (_, cacheKey) =>
      match x.process.send x.client.socketFd answer with
      | (process, .error e) =>
          let (process, client, outputs, _) := acquireUnanswered process x.client x.outputs e
          finish { x with process, client, outputs } ch []
      | (process, .ok ()) =>
          let request := acquireRequest cacheKey config.requestedSize
          ({ x with process, pc := .awaitAllocation }, ch.push request, [.sent c request])

def receiveAllocation (config : Config) (c : ConnId) (x : Participant) (ch : Channel)
    (delivery : Delivery) (a : MapAnswers) : Outcome :=
  let (reply, ch) := ch.receive delivery
  let (process, client, outputs, status) :=
    acquireReceive x.process x.client x.outputs config.requestedSize reply a
  let happened := [.acquired c
    { status, client, outputs,
      cache := process.fds.get client.cacheFd, lock := process.fds.get client.lockFd }]
  if status = .allocFailure then finish { x with process, client, outputs } ch happened
  else ({ process, client, outputs, pc := .running }, ch, happened)

/-- `ahe_startup_complete` up to the reply to `READY`. -/
def startupComplete (c : ConnId) (x : Participant) (ch : Channel) (reattached : Bool)
    (sharedGlobals : UInt64) (answer : Except Errno Unit) : Outcome :=
  if !reattached && x.client.creator then
    let called := [.startupComplete c sharedGlobals]
    if publishRefused x.client sharedGlobals then
      ({ x with pc := .abortDue }, ch, called ++ [.abandoned c])
    else
      match x.process.send x.client.socketFd answer with
      | (process, .error _) =>
          ({ x with process, pc := .abortDue }, ch, called ++ [.abandoned c])
      | (process, .ok ()) =>
          let request := readyRequest x.client sharedGlobals
          ({ x with process, pc := .awaitPublication sharedGlobals }, ch.push request,
            called ++ [.sent c request])
  else ({ x with pc := .settled }, ch, [])

def receivePublication (c : ConnId) (x : Participant) (ch : Channel) (sharedGlobals : UInt64)
    (delivery : Delivery) : Outcome :=
  let (reply, ch) := ch.receive delivery
  match receiveAck x.process x.client reply with
  | (process, true) =>
      let client := x.client.published
      ({ x with process, client, pc := .settled }, ch,
        [.published c
          { sharedGlobals, client,
            cache := process.fds.get client.cacheFd, lock := process.fds.get client.lockFd }])
  | (process, false) => ({ x with process, pc := .abortDue }, ch, [.abandoned c])

/-- `ahe_broker_client_abort` and `ahe_broker_client_shutdown` up to the reply, and what
follows when no request goes out. -/
def notify (c : ConnId) (x : Participant) (ch : Channel) (type : MessageType)
    (answer : Except Errno Unit) (awaiting : ParticipantPc) (otherwise : Participant → Outcome) :
    Outcome :=
  if !x.client.acquired ∨ x.client.socketFd < 0 then otherwise x
  else
    match x.process.send x.client.socketFd answer with
    | (process, .error _) => otherwise { x with process }
    | (process, .ok ()) =>
        ({ x with process, pc := awaiting }, ch.push (brokerMessageInit type),
          [.sent c (brokerMessageInit type)])

def settle (x : Participant) (ch : Channel) : Outcome := ({ x with pc := .settled }, ch, [])

/-- The rest of the shutdown. -/
def close (x : Participant) (ch : Channel) (unmapped : Bool) : Outcome :=
  let (process, client) := shutdownRest x.process x.client unmapped
  finish { x with process, client } ch []

def act (config : Config) (c : ConnId) (x : Participant) (ch : Channel) : Act → Outcome
  | .createSegments a =>
      match x.pc with
      | .idle => x.createSegments config c ch a
      | _ => x.stay ch
  | .sendAcquire answer =>
      match x.pc with
      | .connected => x.sendAcquire config c ch answer
      | _ => x.stay ch
  | .receiveAllocation delivery a =>
      match x.pc with
      | .awaitAllocation => x.receiveAllocation config c ch delivery a
      | _ => x.stay ch
  | .startupComplete reattached sharedGlobals answer =>
      match x.pc with
      | .running => x.startupComplete c ch reattached sharedGlobals answer
      | _ => x.stay ch
  | .receivePublication delivery =>
      match x.pc with
      | .awaitPublication sharedGlobals => x.receivePublication c ch sharedGlobals delivery
      | _ => x.stay ch
  | .startupAborted =>
      match x.pc with
      | .running => ({ x with pc := .abortDue }, ch, [])
      | _ => x.stay ch
  | .sendAbort answer =>
      match x.pc with
      | .abortDue => x.notify c ch .abort answer .awaitAbort fun x => x.settle ch
      | _ => x.stay ch
  | .receiveAbort delivery =>
      match x.pc with
      | .awaitAbort =>
          let (reply, ch) := ch.receive delivery
          settle { x with process := (receiveAck x.process x.client reply).1 } ch
      | _ => x.stay ch
  | .detach address segment unmapped =>
      match x.pc with
      | .running | .settled =>
          let (process, client, _) :=
            brokerClientDetach x.process x.client address segment unmapped
          settle { x with process, client } ch
      | _ => x.stay ch
  | .shutdown answer unmapped =>
      match x.pc with
      | .running | .settled =>
          x.notify c ch .detach answer .awaitDetach fun x => x.close ch unmapped
      | _ => x.stay ch
  | .receiveDetach delivery unmapped =>
      match x.pc with
      | .awaitDetach =>
          let (reply, ch) := ch.receive delivery
          close { x with process := (receiveAck x.process x.client reply).1 } ch unmapped
      | _ => x.stay ch
  | .crash => x.finish ch []

end Participant

end Hyperglyph
