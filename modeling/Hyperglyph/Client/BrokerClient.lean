import Hyperglyph.Client.Process

/-! `ahe_broker_client.c`. Each exchange with the broker is written as its part up to `send`
and its part from `recvmsg` on, since the broker and other processes run in between. -/
namespace Hyperglyph

/-- `ahe_broker_client`; pointers are numbers and zero is `NULL`. -/
structure BrokerClient where
  socketFd : Fd
  cacheFd : Fd
  lockFd : Fd
  mapping : UInt64
  mappingSize : UInt64
  segmentAllocation : UInt64
  creator : Bool
  reattached : Bool
  acquired : Bool
  ready : Bool
  timedOut : Bool
  deriving DecidableEq

/-- `AHE_BROKER_CLIENT_INITIALIZER`. -/
def BrokerClient.initializer : BrokerClient where
  socketFd := -1
  cacheFd := -1
  lockFd := -1
  mapping := 0
  mappingSize := 0
  segmentAllocation := 0
  creator := false
  reattached := false
  acquired := false
  ready := false
  timedOut := false

inductive ShmStatus
  | allocFailure | allocSuccess | failedReattached | successfullyReattached
  deriving DecidableEq, Repr

/-- `ahe_opcache_shm_segment_v1`. -/
structure ShmSegment where
  size : UInt64
  endOffset : UInt64
  pos : UInt64
  p : UInt64
  deriving DecidableEq

/-- The block `ahe_broker_allocate_segment` makes: an array of one pointer, and behind it the
segment it points to. -/
structure SharedSegments where
  allocation : UInt64
  segment : ShmSegment
  deriving DecidableEq

/-- What the caller's pointers receive. -/
structure Outputs where
  sharedSegments : Option SharedSegments
  sharedSegmentCount : Nat
  reattachedSharedGlobals : UInt64
  errorIn : Option String
  deriving DecidableEq

def Outputs.cleared : Outputs := ⟨none, 0, 0, none⟩
def Outputs.fail (out : Outputs) (text : String) : Outputs := { out with errorIn := some text }

def sizeofPointer : UInt64 := 8

/-! ### Messages -/

def closeReceivedFds (p : Process) (fds : List Fd) : Process :=
  fds.foldl (fun p fd => if fd ≥ 0 then p.close fd else p) p

/-- The loop over the control messages; `none` is the `EPROTO` return. -/
def collectFds (p : Process) (capacity : Nat) (fds : List Fd) :
    List ControlMessage → Process × Option (List Fd)
  | [] => (p, some fds)
  | .other :: rest => collectFds p capacity fds rest
  | .rights installed ragged :: rest =>
      let supplied := installed.map fun i => (i.1 : Fd)
      if ragged ∨ fds.length + supplied.length > capacity then
        (closeReceivedFds (supplied.foldl Process.close p) fds, none)
      else collectFds p capacity (fds ++ supplied) rest

/-- `ahe_broker_receive_message` of the client. -/
def clientReceiveMessage (p : Process) (socketFd : Fd) (capacity : Nat)
    (a : Except Errno Reception) : Process × Except Errno (MessageV1 × List Fd) :=
  match p.recvmsg socketFd a with
  | (p, .error e) => (p, .error e)
  | (p, .ok r) =>
      match collectFds p capacity [] r.control with
      | (p, none) => (p, .error .proto)
      | (p, some fds) =>
          let received := min r.octets.length sizeofMessage
          let message := MessageV1.decode (r.octets.take sizeofMessage)
          if received ≠ sizeofMessage ∨ r.octets.length > sizeofMessage ∨ r.controlTruncated ∨
              !message.framed then
            (closeReceivedFds p fds, .error .proto)
          else (p, .ok (message, fds))

/-! ### Connecting -/

/-- What `lstat` tells of the socket path. -/
structure SocketStatus where
  isSocket : Bool
  uid : Nat
  mode : Nat

structure ConnectAnswers where
  socket : Option Nat
  receiveTimeoutSet : Bool
  sendTimeoutSet : Bool
  connected : Bool
  credentials : Option PeerCredentials
  socketStatus : Option SocketStatus

/-- The test on the peer and on the path after `connect`. -/
def peerTrusted (effectiveUid : Nat) (a : ConnectAnswers) : Bool :=
  match a.credentials, a.socketStatus with
  | some credentials, some status =>
      credentials.sizeMatches && decide (credentials.pid > 0) && credentials.uid == effectiveUid
        && status.isSocket && status.uid == effectiveUid && status.mode % 0o1000 == 0o600
  | _, _ => false

/-- `ahe_broker_connect`. -/
def brokerConnect (p : Process) (c : ConnId) (effectiveUid : Nat) (socketPath : List UInt8)
    (a : ConnectAnswers) : Process × Fd :=
  if socketPath.length = 0 ∨ socketPath.length ≥ sizeofSunPath then (p, -1)
  else
    let (p, socketFd) := p.socket c a.socket
    if socketFd < 0 then (p, -1)
    else if !a.receiveTimeoutSet ∨ !a.sendTimeoutSet ∨ !a.connected ∨
        !peerTrusted effectiveUid a then
      (p.close socketFd, -1)
    else (p, socketFd)

def closeDescriptors (p : Process) (client : BrokerClient) : Process × BrokerClient :=
  let (p, client) :=
    if client.cacheFd ≥ 0 then (p.close client.cacheFd, { client with cacheFd := -1 })
    else (p, client)
  let (p, client) :=
    if client.lockFd ≥ 0 then (p.close client.lockFd, { client with lockFd := -1 })
    else (p, client)
  if client.socketFd ≥ 0 then (p.close client.socketFd, { client with socketFd := -1 })
  else (p, client)

/-- `ahe_broker_allocate_segment`; `none` is the failing return. -/
def allocateSegment (p : Process) (client : BrokerClient) (out : Outputs) (answer : UInt64) :
    Process × Option (BrokerClient × Outputs) :=
  let (p, allocation) := p.calloc answer
  if allocation = 0 then (p, none)
  else
    let segment : ShmSegment :=
      { p := client.mapping, pos := 0, endOffset := client.mappingSize, size := client.mappingSize }
    (p, some ({ client with segmentAllocation := allocation },
      { out with sharedSegments := some ⟨allocation, segment⟩, sharedSegmentCount := 1 }))

/-! ### `ahe_broker_client_acquire` -/

/-- The part before the request is sent; the text is `*error_in` of a failure. -/
def acquireConnect (p : Process) (client : BrokerClient) (c : ConnId) (effectiveUid : Nat)
    (socketPath cacheKey : List UInt8) (a : ConnectAnswers) :
    Process × BrokerClient × Option String :=
  let client := { client with timedOut := false }
  if cacheKey.length ≥ brokerCacheKeySize then (p, client, some "AHE cache key is too long")
  else
    let (p, socketFd) := brokerConnect p c effectiveUid socketPath a
    let client := { client with socketFd }
    (p, client, if socketFd < 0 then some "AHE broker is unavailable" else none)

def acquireRequest (cacheKey : List UInt8) (requestedSize : UInt64) : MessageV1 :=
  { brokerMessageInit .acquire with mappingSize := requestedSize, cacheKey := .ofBytes cacheKey }

/-- The return after a failed `send` or `recvmsg`. -/
def acquireUnanswered (p : Process) (client : BrokerClient) (out : Outputs) (e : Errno) :
    Process × BrokerClient × Outputs × ShmStatus :=
  let client := { client with timedOut := e == .again }
  let out := out.fail
    (if client.timedOut then "AHE broker did not respond before the timeout"
      else "AHE broker protocol failure")
  let (p, client) := closeDescriptors p client
  (p, client, out, .allocFailure)

/-- The return after a reply that gives no descriptors to keep. -/
def acquireRefused (p : Process) (client : BrokerClient) (out : Outputs) (receivedFds : List Fd)
    (text : String) : Process × BrokerClient × Outputs × ShmStatus :=
  let (p, client) := closeDescriptors (closeReceivedFds p receivedFds) client
  (p, client, out.fail text, .allocFailure)

/-- The return after the descriptors were stored. -/
def acquireAbandoned (p : Process) (client : BrokerClient) (out : Outputs) (text : String) :
    Process × BrokerClient × Outputs × ShmStatus :=
  let (p, client) := closeDescriptors p client
  (p, client, out.fail text, .allocFailure)

/-- The kernel's answers after a reply was received. -/
structure MapAnswers where
  mapped : Option UInt64
  unmapped : Bool
  allocated : UInt64
  deriving DecidableEq

/-- From `client->cache_fd = received_fds[0]` to the end, with the tests on an `ATTACH` reply
already passed. -/
def acquireMap (p : Process) (client : BrokerClient) (out : Outputs) (requestedSize : UInt64)
    (response : MessageV1) (a : MapAnswers) : Process × BrokerClient × Outputs × ShmStatus :=
  let attach := response.type == MessageType.attach.code
  match p.mmap client.cacheFd requestedSize a.mapped with
  | (p, none) =>
      acquireAbandoned p { client with mapping := 0 } out
        (if attach then "AHE cache address is unavailable" else "AHE cache mapping failed")
  | (p, some address) =>
      if attach ∧ address ≠ response.mappingBase then
        acquireAbandoned (p.munmap address requestedSize a.unmapped).1 { client with mapping := 0 }
          out "AHE cache mapped at the wrong address"
      else
        let client := { client with mapping := address, mappingSize := requestedSize }
        match allocateSegment p client out a.allocated with
        | (p, none) =>
            acquireAbandoned (p.munmap client.mapping client.mappingSize a.unmapped).1
              { client with mapping := 0, mappingSize := 0 } out "AHE segment allocation failed"
        | (p, some (client, out)) =>
            let client := { client with
              creator := response.type == MessageType.create.code
              reattached := attach
              acquired := true }
            if client.reattached then
              (p, client, { out with
                  reattachedSharedGlobals := client.mapping + response.sharedGlobalsOffset },
                .successfullyReattached)
            else (p, client, out, .allocSuccess)

/-- The tests on a reply and what follows them. -/
def acquireReply (p : Process) (client : BrokerClient) (out : Outputs) (requestedSize : UInt64)
    (response : MessageV1) (receivedFds : List Fd) (a : MapAnswers) :
    Process × BrokerClient × Outputs × ShmStatus :=
  if response.type = MessageType.decline.code ∨ response.type = MessageType.error.code then
    acquireRefused p client out receivedFds
      (if response.type = MessageType.decline.code then "AHE broker declined the cache key"
        else "AHE broker could not create the cache")
  else if receivedFds.length ≠ brokerDescriptorCount ∨ response.mappingSize ≠ requestedSize ∨
      (response.type ≠ MessageType.create.code ∧ response.type ≠ MessageType.attach.code) then
    acquireRefused p client out receivedFds "AHE broker returned an invalid allocation response"
  else
    let client := { client with
      cacheFd := receivedFds.getD 0 (-1), lockFd := receivedFds.getD 1 (-1) }
    if response.type = MessageType.attach.code ∧
        (response.mappingBase = 0 ∨ response.sharedGlobalsOffset ≥ response.mappingSize) then
      acquireAbandoned p client out "AHE broker returned invalid reattachment metadata"
    else acquireMap p client out requestedSize response a

/-- The part from `recvmsg` on. -/
def acquireReceive (p : Process) (client : BrokerClient) (out : Outputs) (requestedSize : UInt64)
    (reply : Except Errno Reception) (a : MapAnswers) :
    Process × BrokerClient × Outputs × ShmStatus :=
  match clientReceiveMessage p client.socketFd brokerDescriptorCount reply with
  | (p, .error e) => acquireUnanswered p client out e
  | (p, .ok (response, receivedFds)) =>
      acquireReply p client out requestedSize response receivedFds a

structure AcquireAnswers where
  connect : ConnectAnswers
  sent : Except Errno Unit
  reply : Except Errno Reception
  map : MapAnswers

/-- The whole function, with nothing in between. -/
def brokerClientAcquire (p : Process) (client : BrokerClient) (c : ConnId) (effectiveUid : Nat)
    (socketPath cacheKey : List UInt8) (requestedSize : UInt64) (out : Outputs)
    (a : AcquireAnswers) : Process × BrokerClient × Outputs × ShmStatus :=
  match acquireConnect p client c effectiveUid socketPath cacheKey a.connect with
  | (p, client, some text) => (p, client, out.fail text, .allocFailure)
  | (p, client, none) =>
      match p.send client.socketFd a.sent with
      | (p, .error e) => acquireUnanswered p client out e
      | (p, .ok ()) => acquireReceive p client out requestedSize a.reply a.map

/-! ### Notifications -/

/-- From `recvmsg` on; the flag is that the reply is `ACK`. -/
def receiveAck (p : Process) (client : BrokerClient) (reply : Except Errno Reception) :
    Process × Bool :=
  match clientReceiveMessage p client.socketFd 0 reply with
  | (p, .error _) => (p, false)
  | (p, .ok (response, _)) => (p, response.type == MessageType.ack.code)

/-- The tests of `ahe_broker_client_publish` on its arguments. -/
def publishRefused (client : BrokerClient) (sharedGlobals : UInt64) : Bool :=
  !client.creator || client.mapping == 0 || sharedGlobals == 0
    || decide (sharedGlobals < client.mapping)
    || decide (sharedGlobals - client.mapping ≥ client.mappingSize)

def readyRequest (client : BrokerClient) (sharedGlobals : UInt64) : MessageV1 :=
  { brokerMessageInit .ready with
    mappingSize := client.mappingSize
    mappingBase := client.mapping
    sharedGlobalsOffset := sharedGlobals - client.mapping }

/-- The client after an acknowledged `READY`. -/
def BrokerClient.published (client : BrokerClient) : BrokerClient :=
  { client with ready := true, segmentAllocation := 0 }

structure ExchangeAnswers where
  sent : Except Errno Unit
  reply : Except Errno Reception

/-- `ahe_broker_client_publish`; `true` is the return of zero. -/
def brokerClientPublish (p : Process) (client : BrokerClient) (sharedGlobals : UInt64)
    (a : ExchangeAnswers) : Process × BrokerClient × Bool :=
  if publishRefused client sharedGlobals then (p, client, false)
  else
    match p.send client.socketFd a.sent with
    | (p, .error _) => (p, client, false)
    | (p, .ok ()) =>
        match receiveAck p client a.reply with
        | (p, true) => (p, client.published, true)
        | (p, false) => (p, client, false)

/-- `ahe_broker_client_notify`. -/
def brokerClientNotify (p : Process) (client : BrokerClient) (a : ExchangeAnswers) :
    Process × Bool :=
  if client.socketFd < 0 then (p, false)
  else
    match p.send client.socketFd a.sent with
    | (p, .error _) => (p, false)
    | (p, .ok ()) => receiveAck p client a.reply

/-- `ahe_broker_client_abort`. -/
def brokerClientAbort (p : Process) (client : BrokerClient) (a : ExchangeAnswers) : Process :=
  if client.acquired then (brokerClientNotify p client a).1 else p

/-- `ahe_startup_complete`; the flag says that persistence was abandoned. -/
def startupComplete (p : Process) (client : BrokerClient) (reattached : Bool)
    (sharedGlobals : UInt64) (publish abort : ExchangeAnswers) : Process × BrokerClient × Bool :=
  if !reattached && client.creator then
    match brokerClientPublish p client sharedGlobals publish with
    | (p, client, true) => (p, client, false)
    | (p, client, false) => (brokerClientAbort p client abort, client, true)
  else (p, client, false)

/-! ### Letting go -/

/-- `ahe_broker_client_detach` of the segment at an address; `true` is the return of success. -/
def brokerClientDetach (p : Process) (client : BrokerClient) (address : UInt64)
    (segment : ShmSegment) (unmapped : Bool) : Process × BrokerClient × Bool :=
  if address = 0 ∨ segment.p = 0 ∨ segment.size = 0 then (p, client, false)
  else
    let ownedSegment :=
      if client.segmentAllocation ≠ 0 then client.segmentAllocation + sizeofPointer else 0
    match p.munmap segment.p segment.size unmapped with
    | (p, false) => (p, client, false)
    | (p, true) =>
        let client :=
          if client.mapping = segment.p then { client with mapping := 0, mappingSize := 0 }
          else client
        let client :=
          if address = ownedSegment then { client with segmentAllocation := 0 } else client
        (p, client, true)

/-- `ahe_broker_client_shutdown` after its notification. -/
def shutdownRest (p : Process) (client : BrokerClient) (unmapped : Bool) : Process × BrokerClient :=
  let p :=
    if client.mapping ≠ 0 ∧ client.mappingSize ≠ 0 then
      (p.munmap client.mapping client.mappingSize unmapped).1
    else p
  let p :=
    if client.reattached ∧ client.segmentAllocation ≠ 0 then p.free client.segmentAllocation else p
  let (p, client) := closeDescriptors p client
  (p, { client with
    mapping := 0, mappingSize := 0, segmentAllocation := 0, creator := false,
    reattached := false, acquired := false, ready := false, timedOut := false })

def brokerClientShutdown (p : Process) (client : BrokerClient) (a : ExchangeAnswers)
    (unmapped : Bool) : Process × BrokerClient :=
  let p :=
    if client.acquired ∧ client.socketFd ≥ 0 then (brokerClientNotify p client a).1 else p
  shutdownRest p client unmapped

end Hyperglyph
