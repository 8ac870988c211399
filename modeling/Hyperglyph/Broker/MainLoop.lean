import Hyperglyph.Library.Execution
import Hyperglyph.Library.SwapRemove
import Hyperglyph.Broker.Handlers

/-! The broker's client table and the loop of `main`, one system call and the code up to the
next one at a time. Peers act between any two of these steps; what the broker writes to its
own variables after a call is part of that call's step, since nobody can look in between. -/
namespace Hyperglyph

def ulongMax : Nat := 2 ^ 64 - 1
def sizeofClient : Nat := 8
def sizeofPollFd : Nat := 8

/-- `ahe_broker_close_client`. -/
def brokerCloseClient (k : Kernel) (clients : List ClientConnection) (index : Nat)
    (g : Generation) : Kernel × List ClientConnection × Generation :=
  match clients[index]? with
  | none => (k, clients, g)
  | some client =>
      let (k, g) :=
        if g.state = .initializing ∧ g.creatorFd = client.fd then generationReset k g else (k, g)
      (k.close client.fd, SwapRemove.swapRemove clients index, g)

/-- `ahe_broker_add_client`; `none` is the failing return. -/
def brokerAddClient (clients : List ClientConnection) (clientCapacity : Nat) (clientFd : Fd)
    (reallocated : Bool) : Option (List ClientConnection × Nat) :=
  let client : ClientConnection := { fd := clientFd, handledMessage := false }
  if clients.length = clientCapacity then
    if clientCapacity > sizeMax / 2 then none
    else
      let newCapacity := if clientCapacity ≠ 0 then clientCapacity * 2 else 8
      if newCapacity > sizeMax / sizeofClient then none
      else if !reallocated then none
      else some (clients ++ [client], newCapacity)
  else some (clients ++ [client], clientCapacity)

/-- The bits of `revents` the loop tests. -/
structure Revents where
  pollin : Bool
  pollerr : Bool
  pollhup : Bool
  pollnval : Bool
  deriving DecidableEq

def Revents.clear : Revents := ⟨false, false, false, false⟩
def Revents.failed (r : Revents) : Bool := r.pollerr || r.pollhup || r.pollnval

structure PollFd where
  fd : Fd
  revents : Revents
  deriving DecidableEq

/-- Where the loop stands. `dispatch i` is the head of the event loop with
`client_index = i`; `leaving` is the code after the loop. -/
inductive Pc
  | top
  | dispatch (clientIndex : Nat) (pollFds : List PollFd)
  | accept (listenerEvents : Revents)
  | leaving
  | returned
  deriving DecidableEq

/-- The variables of `main`. -/
structure Broker where
  kernel : Kernel
  stopping : Bool
  maxClients : Nat
  handledClients : Nat
  clients : List ClientConnection
  clientCapacity : Nat
  pollCapacity : Nat
  generation : Generation
  listenerFd : Fd
  exitFailure : Bool
  pc : Pc

inductive PollAnswer
  | interrupted
  | error
  | ready (revents : List Revents)

/-- `credentials` is what `getsockopt` returned, and `effectiveUid` what `geteuid` did. -/
structure AcceptAnswers where
  accepted : Option (Nat × ConnId)
  retry : Bool
  credentials : Option PeerCredentials
  effectiveUid : Nat
  reallocated : Bool

inductive Input
  | signal
  | head (reallocated : Bool) (poll : PollAnswer)
  | dispatch (a : Answers)
  | accept (a : AcceptAnswers)
  | leave

namespace Broker

def limitReached (b : Broker) : Bool :=
  decide (b.maxClients ≠ 0) && decide (b.handledClients ≥ b.maxClients)

def closeClient (b : Broker) (index : Nat) : Broker :=
  let (kernel, clients, generation) := brokerCloseClient b.kernel b.clients index b.generation
  { b with kernel, clients, generation }

def closeListener (b : Broker) : Broker :=
  if b.listenerFd ≥ 0 then { b with kernel := b.kernel.close b.listenerFd, listenerFd := -1 } else b

/-- The eviction pass: `for (client_index = n; client_index > 0; client_index--)`. -/
def evict : Nat → Broker → Broker
  | 0, b => b
  | index + 1, b =>
      match b.clients[index]? with
      | some client => evict index (if client.handledMessage then b else b.closeClient index)
      | none => evict index b

def fail (b : Broker) : Broker := { b with exitFailure := true, pc := .leaving }

/-- `poll` ignores entries with a negative descriptor. -/
def pollFds (b : Broker) (revents : List Revents) : List PollFd :=
  (b.listenerFd :: b.clients.map (·.fd)).mapIdx fun i fd =>
    { fd, revents := if fd < 0 then .clear else revents.getD i .clear }

def growAndPoll (b : Broker) (reallocated : Bool) (poll : PollAnswer) : Broker :=
  if b.clients.length = sizeMax then b.fail
  else
    let pollFdCount := b.clients.length + 1
    if pollFdCount > b.pollCapacity ∧ (pollFdCount > sizeMax / sizeofPollFd ∨ !reallocated) then
      b.fail
    else
      let b := { b with pollCapacity := max b.pollCapacity pollFdCount }
      match poll with
      | .interrupted => { b with pc := .top }
      | .error => b.fail
      | .ready revents => { b with pc := .dispatch b.clients.length (b.pollFds revents) }

def loopHead (b : Broker) (reallocated : Bool) (poll : PollAnswer) : Broker :=
  if b.stopping then { b with pc := .leaving }
  else if b.limitReached then
    let b := b.closeListener
    let b := b.evict b.clients.length
    if b.clients = [] then { b with pc := .leaving } else b.growAndPoll reallocated poll
  else b.growAndPoll reallocated poll

/-- Handling one readable client, with the count of clients that have spoken. -/
def serveClient (b : Broker) (index : Nat) (client : ClientConnection) (a : Answers) :
    Broker × Bool :=
  let (kernel, served, generation, keepOpen) :=
    brokerHandleClientMessage b.kernel client b.generation a
  let handledClients :=
    if !client.handledMessage && served.handledMessage && decide (b.handledClients < ulongMax) then
      b.handledClients + 1
    else b.handledClients
  ({ b with kernel, generation, handledClients, clients := b.clients.set index served }, keepOpen)

/-- The event loop's choice between refusing, serving and skipping a client; the flag is
`keep_open`. -/
def examineClient (b : Broker) (index : Nat) (client : ClientConnection) (events : Revents)
    (a : Answers) : Broker × Bool :=
  if b.limitReached && !client.handledMessage then (b, false)
  else if events.pollin then b.serveClient index client a
  else (b, true)

/-- The body of the event loop for `clients[index]`. -/
def dispatchClient (b : Broker) (index : Nat) (events : Revents) (a : Answers) : Broker :=
  match b.clients[index]? with
  | none => b
  | some client =>
      if events = .clear then b
      else
        let examined := b.examineClient index client events a
        if examined.2 && !events.failed then examined.1 else examined.1.closeClient index

/-- The test on `SO_PEERCRED`. -/
def peerAccepted (a : AcceptAnswers) : Bool :=
  match a.credentials with
  | some credentials =>
      credentials.sizeMatches && decide (credentials.pid > 0) && credentials.uid == a.effectiveUid
  | none => false

def acceptClient (b : Broker) (events : Revents) (a : AcceptAnswers) : Broker :=
  if b.limitReached || !events.pollin then
    if events.failed then b.fail else { b with pc := .top }
  else
    let (kernel, clientFd) := b.kernel.accept4 a.accepted
    if clientFd < 0 then
      if a.retry then { b with pc := .top } else b.fail
    else if !peerAccepted a then { b with kernel := kernel.close clientFd, pc := .top }
    else
      match brokerAddClient b.clients b.clientCapacity clientFd a.reallocated with
      | some (clients, clientCapacity) => { b with kernel, clients, clientCapacity, pc := .top }
      | none => fail { b with kernel := kernel.close clientFd }

/-- The exit path's `while (client_count)` loop. -/
def closeAll : Nat → Broker → Broker
  | 0, b => b
  | index + 1, b => closeAll index (b.closeClient index)

/-- The code after the loop up to the final `unlink`. -/
def leave (b : Broker) : Broker :=
  let b := b.closeAll b.clients.length
  let (kernel, generation) := generationReset b.kernel b.generation
  { ({ b with kernel, generation }).closeListener with pc := .returned }

def step (b : Broker) : Input → Broker
  | .signal => { b with stopping := true }
  | .head reallocated poll =>
      match b.pc with
      | .top => b.loopHead reallocated poll
      | _ => b
  | .dispatch a =>
      match b.pc with
      | .dispatch 0 pollFds =>
          { b with pc := .accept ((pollFds[0]?).elim .clear (·.revents)) }
      | .dispatch (index + 1) pollFds =>
          { b.dispatchClient index ((pollFds[index + 1]?).elim .clear (·.revents)) a with
            pc := .dispatch index pollFds }
      | _ => b
  | .accept a =>
      match b.pc with
      | .accept events => b.acceptClient events a
      | _ => b
  | .leave =>
      match b.pc with
      | .leaving => b.leave
      | _ => b

/-- The broker after `ahe_broker_create_listener` returned the descriptor `listenerFd`. -/
def start (maxClients : Nat) (listenerFd : Nat) : Broker where
  kernel :=
    { fds := DescriptorTable.empty.install listenerFd .listener, nextMemfd := 0, log := [] }
  stopping := false
  maxClients := maxClients
  handledClients := 0
  clients := []
  clientCapacity := 0
  pollCapacity := 0
  generation := generationInit
  listenerFd := listenerFd
  exitFailure := false
  pc := .top

def Step (b : Broker) (i : Input) (b' : Broker) : Prop := b' = b.step i

/-- The states of the broker in some run of `main`. -/
def Reachable (b : Broker) : Prop :=
  Execution.Reachable Step (fun b => ∃ maxClients listenerFd, b = start maxClients listenerFd) b

theorem reachable_start (maxClients listenerFd : Nat) : Reachable (start maxClients listenerFd) :=
  .of_init ⟨maxClients, listenerFd, rfl⟩

theorem run_foldl (inputs : List Input) (b : Broker) :
    Execution.Run Step b inputs (inputs.foldl step b) := by
  induction inputs generalizing b with
  | nil => exact .start
  | cons i inputs ih => exact Execution.Run.head rfl (ih (b.step i))

theorem eq_foldl_of_run {inputs : List Input} {b b' : Broker}
    (h : Execution.Run Step b inputs b') : b' = inputs.foldl step b := by
  induction h with
  | start => rfl
  | @next inputs b' i b'' _ hlast ih => rw [List.foldl_append, ← ih]; exact hlast

theorem Reachable.foldl {b : Broker} (h : Reachable b) (inputs : List Input) :
    Reachable (inputs.foldl step b) := Execution.Reachable.extend h (run_foldl inputs b)

end Broker

end Hyperglyph
