import Hyperglyph.Library.Block
import Hyperglyph.Broker.MainLoop

/-! The two arrays of `main` in memory: blocks from `realloc` with a count and a capacity beside
them. Reading or writing outside of what a count allows, reading an entry that was never
written and arithmetic that would wrap in a `size_t` are `none`, after which the broker has
no next state. -/
namespace Hyperglyph

def sizeAdd (a b : Nat) : Option Nat := if a + b ≤ sizeMax then some (a + b) else none
def sizeSub (a b : Nat) : Option Nat := if b ≤ a then some (a - b) else none
def sizeMul (a b : Nat) : Option Nat := if a * b ≤ sizeMax then some (a * b) else none

/-- `clients`, `client_count` and `client_capacity`. -/
structure ClientTable where
  clients : Block ClientConnection
  clientCount : Nat
  clientCapacity : Nat

namespace ClientTable

/-- `clients[index]`. -/
def read (t : ClientTable) (index : Nat) : Option ClientConnection :=
  t.clients.read t.clientCount index

/-- `ahe_broker_close_client`. -/
def closeClient (k : Kernel) (t : ClientTable) (clientIndex : Nat) (g : Generation) :
    Option (Kernel × ClientTable × Generation) := do
  let client ← t.read clientIndex
  let (k, g) :=
    if g.state = .initializing ∧ g.creatorFd = client.fd then generationReset k g else (k, g)
  let lastIndex ← sizeSub t.clientCount 1
  let last ← t.read lastIndex
  let clients ← t.clients.write t.clientCount clientIndex last
  let clientCount ← sizeSub t.clientCount 1
  some (k.close client.fd, { t with clients, clientCount }, g)

/-- The growth in `ahe_broker_add_client`; the flag is its success. -/
def grow (t : ClientTable) (reallocated : Bool) : Option (ClientTable × Bool) :=
  if t.clientCount = t.clientCapacity then
    if t.clientCapacity > sizeMax / 2 then some (t, false)
    else do
      let newCapacity ← (if t.clientCapacity ≠ 0 then sizeMul t.clientCapacity 2 else some 8)
      if newCapacity > sizeMax / sizeofClient then some (t, false)
      else do
        let octets ← sizeMul newCapacity sizeofClient
        if !reallocated then some (t, false)
        else
          let clients := t.clients.resize (octets / sizeofClient)
          some ({ t with clients, clientCapacity := newCapacity }, true)
  else some (t, true)

/-- `ahe_broker_add_client`; the flag is its success. -/
def addClient (t : ClientTable) (clientFd : Fd) (reallocated : Bool) :
    Option (ClientTable × Bool) := do
  let (t, grown) ← t.grow reallocated
  if grown then
    let client : ClientConnection := { fd := clientFd, handledMessage := false }
    let clients ← t.clients.write t.clientCapacity t.clientCount client
    let clientCount ← sizeAdd t.clientCount 1
    some ({ t with clients, clientCount }, true)
  else some (t, false)

end ClientTable

/-- `poll_fds` and `poll_capacity`. -/
structure PollTable where
  pollFds : Block PollFd
  pollCapacity : Nat

namespace PollTable

/-- Room for `poll_fd_count` entries; the flag is false where the loop breaks. -/
def grow (p : PollTable) (pollFdCount : Nat) (reallocated : Bool) : Option (PollTable × Bool) :=
  if pollFdCount > p.pollCapacity then
    if pollFdCount > sizeMax / sizeofPollFd then some (p, false)
    else do
      let octets ← sizeMul pollFdCount sizeofPollFd
      if !reallocated then some (p, false)
      else some (⟨p.pollFds.resize (octets / sizeofPollFd), pollFdCount⟩, true)
  else some (p, true)

/-- The body of the set-up loop. -/
def setUpClient (t : ClientTable) (pollFdCount : Nat) (pollFds : Block PollFd)
    (clientIndex : Nat) : Option (Block PollFd) := do
  let client ← t.read clientIndex
  let position ← sizeAdd clientIndex 1
  pollFds.write pollFdCount position { fd := client.fd, revents := .clear }

/-- The listener's entry and the set-up loop. -/
def setUp (p : PollTable) (t : ClientTable) (listenerFd : Fd) (pollFdCount : Nat) :
    Option PollTable := do
  let pollFds ← p.pollFds.write pollFdCount 0 { fd := listenerFd, revents := .clear }
  let pollFds ← (List.range t.clientCount).foldlM (setUpClient t pollFdCount) pollFds
  some { p with pollFds }

/-- What `poll` reports for an entry; it ignores those with a negative descriptor. -/
def report (revents : List Revents) (i : Nat) (pollFd : PollFd) : PollFd :=
  { pollFd with revents := if pollFd.fd < 0 then .clear else revents.getD i .clear }

/-- `poll` on the first `poll_fd_count` entries. -/
def poll (p : PollTable) (pollFdCount : Nat) (revents : List Revents) : Option PollTable := do
  let pollFds ← p.pollFds.first pollFdCount
  some { p with pollFds := p.pollFds.overwrite (pollFds.mapIdx (report revents)) }

end PollTable

/-- Where the loop stands; `poll_fds` itself is in memory. -/
inductive Place
  | top
  | dispatch (clientIndex pollFdCount : Nat)
  | accept (pollFdCount : Nat)
  | leaving
  | returned
  deriving DecidableEq

/-- The variables of `main`. -/
structure BrokerMemory where
  kernel : Kernel
  stopping : Bool
  maxClients : Nat
  handledClients : Nat
  table : ClientTable
  polls : PollTable
  generation : Generation
  listenerFd : Fd
  exitFailure : Bool
  place : Place

/-- What the head of the loop comes to: out of the loop, or `poll` with `poll_fd_count` entries. -/
inductive Round
  | ended (m : BrokerMemory)
  | polling (m : BrokerMemory) (pollFdCount : Nat)

namespace BrokerMemory

def limitReached (m : BrokerMemory) : Bool :=
  decide (m.maxClients ≠ 0) && decide (m.handledClients ≥ m.maxClients)

def closeClient (m : BrokerMemory) (index : Nat) : Option BrokerMemory := do
  let (kernel, table, generation) ← m.table.closeClient m.kernel index m.generation
  some { m with kernel, table, generation }

def closeListener (m : BrokerMemory) : BrokerMemory :=
  if m.listenerFd ≥ 0 then { m with kernel := m.kernel.close m.listenerFd, listenerFd := -1 } else m

/-- The eviction pass: `for (client_index = n; client_index > 0; client_index--)`. -/
def evict : Nat → BrokerMemory → Option BrokerMemory
  | 0, m => some m
  | index + 1, m => do
      let client ← m.table.read index
      if client.handledMessage then evict index m
      else
        let m ← m.closeClient index
        evict index m

def fail (m : BrokerMemory) : BrokerMemory := { m with exitFailure := true, place := .leaving }

def setUpPoll (m : BrokerMemory) (reallocated : Bool) : Option Round :=
  if m.table.clientCount = sizeMax then some (.ended m.fail)
  else do
    let pollFdCount ← sizeAdd m.table.clientCount 1
    let (polls, grown) ← m.polls.grow pollFdCount reallocated
    if grown then
      let polls ← polls.setUp m.table m.listenerFd pollFdCount
      some (.polling { m with polls } pollFdCount)
    else some (.ended ({ m with polls } : BrokerMemory).fail)

/-- The loop from its head up to the call of `poll`. -/
def round (m : BrokerMemory) (reallocated : Bool) : Option Round :=
  if m.stopping then some (.ended { m with place := .leaving })
  else if m.limitReached then do
    let m := m.closeListener
    let m ← evict m.table.clientCount m
    if m.table.clientCount = 0 then some (.ended { m with place := .leaving })
    else m.setUpPoll reallocated
  else m.setUpPoll reallocated

def poll (m : BrokerMemory) (pollFdCount : Nat) : PollAnswer → Option BrokerMemory
  | .interrupted => some { m with place := .top }
  | .error => some m.fail
  | .ready revents => do
      let polls ← m.polls.poll pollFdCount revents
      some { m with polls, place := .dispatch m.table.clientCount pollFdCount }

def loopHead (m : BrokerMemory) (reallocated : Bool) (answer : PollAnswer) :
    Option BrokerMemory := do
  match ← m.round reallocated with
  | .ended m => some m
  | .polling m pollFdCount => m.poll pollFdCount answer

/-- `ahe_broker_handle_client_message` on `clients[index]`, and the count of clients that have
spoken. -/
def serveClient (m : BrokerMemory) (index : Nat) (client : ClientConnection) (a : Answers) :
    Option (BrokerMemory × Bool) := do
  let (kernel, served, generation, keepOpen) :=
    brokerHandleClientMessage m.kernel client m.generation a
  let clients ← m.table.clients.write m.table.clientCount index served
  let handledClients :=
    if !client.handledMessage && served.handledMessage && decide (m.handledClients < ulongMax) then
      m.handledClients + 1
    else m.handledClients
  some ({ m with kernel, generation, handledClients, table := { m.table with clients } }, keepOpen)

def examineClient (m : BrokerMemory) (index : Nat) (client : ClientConnection) (events : Revents)
    (a : Answers) : Option (BrokerMemory × Bool) :=
  if m.limitReached && !client.handledMessage then some (m, false)
  else if events.pollin then m.serveClient index client a
  else some (m, true)

/-- The body of the event loop for `clients[index]` and `poll_fds[index + 1]`. -/
def dispatchClient (m : BrokerMemory) (index pollFdCount : Nat) (a : Answers) :
    Option BrokerMemory := do
  let position ← sizeAdd index 1
  let pollFd ← m.polls.pollFds.read pollFdCount position
  if pollFd.revents = .clear then some m
  else
    let client ← m.table.read index
    let (m, keepOpen) ← m.examineClient index client pollFd.revents a
    if keepOpen && !pollFd.revents.failed then some m else m.closeClient index

def acceptClient (m : BrokerMemory) (pollFdCount : Nat) (a : AcceptAnswers) :
    Option BrokerMemory := do
  let pollFd ← m.polls.pollFds.read pollFdCount 0
  if m.limitReached || !pollFd.revents.pollin then
    if pollFd.revents.failed then some m.fail else some { m with place := .top }
  else
    let (kernel, clientFd) := m.kernel.accept4 a.accepted
    if clientFd < 0 then
      if a.retry then some { m with place := .top } else some m.fail
    else if !Broker.peerAccepted a then some { m with kernel := kernel.close clientFd, place := .top }
    else
      let (table, added) ← m.table.addClient clientFd a.reallocated
      if added then some { m with kernel, table, place := .top }
      else some ({ m with kernel := kernel.close clientFd, table } : BrokerMemory).fail

/-- The exit path's `while (client_count)` loop, given as many turns as there are clients. -/
def closeAll : Nat → BrokerMemory → Option BrokerMemory
  | 0, m => if m.table.clientCount = 0 then some m else none
  | turns + 1, m =>
      if m.table.clientCount = 0 then some m
      else do
        let index ← sizeSub m.table.clientCount 1
        let m ← m.closeClient index
        closeAll turns m

/-- The code after the loop up to the final `unlink`. -/
def leave (m : BrokerMemory) : Option BrokerMemory := do
  let m ← closeAll m.table.clientCount m
  let (kernel, generation) := generationReset m.kernel m.generation
  some { ({ m with kernel, generation } : BrokerMemory).closeListener with place := .returned }

def step (m : BrokerMemory) : Input → Option BrokerMemory
  | .signal => some { m with stopping := true }
  | .head reallocated answer =>
      match m.place with
      | .top => m.loopHead reallocated answer
      | _ => some m
  | .dispatch a =>
      match m.place with
      | .dispatch 0 pollFdCount => some { m with place := .accept pollFdCount }
      | .dispatch (index + 1) pollFdCount => do
          let m ← m.dispatchClient index pollFdCount a
          some { m with place := .dispatch index pollFdCount }
      | _ => some m
  | .accept a =>
      match m.place with
      | .accept pollFdCount => m.acceptClient pollFdCount a
      | _ => some m
  | .leave =>
      match m.place with
      | .leaving => m.leave
      | _ => some m

/-- Both arrays start as null pointers. -/
def start (maxClients : Nat) (listenerFd : Nat) : BrokerMemory where
  kernel :=
    { fds := DescriptorTable.empty.install listenerFd .listener, nextMemfd := 0, log := [] }
  stopping := false
  maxClients := maxClients
  handledClients := 0
  table := ⟨.empty, 0, 0⟩
  polls := ⟨.empty, 0⟩
  generation := generationInit
  listenerFd := listenerFd
  exitFailure := false
  place := .top

def Step (m : BrokerMemory) (i : Input) (m' : BrokerMemory) : Prop := m.step i = some m'

/-- The states of the broker's memory in some run of `main`. -/
def Reachable (m : BrokerMemory) : Prop :=
  Execution.Reachable Step (fun m => ∃ maxClients listenerFd, m = start maxClients listenerFd) m

end BrokerMemory

end Hyperglyph
