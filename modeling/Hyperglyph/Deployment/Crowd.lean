import Hyperglyph.Broker.Handover
import Hyperglyph.Deployment.Channel

/-! A broker without a limit among arbitrary peers. They connect, say what they like, read their
replies or do not, and hang up; the broker's own calls succeed. -/
namespace Hyperglyph

structure Crowd where
  broker : Broker
  channels : ConnId → Channel

inductive PeerAct
  | connect
  | say (d : List UInt8)
  | read (delivery : Delivery)
  | hangUp

/-- What a peer does to its connection, if it can. -/
def PeerAct.apply (ch : Channel) : PeerAct → Option Channel
  | .connect => if ch.connected then none else some { ch with connected := true }
  | .say d =>
      if ch.connected && !ch.peerClosed && !ch.brokerClosed then
        some { ch with toBroker := ch.toBroker ++ [d] }
      else none
  | .read delivery => some (ch.receive delivery).2
  | .hangUp => if ch.connected then some ch.hangUp else none

/-- What the broker has to hear of it. -/
def PeerAct.words : PeerAct → List (List UInt8)
  | .say d => [d]
  | _ => []

namespace Crowd

inductive Label
  | broker (i : Input)
  | peer (c : ConnId) (act : PeerAct)

def start (listenerFd : Nat) : Crowd where
  broker := .start 0 listenerFd
  channels := fun _ => .fresh

/-- The channel behind a client's descriptor. -/
def channelOf (s : Crowd) (client : ClientConnection) : Option Channel :=
  match s.broker.kernel.fds.get client.fd with
  | some (.conn c) => some (s.channels c)
  | _ => none

/-- `poll` reports a connection readable when it has a message, and as failed only when its peer
has hung up. -/
def reportsTruly (ch : Channel) (events : Revents) : Bool :=
  ch.peerClosed || (events.pollin == !ch.toBroker.isEmpty && !events.failed)

/-- `poll` reports the truth, and no failure of the listener. -/
def pollReports (s : Crowd) (revents : List Revents) : Bool :=
  !(revents.getD 0 .clear).failed &&
    s.broker.clients.zipIdx.all fun (client, index) =>
      (s.channelOf client).all fun ch => reportsTruly ch (revents.getD (index + 1) .clear)

/-- `recv` on a connection that `poll` reported readable returns a message. -/
def recvReturns (s : Crowd) (index : Nat) (fds : List PollFd) (a : Answers) : Bool :=
  (s.broker.clients[index]?).all fun client =>
    (s.channelOf client).all fun ch =>
      ch.peerClosed || !((fds[index + 1]?).elim .clear (·.revents)).pollin || decide (a.recv ≠ .error)

/-- `accept4` returns a connection the broker has room for, or is to be repeated. -/
def acceptReturns (b : Broker) (a : AcceptAnswers) : Bool :=
  match a.accepted with
  | none => a.retry
  | some (n, c) => decide (b.kernel.fds.Free n) && decide (Event.accepted c ∉ b.kernel.log) &&
      (brokerAddClient b.clients b.clientCapacity n a.reallocated).isSome

/-- The broker's next step is one with this input, and none of its calls fails. -/
def callsSucceed (s : Crowd) (i : Input) : Bool :=
  match i, s.broker.pc with
  | .signal, _ => true
  | .head reallocated poll, .top =>
      reallocated && decide (s.broker.clients.length < sizeMax / sizeofPollFd) &&
        match poll with
        | .interrupted => true
        | .error => false
        | .ready revents => s.pollReports revents
  | .dispatch _, .dispatch 0 _ => true
  | .dispatch a, .dispatch (index + 1) fds => s.recvReturns index fds a
  | .accept a, .accept _ => acceptReturns s.broker a
  | .leave, .leaving => true
  | _, _ => false

def stepBroker (s : Crowd) (i : Input) : Option Crowd :=
  let broker := s.broker.step i
  if s.callsSucceed i then
    (absorb s.channels (s.broker.newEvents broker)).map fun channels => { broker, channels }
  else none

def step (s : Crowd) : Label → Option Crowd
  | .broker i => s.stepBroker i
  | .peer c act =>
      (act.apply (s.channels c)).map fun ch =>
        { s with channels := Function.update s.channels c ch }

def Step (s : Crowd) (label : Label) (t : Crowd) : Prop := s.step label = some t

abbrev Run : Crowd → List Label → Crowd → Prop := Execution.Run Step

def Reachable (s : Crowd) : Prop :=
  Execution.Reachable Step (fun s => ∃ listenerFd, s = start listenerFd) s

/-- The crowd a sequence of labels leads to. -/
def run (s : Crowd) : List Label → Option Crowd
  | [] => some s
  | label :: rest => (s.step label).bind fun t => t.run rest

variable {s t : Crowd} {labels : List Label}

theorem run_of_run (h : s.run labels = some t) : Run s labels t := by
  induction labels generalizing s with
  | nil =>
      cases h
      exact .start
  | cons label rest ih =>
      obtain ⟨u, hstep, hrest⟩ := Option.bind_eq_some_iff.mp h
      exact (ih hrest).head hstep

theorem stepBroker_eq_some {i : Input} (h : s.stepBroker i = some t) :
    s.callsSucceed i = true ∧ t.broker = s.broker.step i ∧
      absorb s.channels (s.broker.newEvents (s.broker.step i)) = some t.channels := by
  unfold stepBroker at h
  dsimp only at h
  split at h
  · next hsucceed =>
      obtain ⟨channels, hchannels, rfl⟩ := Option.map_eq_some_iff.mp h
      exact ⟨hsucceed, rfl, hchannels⟩
  · cases h

theorem step_peer {c : ConnId} {act : PeerAct} (h : s.step (.peer c act) = some t) :
    t.broker = s.broker ∧ ∃ ch, act.apply (s.channels c) = some ch ∧
      t.channels = Function.update s.channels c ch := by
  obtain ⟨ch, hch, rfl⟩ := Option.map_eq_some_iff.mp h
  exact ⟨rfl, ch, hch, rfl⟩

/-- A step is one of the broker's, or leaves the broker alone. -/
theorem step_broker {label : Label} (h : Step s label t) :
    ∃ inputs, Execution.Run Broker.Step s.broker inputs t.broker := by
  cases label with
  | broker i => exact ⟨[i], .single (stepBroker_eq_some h).2.1⟩
  | peer c act =>
      refine ⟨[], ?_⟩
      rw [(step_peer h).1]
      exact .start

theorem Reachable.broker (h : s.Reachable) : Broker.Reachable s.broker := by
  refine Execution.Reachable.simulate (f := Crowd.broker) ?_ (fun hstep => step_broker hstep) h
  rintro s ⟨listenerFd, rfl⟩
  exact ⟨0, listenerFd, rfl⟩

/-- The broker's part of a run is a run of the broker. -/
theorem run_broker (h : Run s labels t) :
    ∃ inputs, Execution.Run Broker.Step s.broker inputs t.broker :=
  Execution.Run.simulate (f := Crowd.broker) (fun hstep => step_broker hstep) h

end Crowd

end Hyperglyph
