import Hyperglyph.Broker.SingleCreator
import Hyperglyph.Deployment.Participant

/-! One broker and any number of processes, each with its own connection. The process
numbered `c` makes the connection `c`. -/
namespace Hyperglyph

structure Deployment where
  broker : Broker
  channels : ConnId → Channel
  participants : ConnId → Participant
  history : List Happening

namespace Deployment

inductive Label
  | broker (i : Input)
  | participant (c : ConnId) (act : Act)

def start (maxClients listenerFd : Nat) : Deployment where
  broker := .start maxClients listenerFd
  channels := fun _ => .fresh
  participants := fun _ => .start
  history := []

/-- A step of the broker is possible if its calls can end as its input says. -/
def stepBroker (s : Deployment) (i : Input) : Option Deployment :=
  let broker := s.broker.step i
  (absorb s.channels (s.broker.newEvents broker)).map fun channels => { s with broker, channels }

def stepParticipant (config : ConnId → Config) (s : Deployment) (c : ConnId) (act : Act) :
    Deployment :=
  let (participant, channel, happened) :=
    (s.participants c).act (config c) c (s.channels c) act
  { s with
    participants := Function.update s.participants c participant
    channels := Function.update s.channels c channel
    history := s.history ++ happened }

def step (config : ConnId → Config) (s : Deployment) : Label → Option Deployment
  | .broker i => s.stepBroker i
  | .participant c act => some (s.stepParticipant config c act)

def Step (config : ConnId → Config) (s : Deployment) (label : Label) (t : Deployment) : Prop :=
  s.step config label = some t

def Init (s : Deployment) : Prop := ∃ maxClients listenerFd, s = start maxClients listenerFd

def Reachable (config : ConnId → Config) (s : Deployment) : Prop :=
  Execution.Reachable (Step config) Init s

/-- The deployment a sequence of labels leads to. -/
def run (config : ConnId → Config) (s : Deployment) : List Label → Option Deployment
  | [] => some s
  | label :: rest => (s.step config label).bind fun t => t.run config rest

variable {config : ConnId → Config} {s t : Deployment}

theorem reachable_start (maxClients listenerFd : Nat) :
    Reachable config (start maxClients listenerFd) := .of_init ⟨maxClients, listenerFd, rfl⟩

theorem run_of_run {labels : List Label} (h : s.run config labels = some t) :
    Execution.Run (Step config) s labels t := by
  induction labels generalizing s with
  | nil =>
      cases h
      exact .start
  | cons label rest ih =>
      obtain ⟨u, hstep, hrest⟩ := Option.bind_eq_some_iff.mp h
      exact (ih hrest).head hstep

theorem Reachable.run {labels : List Label} (hs : Reachable config s)
    (h : s.run config labels = some t) : Reachable config t := hs.extend (run_of_run h)

theorem stepBroker_eq_some {i : Input} (h : s.stepBroker i = some t) :
    t.broker = s.broker.step i ∧ t.participants = s.participants ∧ t.history = s.history ∧
      absorb s.channels (s.broker.newEvents (s.broker.step i)) = some t.channels := by
  obtain ⟨channels, hchannels, rfl⟩ := Option.map_eq_some_iff.mp h
  exact ⟨rfl, rfl, rfl, hchannels⟩

/-- A step is one of the broker's, or leaves the broker alone. -/
theorem step_broker {label : Label} (h : Step config s label t) :
    ∃ inputs, Execution.Run Broker.Step s.broker inputs t.broker := by
  cases label with
  | broker i => exact ⟨[i], .single (stepBroker_eq_some h).1⟩
  | participant c act =>
      cases h
      exact ⟨[], .start⟩

theorem Reachable.broker (h : Reachable config s) : Broker.Reachable s.broker := by
  refine Execution.Reachable.simulate (f := Deployment.broker) ?_ (fun hstep => step_broker hstep) h
  rintro s ⟨maxClients, listenerFd, rfl⟩
  exact ⟨maxClients, listenerFd, rfl⟩

end Deployment

end Hyperglyph
