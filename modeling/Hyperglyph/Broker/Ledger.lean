import Hyperglyph.Library.Execution
import Hyperglyph.Broker.Handlers

/-! What the broker is for, without its descriptors: one generation at a time, owned by the
connection that builds it and then published for good. A generation is named by its memfds,
`pair` and `pair + 1`; its owner by the accepted connection. -/
namespace Hyperglyph

open Octets

inductive Phase
  | empty
  | building (creator : ConnId) (pair : Nat) (size : UInt64) (key : KeyBuffer)
  | published (pair : Nat) (size base offset : UInt64) (key : KeyBuffer)
  deriving DecidableEq

/-- The request `m` is for a generation of this size and key. -/
def Asks (m : MessageV1) (size : UInt64) (key : KeyBuffer) : Prop :=
  m.mappingSize = size ∧ terminated m.cacheKey.bytes = true ∧
    strcmpEq m.cacheKey.bytes key.bytes = true

namespace Phase

def pair? : Phase → Option Nat
  | empty => none
  | building _ p _ _ => some p
  | published p _ _ _ _ => some p

theorem pair?_empty {p : Nat} : empty.pair? ≠ some p := by simp [pair?]

def creator? : Phase → Option ConnId
  | building c _ _ _ => some c
  | _ => none

/-- `c` is entitled to the descriptors. -/
def Serves (ph : Phase) (c : ConnId) (m : MessageV1) : Prop :=
  match ph with
  | empty => False
  | building creator _ size key => creator = c ∧ Asks m size key
  | published _ size _ _ key => Asks m size key

/-- The reply that carries the descriptors. -/
def share : Phase → MessageV1
  | empty => brokerMessageInit .create
  | building _ _ size _ => { brokerMessageInit .create with mappingSize := size }
  | published _ size base offset _ =>
      { brokerMessageInit .attach with
        mappingSize := size, mappingBase := base, sharedGlobalsOffset := offset }

/-- `READY` of `c` with this content publishes the generation. -/
def Accepts (ph : Phase) (c : ConnId) (m : MessageV1) : Prop :=
  match ph with
  | building creator _ size _ =>
      creator = c ∧ m.mappingSize = size ∧ m.mappingBase ≠ 0 ∧
        m.sharedGlobalsOffset < m.mappingSize
  | _ => False

def publish (ph : Phase) (m : MessageV1) : Phase :=
  match ph with
  | building _ p size key => published p size m.mappingBase m.sharedGlobalsOffset key
  | ph => ph

/-- What is left when `c` gives up or goes away. -/
def leave (ph : Phase) (c : ConnId) : Phase := if ph.creator? = some c then empty else ph

/-- The closing of the memfds that go with `c`. -/
def leaveEvents (ph : Phase) (c : ConnId) : List Event :=
  match ph with
  | building creator p _ _ =>
      if creator = c then [.closed (.memfd p), .closed (.memfd (p + 1))] else []
  | _ => []

@[simp] theorem mem_leaveEvents {ph : Phase} {c : ConnId} {e : Event} :
    e ∈ ph.leaveEvents c ↔ ph.creator? = some c ∧ ∃ p, ph.pair? = some p ∧
      (e = .closed (.memfd p) ∨ e = .closed (.memfd (p + 1))) := by
  cases ph with
  | empty => simp [leaveEvents, creator?]
  | published => simp [leaveEvents, creator?]
  | building creator p size key =>
      simp only [leaveEvents, creator?, pair?, Option.some_inj]
      split <;> simp_all

end Phase

/-- Answers without descriptors that leave the generation alone; the flag is `keep_open`. -/
inductive Answered (ph : Phase) (c : ConnId) (m : MessageV1) (sent : Bool) :
    MessageType → Bool → Prop
  | declined : m.type = MessageType.acquire.code → ph ≠ .empty → ¬ ph.Serves c m →
      Answered ph c m sent .decline sent
  | rejected : m.type = MessageType.ready.code → ¬ ph.Accepts c m →
      Answered ph c m sent .error sent
  | unacknowledged : m.type = MessageType.ready.code → ph.Accepts c m → sent = false →
      Answered ph c m sent .ack false
  | ignored : m.type = MessageType.abort.code → ph.creator? ≠ some c →
      Answered ph c m sent .ack sent
  | detached : m.type = MessageType.detach.code → Answered ph c m sent .ack false
  | unknown : m.type ≠ MessageType.acquire.code → m.type ≠ MessageType.ready.code →
      m.type ≠ MessageType.abort.code → m.type ≠ MessageType.detach.code →
      Answered ph c m sent .error false

/-- One activation of the message handler for `c`: events, the phase and the number of
memfds made so far afterwards, and `keep_open`. -/
inductive Served (ph : Phase) (next : Nat) (c : ConnId) : List Event → Phase → Nat → Bool → Prop
  | unread : Served ph next c [] ph next false
  | dropped (d : List UInt8) : (∀ m, brokerReceive d ≠ .message m) →
      Served ph next c [.received c d] ph next false
  | answered (d : List UInt8) (m : MessageV1) (reply : MessageType) (sent keep : Bool) :
      brokerReceive d = .message m → Answered ph c m sent reply keep →
      Served ph next c [.received c d, replyEvent c (brokerMessageInit reply) [] sent] ph next keep
  | shared (d : List UInt8) (m : MessageV1) (p : Nat) (sent : Bool) :
      brokerReceive d = .message m → m.type = MessageType.acquire.code → ph.Serves c m →
      ph.pair? = some p →
      Served ph next c
        [.received c d, replyEvent c ph.share [.memfd p, .memfd (p + 1)] sent] ph next sent
  | created (d : List UInt8) (m : MessageV1) (sent : Bool) :
      brokerReceive d = .message m → m.type = MessageType.acquire.code → ph = .empty →
      requestInvalid m = false →
      Served ph next c
        [.received c d,
          replyEvent c { brokerMessageInit .create with mappingSize := m.mappingSize }
            [.memfd next, .memfd (next + 1)] sent]
        (.building c next m.mappingSize m.cacheKey) (next + 2) sent
  | notCreated (d : List UInt8) (m : MessageV1) (made : Nat) (sent : Bool) :
      brokerReceive d = .message m → m.type = MessageType.acquire.code → ph = .empty →
      Served ph next c
        (.received c d :: ((List.range made).map fun i => .closed (.memfd (next + i))) ++
          [replyEvent c (brokerMessageInit .error) [] sent])
        .empty (next + made) sent
  | published (d : List UInt8) (m : MessageV1) :
      brokerReceive d = .message m → m.type = MessageType.ready.code → ph.Accepts c m →
      Served ph next c [.received c d, .sent c (brokerMessageInit .ack) []] (ph.publish m) next true
  | aborted (d : List UInt8) (m : MessageV1) (sent : Bool) :
      brokerReceive d = .message m → m.type = MessageType.abort.code → ph.creator? = some c →
      Served ph next c
        (.received c d :: ph.leaveEvents c ++ [replyEvent c (brokerMessageInit .ack) [] sent])
        .empty next sent

/-- The abstract broker: the phase, the number of memfds made, and what happened. -/
structure Ledger where
  phase : Phase
  next : Nat
  log : List Event

/-- A connection between its `accept` and its `close`. -/
def OpenConn (log : List Event) (c : ConnId) : Prop :=
  Event.accepted c ∈ log ∧ Event.closed (.conn c) ∉ log

/-- The events outside the handler that concern no generation. -/
def Quiet (log events : List Event) : Prop :=
  events = [] ∨ events = [.closed .listener] ∨
    ∃ c, Event.accepted c ∉ log ∧
      (events = [.accepted c] ∨ events = [.accepted c, .closed (.conn c)])

namespace Ledger

def start : Ledger := ⟨.empty, 0, []⟩

/-- A move that handles no message, with the events it adds. -/
inductive Upkeep : Ledger → List Event → Ledger → Prop
  | quiet {l : Ledger} {events : List Event} : Quiet l.log events →
      Upkeep l events ⟨l.phase, l.next, l.log ++ events⟩
  | left {l : Ledger} {c : ConnId} : OpenConn l.log c →
      Upkeep l (l.phase.leaveEvents c ++ [.closed (.conn c)])
        ⟨l.phase.leave c, l.next, l.log ++ (l.phase.leaveEvents c ++ [.closed (.conn c)])⟩
  | dissolved {l : Ledger} {p : Nat} {size base offset : UInt64} {key : KeyBuffer} :
      l.phase = .published p size base offset key →
      Upkeep l [.closed (.memfd p), .closed (.memfd (p + 1))]
        ⟨.empty, l.next, l.log ++ [.closed (.memfd p), .closed (.memfd (p + 1))]⟩

/-- One move of the broker: upkeep, or one message handled, and perhaps its sender closed. -/
inductive Step : Ledger → List Event → Ledger → Prop
  | upkeep {l l' : Ledger} {events : List Event} : Upkeep l events l' → Step l events l'
  | served {l : Ledger} {c : ConnId} {events : List Event} {ph : Phase} {next : Nat} :
      OpenConn l.log c → Served l.phase l.next c events ph next true →
      Step l events ⟨ph, next, l.log ++ events⟩
  | dismissed {l : Ledger} {c : ConnId} {events : List Event} {ph : Phase} {next : Nat}
      {keep : Bool} : OpenConn l.log c → Served l.phase l.next c events ph next keep →
      Step l (events ++ (ph.leaveEvents c ++ [.closed (.conn c)]))
        ⟨ph.leave c, next, l.log ++ (events ++ (ph.leaveEvents c ++ [.closed (.conn c)]))⟩

theorem Upkeep.log_eq {l l' : Ledger} {events : List Event} (h : Upkeep l events l') :
    l'.log = l.log ++ events := by
  cases h <;> rfl

theorem Step.log_eq {l l' : Ledger} {events : List Event} (h : Step l events l') :
    l'.log = l.log ++ events := by
  cases h with
  | upkeep h => exact h.log_eq
  | served | dismissed => rfl

abbrev Run : Ledger → List (List Event) → Ledger → Prop := Execution.Run Step

def Reachable (l : Ledger) : Prop := Execution.Reachable Step (· = start) l

theorem Run.log_eq {l l' : Ledger} {events : List (List Event)} (h : Run l events l') :
    l'.log = l.log ++ events.flatten := by
  induction h with
  | start => simp
  | next _ last ih =>
      rw [last.log_eq, ih, List.append_assoc, List.flatten_append, List.flatten_singleton]

end Ledger

end Hyperglyph
