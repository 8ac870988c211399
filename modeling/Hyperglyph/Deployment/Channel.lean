import Mathlib.Logic.Function.Basic
import Hyperglyph.Broker.Handlers
import Hyperglyph.Client.Process

/-! The `SOCK_SEQPACKET` connections between the broker and its clients: two queues of whole
messages for each, and what the broker's calls do to them. -/
namespace Hyperglyph

structure Packet where
  message : MessageV1
  attached : List Object
  deriving DecidableEq

structure Channel where
  connected : Bool
  toBroker : List (List UInt8)
  toPeer : List Packet
  peerClosed : Bool
  brokerClosed : Bool

/-- How a client's `recvmsg` ends. The numbers are for the attached descriptors; when there
are too few of them, the rest is cut off. -/
inductive Delivery
  | failed (e : Errno)
  | arrived (numbers : List Nat)
  deriving DecidableEq

def Packet.reception (packet : Packet) (numbers : List Nat) : Reception where
  octets := packet.message.encode
  control := if packet.attached = [] then [] else [.rights (numbers.zip packet.attached) false]
  controlTruncated := decide (numbers.length < packet.attached.length)

namespace Channel

def fresh : Channel := ⟨false, [], [], false, false⟩

def push (ch : Channel) (m : MessageV1) : Channel :=
  { ch with toBroker := ch.toBroker ++ [m.encode] }

def hangUp (ch : Channel) : Channel := { ch with peerClosed := true }

/-- The client's `recvmsg`. On an empty queue it finds the end of the stream, or waits until
its timeout. -/
def receive (ch : Channel) : Delivery → Except Errno Reception × Channel
  | .failed e => (.error e, ch)
  | .arrived numbers =>
      match ch.toPeer with
      | packet :: rest => (.ok (packet.reception numbers), { ch with toPeer := rest })
      | [] => (if ch.brokerClosed then .ok ⟨[], [], false⟩ else .error .again, ch)

/-- What an event of the broker does to the connection it concerns. The broker reads the
queue from its head, and the empty datagram once the peer has closed. -/
def absorb (ch : Channel) : Event → Option Channel
  | .accepted _ => if ch.connected then some ch else none
  | .received _ d =>
      match ch.toBroker with
      | head :: rest => if d = head then some { ch with toBroker := rest } else none
      | [] => if d = [] ∧ ch.peerClosed then some ch else none
  | .sent _ message attached => some { ch with toPeer := ch.toPeer ++ [⟨message, attached⟩] }
  | .closed _ => some { ch with brokerClosed := true }
  | _ => some ch

@[simp] theorem push_toBroker (ch : Channel) (m : MessageV1) :
    (ch.push m).toBroker = ch.toBroker ++ [m.encode] := rfl
@[simp] theorem push_toPeer (ch : Channel) (m : MessageV1) : (ch.push m).toPeer = ch.toPeer := rfl
@[simp] theorem push_peerClosed (ch : Channel) (m : MessageV1) :
    (ch.push m).peerClosed = ch.peerClosed := rfl
@[simp] theorem hangUp_toBroker (ch : Channel) : ch.hangUp.toBroker = ch.toBroker := rfl
@[simp] theorem hangUp_toPeer (ch : Channel) : ch.hangUp.toPeer = ch.toPeer := rfl

@[simp] theorem receive_toBroker (ch : Channel) (d : Delivery) :
    (ch.receive d).2.toBroker = ch.toBroker := by
  cases d with
  | failed e => rfl
  | arrived numbers =>
      simp only [receive]
      split <;> rfl

@[simp] theorem receive_peerClosed (ch : Channel) (d : Delivery) :
    (ch.receive d).2.peerClosed = ch.peerClosed := by
  cases d with
  | failed e => rfl
  | arrived numbers =>
      simp only [receive]
      split <;> rfl

/-- Receiving leaves the queue or takes its head. -/
theorem receive_toPeer (ch : Channel) (d : Delivery) :
    (ch.receive d).2.toPeer = ch.toPeer ∨ (ch.receive d).2.toPeer = ch.toPeer.tail := by
  cases d with
  | failed e => exact .inl rfl
  | arrived numbers =>
      simp only [receive]
      split
      · next hq =>
          right
          rw [hq]
          rfl
      · exact .inl rfl

end Channel

/-- The connection an event concerns. -/
def Event.conn? : Event → Option ConnId
  | .accepted c | .received c _ | .sent c _ _ | .unsent c _ _ | .closed (.conn c) => some c
  | _ => none

def absorbEvent (channels : ConnId → Channel) (e : Event) : Option (ConnId → Channel) :=
  match e.conn? with
  | some c => ((channels c).absorb e).map (Function.update channels c)
  | none => some channels

/-- The channels after what the broker did, if its calls could end like this. -/
def absorb (channels : ConnId → Channel) : List Event → Option (ConnId → Channel)
  | [] => some channels
  | e :: rest => (absorbEvent channels e).bind fun channels => absorb channels rest

/-- The datagrams the broker took from `c`. -/
def takenFrom (c : ConnId) (events : List Event) : List (List UInt8) :=
  events.filterMap fun
    | .received c' d => if c' = c then some d else none
    | _ => none

/-- The packets the broker sent to `c`. -/
def sentTo (c : ConnId) (events : List Event) : List Packet :=
  events.filterMap fun
    | .sent c' message attached => if c' = c then some ⟨message, attached⟩ else none
    | _ => none

theorem takenFrom_append (c : ConnId) (events more : List Event) :
    takenFrom c (events ++ more) = takenFrom c events ++ takenFrom c more := List.filterMap_append

theorem mem_takenFrom {c : ConnId} {events : List Event} {d : List UInt8} :
    d ∈ takenFrom c events ↔ Event.received c d ∈ events := by
  simp only [takenFrom, List.mem_filterMap]
  constructor
  · rintro ⟨e, he, hd⟩
    split at hd
    · split at hd
      · next heq =>
          cases hd
          rwa [heq] at he
      · cases hd
    · cases hd
  · exact fun he => ⟨_, he, if_pos rfl⟩

theorem mem_sentTo {c : ConnId} {events : List Event} {packet : Packet} :
    packet ∈ sentTo c events ↔ Event.sent c packet.message packet.attached ∈ events := by
  simp only [sentTo, List.mem_filterMap]
  constructor
  · rintro ⟨e, he, hp⟩
    split at hp
    · split at hp
      · next heq =>
          cases hp
          rwa [heq] at he
      · cases hp
    · cases hp
  · exact fun he => ⟨_, he, if_pos rfl⟩

/-- Taking these datagrams leaves this queue of that one. -/
inductive Drains (peerClosed : Bool) :
    List (List UInt8) → List (List UInt8) → List (List UInt8) → Prop
  | done (q : List (List UInt8)) : Drains peerClosed q [] q
  | head (d : List UInt8) {q taken q' : List (List UInt8)} : Drains peerClosed q taken q' →
      Drains peerClosed (d :: q) (d :: taken) q'
  | hangup {taken q' : List (List UInt8)} : peerClosed = true → Drains peerClosed [] taken q' →
      Drains peerClosed [] ([] :: taken) q'

section Drains

variable {closed : Bool} {q taken q' : List (List UInt8)} {d : List UInt8}

theorem Drains.taken_mem (h : Drains closed q taken q') (hd : d ∈ taken) :
    d ∈ q ∨ d = [] ∧ closed = true := by
  induction h with
  | done q => cases hd
  | head d' _ ih =>
      rcases List.mem_cons.mp hd with rfl | hrest
      · exact .inl List.mem_cons_self
      · exact (ih hrest).imp (List.mem_cons_of_mem d') id
  | hangup hclosed _ ih =>
      rcases List.mem_cons.mp hd with rfl | hrest
      · exact .inr ⟨rfl, hclosed⟩
      · exact ih hrest

theorem Drains.suffix (h : Drains closed q taken q') : q' <:+ q := by
  induction h with
  | done q => exact List.suffix_refl q
  | head d' _ ih => exact ih.trans (List.suffix_cons d' _)
  | hangup _ _ ih => exact ih

theorem Drains.of_nil (h : Drains closed q [] q') : q' = q := by
  cases h
  rfl

theorem Drains.single (h : Drains closed q [d] q') :
    q = d :: q' ∨ q = [] ∧ q' = [] ∧ d = [] ∧ closed = true := by
  cases h with
  | head d hrest =>
      rw [hrest.of_nil]
      exact .inl rfl
  | hangup hclosed hrest => exact .inr ⟨rfl, hrest.of_nil, rfl, hclosed⟩

end Drains

/-- What becomes of the channel of `c`. -/
structure Absorbed (c : ConnId) (events : List Event) (ch ch' : Channel) : Prop where
  toPeer : ch'.toPeer = ch.toPeer ++ sentTo c events
  toBroker : Drains ch.peerClosed ch.toBroker (takenFrom c events) ch'.toBroker
  peerClosed : ch'.peerClosed = ch.peerClosed

theorem absorbed_of_other {c : ConnId} {e : Event} (h : e.conn? ≠ some c) (ch : Channel) :
    Absorbed c [e] ch ch := by
  have hsent : sentTo c [e] = [] := by
    cases e <;> simp_all [sentTo, Event.conn?]
  have htaken : takenFrom c [e] = [] := by
    cases e <;> simp_all [takenFrom, Event.conn?]
  refine ⟨by rw [hsent, List.append_nil], ?_, rfl⟩
  rw [htaken]
  exact .done _

theorem absorbed_of_absorb {c : ConnId} {e : Event} {ch ch' : Channel} (hc : e.conn? = some c)
    (h : ch.absorb e = some ch') : Absorbed c [e] ch ch' := by
  cases e with
  | badClose => cases hc
  | accepted c' =>
      simp only [Channel.absorb] at h
      split at h
      · cases h
        exact ⟨(List.append_nil _).symm, .done _, rfl⟩
      · cases h
  | unsent c' message attached =>
      cases h
      exact ⟨(List.append_nil _).symm, .done _, rfl⟩
  | closed o =>
      cases h
      exact ⟨(List.append_nil _).symm, .done _, rfl⟩
  | sent c' message attached =>
      cases h
      cases hc
      exact ⟨by simp [sentTo], .done _, rfl⟩
  | received c' d =>
      cases hc
      have htaken : takenFrom c [.received c d] = [d] := by simp [takenFrom]
      simp only [Channel.absorb] at h
      split at h
      · next head rest hq =>
          split at h
          · next hd =>
              cases h
              refine ⟨(List.append_nil _).symm, ?_, rfl⟩
              rw [htaken, hq, hd]
              exact .head head (.done rest)
          · cases h
      · next hq =>
          split at h
          · next hd =>
              cases h
              refine ⟨(List.append_nil _).symm, ?_, rfl⟩
              rw [htaken, hq, hd.1]
              exact .hangup hd.2 (.done [])
          · cases h

theorem Drains.append {closed : Bool} {q q' q'' taken more : List (List UInt8)}
    (h : Drains closed q taken q') (h' : Drains closed q' more q'') :
    Drains closed q (taken ++ more) q'' := by
  induction h with
  | done q => exact h'
  | head d _ ih => exact .head d (ih h')
  | hangup hclosed _ ih => exact .hangup hclosed (ih h')

theorem Absorbed.append {c : ConnId} {events more : List Event} {ch ch' ch'' : Channel}
    (h : Absorbed c events ch ch') (h' : Absorbed c more ch' ch'') :
    Absorbed c (events ++ more) ch ch'' := by
  refine ⟨?_, ?_, h'.peerClosed.trans h.peerClosed⟩
  · rw [h'.toPeer, h.toPeer, List.append_assoc, sentTo, sentTo, sentTo, List.filterMap_append]
  · have hrest := h'.toBroker
    rw [h.peerClosed] at hrest
    rw [takenFrom, List.filterMap_append]
    exact h.toBroker.append hrest

/-- Every channel sees its own part of what the broker did. -/
theorem absorbed {channels channels' : ConnId → Channel} {events : List Event}
    (h : absorb channels events = some channels') (c : ConnId) :
    Absorbed c events (channels c) (channels' c) := by
  induction events generalizing channels with
  | nil =>
      cases h
      exact ⟨(List.append_nil _).symm, .done _, rfl⟩
  | cons e rest ih =>
      obtain ⟨between, he, hrest⟩ := Option.bind_eq_some_iff.mp h
      have hfirst : Absorbed c [e] (channels c) (between c) := by
        unfold absorbEvent at he
        cases hconn : e.conn? with
        | none =>
            rw [hconn] at he
            cases he
            exact absorbed_of_other (by rw [hconn]; simp) _
        | some c' =>
            rw [hconn] at he
            obtain ⟨ch', hch, rfl⟩ := Option.map_eq_some_iff.mp he
            by_cases heq : c' = c
            · subst heq
              rw [Function.update_self]
              exact absorbed_of_absorb hconn hch
            · rw [Function.update_of_ne (Ne.symm heq)]
              exact absorbed_of_other (by rw [hconn]; simpa using heq) _
      exact hfirst.append (ih hrest)

end Hyperglyph
